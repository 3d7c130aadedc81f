import DdeCooperation.Tunnel.Frame

/-!
# Sockets and streams

A `QTcpSocket` is kept as the bytes it has passed in each direction: what
`read` has already handed out and what still waits in the read buffer, what has
left the write buffer and what still waits there. The two loops of a stream,
`pumpLoop` and `flushLoop`, are functions of the stream alone. They return the
chunks they moved, and the manager sends or records these.

How much of a `write` a socket accepts is not the tunnel's choice. `flushLoop`
takes the answers of the successive calls as a list, so that every pattern of
partial writes, refusals and failures is covered.
-/

namespace DdeCooperation.Tunnel

open Qt

def kChunkSize : ℕ := 16 * 1024
def kWindowSize : ℕ := 256 * 1024
def kWindowLowWater : ℕ := 64 * 1024
def kMaxPending : ℕ := 1024 * 1024
def kReadBufferSize : ℕ := 2 * kWindowSize
def kDialAttempts : ℕ := 4
def kMaxForwards : ℕ := 16
def kMaxServiceIdLength : ℕ := 128

/-- One `write` system call moves at most this many bytes, so one `bytesWritten` reports no
more. -/
def maxSystemWrite : ℕ := 0x7ffff000

inductive SocketState where
  | unconnected
  | connecting
  | connected
  deriving DecidableEq

structure QTcpSocket where
  state : SocketState
  /-- Bytes of the local application that `read` has handed out. -/
  taken : QByteArray := []
  /-- Bytes of the local application that wait to be read. -/
  readBuffer : QByteArray := []
  /-- Bytes accepted by `write` that `bytesWritten` has reported. -/
  drained : QByteArray := []
  /-- Bytes accepted by `write` that `bytesWritten` has not reported. -/
  writeBuffer : QByteArray := []
  deriving DecidableEq

namespace QTcpSocket

def bytesAvailable (socket : QTcpSocket) : ℕ := socket.readBuffer.length

/-- Everything the local application has put into the socket so far. -/
def received (socket : QTcpSocket) : QByteArray := socket.taken ++ socket.readBuffer

/-- Everything `write` has accepted so far. -/
def written (socket : QTcpSocket) : QByteArray := socket.drained ++ socket.writeBuffer

def read (socket : QTcpSocket) (maxSize : ℕ) : QByteArray × QTcpSocket :=
  (socket.readBuffer.take maxSize,
    { socket with
      taken := socket.taken ++ socket.readBuffer.take maxSize
      readBuffer := socket.readBuffer.drop maxSize })

def write (socket : QTcpSocket) (data : QByteArray) : QTcpSocket :=
  { socket with writeBuffer := socket.writeBuffer ++ data }

/-- Bytes arrive from the local application, up to the cap of `setReadBufferSize`. -/
def arrive (socket : QTcpSocket) (data : QByteArray) : QTcpSocket :=
  { socket with
    readBuffer := socket.readBuffer ++ data.take (kReadBufferSize - socket.readBuffer.length) }

/-- The first bytes of the write buffer reach the local application. -/
def drain (socket : QTcpSocket) (bytes : ℕ) : QTcpSocket :=
  { socket with
    drained := socket.drained ++ socket.writeBuffer.take bytes
    writeBuffer := socket.writeBuffer.drop bytes }

@[simp] theorem written_write (socket : QTcpSocket) (data : QByteArray) :
    (socket.write data).written = socket.written ++ data := by
  simp [written, write]

@[simp] theorem written_drain (socket : QTcpSocket) (bytes : ℕ) :
    (socket.drain bytes).written = socket.written := by
  simp [written, drain]

end QTcpSocket

structure Stream where
  serviceId : QString
  token : QString
  sock : QTcpSocket
  pending : QByteArray := []
  unacked : ℤ := 0
  dialAttempts : ℕ := 0
  ready : Bool := false
  dialer : Bool
  /-- The connect timer is running. -/
  timeout : Bool
  deriving DecidableEq

/-- The answer of one `write` call: a number of accepted bytes, or an error. -/
inductive WriteResult where
  | accepted (bytes : ℕ)
  | failed
  deriving DecidableEq

namespace Stream

/-! ## The pump loop -/

/-- The body of the pump loop: read at most a chunk and at most what the window leaves. -/
def readChunk (stream : Stream) : QByteArray × Stream :=
  let want := min (kChunkSize : ℤ) (kWindowSize - stream.unacked)
  let chunk := (stream.sock.read want.toNat).1
  (chunk, { stream with
    sock := (stream.sock.read want.toNat).2
    unacked := stream.unacked + chunk.length })

/-- Chunks read while the window is open and bytes are available. Every round takes a byte, so
the number of available bytes is enough fuel. -/
def pumpLoop : ℕ → Stream → List QByteArray × Stream
  | 0, stream => ([], stream)
  | fuel + 1, stream =>
    if stream.unacked < kWindowSize ∧ 0 < stream.sock.bytesAvailable then
      if stream.readChunk.1 = [] then ([], stream)
      else
        let rest := pumpLoop fuel stream.readChunk.2
        (stream.readChunk.1 :: rest.1, rest.2)
    else ([], stream)

theorem readChunk_length_le (stream : Stream) : stream.readChunk.1.length ≤ kChunkSize := by
  simp only [readChunk, QTcpSocket.read, List.length_take]
  omega

/-- The window is never overrun. -/
theorem readChunk_unacked_le {stream : Stream} (h : stream.unacked < kWindowSize) :
    stream.readChunk.2.unacked ≤ kWindowSize := by
  simp only [readChunk, QTcpSocket.read, List.length_take]
  omega

/-- An open window and a waiting byte always give a chunk. -/
theorem readChunk_ne_nil {stream : Stream} (hwindow : stream.unacked < kWindowSize)
    (havailable : 0 < stream.sock.bytesAvailable) : stream.readChunk.1 ≠ [] := by
  intro hnil
  have hlength : stream.readChunk.1.length = 0 := by rw [hnil]; rfl
  simp only [readChunk, QTcpSocket.read, List.length_take] at hlength
  simp only [QTcpSocket.bytesAvailable] at havailable
  simp only [kChunkSize, kWindowSize] at *
  omega

theorem readChunk_bytesAvailable (stream : Stream) :
    stream.readChunk.1.length + stream.readChunk.2.sock.bytesAvailable =
      stream.sock.bytesAvailable := by
  simp only [readChunk, QTcpSocket.read, QTcpSocket.bytesAvailable, List.length_take,
    List.length_drop]
  omega

/-- The loop only stops with a full window or an empty read buffer. -/
theorem pumpLoop_exhausts (fuel : ℕ) (stream : Stream) (h : stream.sock.bytesAvailable ≤ fuel) :
    (kWindowSize : ℤ) ≤ (stream.pumpLoop fuel).2.unacked ∨
      (stream.pumpLoop fuel).2.sock.bytesAvailable = 0 := by
  induction fuel generalizing stream with
  | zero => exact Or.inr (by simpa [pumpLoop] using h)
  | succ fuel ih =>
    simp only [pumpLoop]
    by_cases hloop : stream.unacked < kWindowSize ∧ 0 < stream.sock.bytesAvailable
    · have hchunk := readChunk_ne_nil hloop.1 hloop.2
      rw [if_pos hloop, if_neg hchunk]
      apply ih
      have hlength := List.length_pos_iff.mpr hchunk
      have hrest := readChunk_bytesAvailable stream
      omega
    · rw [if_neg hloop]
      by_cases hwindow : stream.unacked < kWindowSize
      · exact Or.inr (Nat.eq_zero_of_not_pos fun hpos ↦ hloop ⟨hwindow, hpos⟩)
      · exact Or.inl (not_lt.mp hwindow)

/-! ## The flush loop -/

/-- The body of the flush loop: the socket accepts the first `bytes` bytes of `pending`. -/
def writeChunk (stream : Stream) (bytes : ℕ) : QByteArray × Stream :=
  (stream.pending.take bytes, { stream with
    sock := stream.sock.write (stream.pending.take bytes)
    pending := stream.pending.drop bytes })

/-- Chunks written until `pending` is empty, a call accepts nothing, or a call fails (the flag
in the result). Calls beyond the listed answers accept nothing. -/
def flushLoop : List WriteResult → Stream → List QByteArray × Stream × Bool
  | [], stream => ([], stream, false)
  | .failed :: _, stream =>
    if stream.pending = [] then ([], stream, false) else ([], stream, true)
  | .accepted bytes :: writes, stream =>
    if stream.pending = [] ∨ bytes = 0 then ([], stream, false)
    else
      let rest := flushLoop writes (stream.writeChunk bytes).2
      ((stream.writeChunk bytes).1 :: rest.1, rest.2)

end Stream

end DdeCooperation.Tunnel
