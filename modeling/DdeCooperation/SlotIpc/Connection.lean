import DdeCooperation.Tunnel.Frame

/-!
# Messages over the socket of the slot IPC

A message goes over the socket with its size before it. Both readers keep the size and the part
of the message that has come until the next notification. What they keep and the bytes to come
tell the messages that are still to be handed over. Their loops preserve this, and leave nothing
unread but the beginning of a header.
-/

namespace DdeCooperation.SlotIpc

open Qt Tunnel List

/-- `sendCallRequest` and `sendResponse`. -/
def frame (message : QByteArray) : QByteArray :=
  appendU32 [] (UInt32.ofNat message.length) ++ message

structure Connection where
  /-- What can be read from the socket. -/
  socket : QByteArray := []
  nextBlockSize : ℕ := 0
  block : QByteArray := []
  /-- The messages that were handed over. -/
  handled : List QByteArray := []

namespace Connection

/-- Reads the size of the next message; there may be too few bytes for it. -/
def fetchSize (c : Connection) : Option Connection :=
  if c.nextBlockSize = 0 then
    (readU32 c.socket 0).map fun size ↦
      { c with nextBlockSize := size.toNat, socket := c.socket.drop 4 }
  else some c

/-- Tells whether the reader waits for more bytes. After an incomplete message only the service
looks whether there are some. -/
def readMessageFromSocket (client : Bool) (c : Connection) : Bool × Connection :=
  match c.fetchSize with
  | none => (true, c)
  | some c =>
    if c.socket = [] then (true, c)
    else
      let bytesToFetch := c.nextBlockSize - c.block.length
      let block := c.block ++ c.socket.take bytesToFetch
      let socket := c.socket.drop bytesToFetch
      if block.length = c.nextBlockSize then
        (socket.isEmpty, ⟨socket, 0, [], c.handled ++ [block]⟩)
      else (client || socket.isEmpty, { c with socket := socket, block := block })

/-- The loop, with a bound on its rounds. -/
def readyRead (client : Bool) : ℕ → Connection → Connection
  | 0, c => c
  | rounds + 1, c =>
    match c.readMessageFromSocket client with
    | (true, c) => c
    | (false, c) => readyRead client rounds c

/-- Bytes arrive. A client that was told `AboutToCloseSocket` has disconnected. -/
def receive (client : Bool) (closes : QByteArray → Bool) (c : Connection) (chunk : QByteArray) :
    Connection :=
  if client ∧ c.handled.any closes then c
  else
    let c := { c with socket := c.socket ++ chunk }
    c.readyRead client (c.socket.length + 1)

/-- The messages are those handed over and those that the kept bytes and the bytes to come tell. -/
def Reading (messages : List QByteArray) (future : QByteArray) (c : Connection) : Prop :=
  if c.nextBlockSize = 0 then
    c.block = [] ∧ ∃ rest, messages = c.handled ++ rest ∧ c.socket ++ future = rest.flatMap frame
  else ∃ message rest, messages = c.handled ++ message :: rest ∧
    c.nextBlockSize = message.length ∧ c.block.length < message.length ∧
    c.block ++ (c.socket ++ future) = message ++ rest.flatMap frame

/-- Nothing is left to be read but the beginning of a header. -/
def Drained (c : Connection) : Prop :=
  if c.nextBlockSize = 0 then readU32 c.socket 0 = none else c.socket = []

/-- The messages were handed over in order and each once: all of them, unless a client was told
of the closing. -/
def Delivered (client : Bool) (closes : QByteArray → Bool) (messages : List QByteArray)
    (c : Connection) : Prop :=
  c.handled <+: messages ∧ (c.handled = messages ∨ client ∧ ∃ m ∈ c.handled, closes m)

/-- A field that can be read is read as well before more bytes. -/
theorem readU32_append {data : QByteArray} {value : UInt32} (h : readU32 data 0 = some value)
    (more : QByteArray) : readU32 (data ++ more) 0 = some value ∧ 4 ≤ data.length := by
  unfold readU32 at h ⊢
  split at h
  · simp_all
  · cases h

variable (client : Bool) {c c' : Connection} {future : QByteArray} {messages chunks : List QByteArray}
  (hok : ∀ m ∈ messages, m ≠ [] ∧ m.length < 2 ^ 31)
include hok

/-- A size that can be read is that of the next message. -/
theorem Reading.fetchSize (h : c.Reading messages future) (hfetch : c.fetchSize = some c') :
    c'.Reading messages future ∧ c'.nextBlockSize ≠ 0 ∧ c'.socket.length ≤ c.socket.length := by
  unfold Connection.fetchSize at hfetch
  split at hfetch
  case isFalse hsize =>
    cases hfetch
    exact ⟨h, hsize, le_rfl⟩
  case isTrue hsize =>
    obtain ⟨size, hread, rfl⟩ := Option.map_eq_some_iff.mp hfetch
    rw [Reading, if_pos hsize] at h
    obtain ⟨hblock, rest, rfl, hstream⟩ := h
    obtain ⟨hread, hfour⟩ := readU32_append hread future
    rw [hstream] at hread
    cases rest with
    | nil => simp [readU32] at hread
    | cons message rest =>
      obtain ⟨hne, hlt⟩ := hok message (by simp)
      have hpos := length_pos_iff.mpr hne
      rw [flatMap_cons, frame, append_assoc] at hread hstream
      rw [readU32_zero_appendU32] at hread
      cases hread
      have hdrop := congrArg (drop 4) hstream
      rw [drop_append_of_le_length hfour, drop_left' (by simp [appendU32])] at hdrop
      have hnat : (UInt32.ofNat message.length).toNat = message.length := by
        rw [UInt32.toNat_ofNat', Nat.mod_eq_of_lt (by omega)]
      simp only [Reading, hnat, hpos.ne', if_false, hblock]
      exact ⟨⟨message, rest, rfl, rfl, hpos, hdrop⟩, hpos.ne', by simp⟩

/-- A round waits with nothing left to be read, or has read something. -/
theorem Reading.round (h : c.Reading messages future) :
    let r := c.readMessageFromSocket client
    r.2.Reading messages future ∧ (r.1 = true → r.2.Drained) ∧
      (r.1 = false → r.2.socket.length < c.socket.length) := by
  unfold readMessageFromSocket
  cases hfetch : c.fetchSize with
  | none =>
    refine ⟨h, fun _ ↦ ?_, by simp⟩
    unfold Connection.fetchSize at hfetch
    split at hfetch <;> simp_all [Drained]
  | some c' =>
    obtain ⟨hreading, hsize, hle⟩ := h.fetchSize hok hfetch
    by_cases hempty : c'.socket = []
    · simp only [hempty, if_true]
      exact ⟨hreading, by simp [Drained, hsize, hempty], by simp⟩
    have hsome := length_pos_iff.mpr hempty
    rw [Reading, if_neg hsize] at hreading
    obtain ⟨message, rest, hmessages, hlength, hlt, hstream⟩ := hreading
    simp only [hempty, if_false, hlength]
    obtain ⟨fetch, hfetched⟩ := Nat.exists_eq_add_of_lt hlt
    have hcount : message.length - c'.block.length = fetch + 1 := by omega
    rw [hcount]
    by_cases hfull : fetch + 1 ≤ c'.socket.length
    · -- the whole message has come
      have hmessage := congrArg (take message.length) hstream
      have hrest := congrArg (drop message.length) hstream
      rw [take_append, take_of_length_le hlt.le, hcount, take_append_of_le_length hfull,
        take_left] at hmessage
      rw [drop_append, drop_of_length_le hlt.le, hcount, drop_append_of_le_length hfull,
        drop_left] at hrest
      rw [hmessage, if_pos rfl]
      refine ⟨⟨rfl, rest, by simp [hmessages], hrest⟩, fun hend ↦ ?_, fun _ ↦ by simp; omega⟩
      simp [Drained, isEmpty_iff.mp hend, readU32]
    · rw [drop_of_length_le (by omega), take_of_length_le (by omega), if_neg (by simp; omega),
        ← hlength]
      refine ⟨?_, by simp [Drained, hsize], by simp⟩
      rw [Reading, if_neg hsize]
      exact ⟨message, rest, hmessages, hlength, by simp; omega, by simpa using hstream⟩

/-- The loop ends with nothing left to be read, if it may run long enough. -/
theorem Reading.readyRead {rounds : ℕ} (h : c.Reading messages future)
    (hrounds : c.socket.length < rounds) :
    (c.readyRead client rounds).Reading messages future ∧ (c.readyRead client rounds).Drained := by
  induction rounds generalizing c with
  | zero => omega
  | succ rounds ih =>
    have hround := h.round client hok
    unfold Connection.readyRead
    split
    next heq =>
      rw [heq] at hround
      exact ⟨hround.1, hround.2.1 rfl⟩
    next heq =>
      rw [heq] at hround
      exact ih hround.1 (by have := hround.2.2 rfl; dsimp only at this; omega)

/-- Between two notifications, the reader gets all the bytes to come, or it is a client that was
told of the closing. -/
theorem Reading.delivered {closes : QByteArray → Bool} (h : c.Reading messages future)
    (hdrained : c.Drained) (hfuture : future = chunks.flatten ∨ client ∧ c.handled.any closes) :
    (chunks.foldl (receive client closes) c).Delivered client closes messages := by
  induction chunks generalizing c future with
  | nil =>
    unfold Reading Drained at *
    split at h
    next hsize =>
      obtain ⟨_, rest, rfl, hstream⟩ := h
      refine ⟨prefix_append .., hfuture.imp (fun hnone ↦ ?_) (by simp)⟩
      cases rest with
      | nil => simp
      | cons message rest =>
        rw [hnone, flatten_nil, append_nil, flatMap_cons, frame, append_assoc] at hstream
        simp [hsize, hstream, readU32_zero_appendU32] at hdrained
    next hsize =>
      obtain ⟨message, rest, rfl, _, hlt, hstream⟩ := h
      refine ⟨prefix_append .., hfuture.imp (fun hnone ↦ ?_) (by simp)⟩
      rw [if_neg hsize] at hdrained
      have hlength := congrArg length hstream
      simp [hdrained, hnone] at hlength
      omega
  | cons chunk chunks ih =>
    rw [foldl_cons, receive]
    split
    next hclosed => exact ih h hdrained (.inr hclosed)
    next hopen =>
      have hcome : Reading messages chunks.flatten { c with socket := c.socket ++ chunk } := by
        unfold Reading at h ⊢
        simpa [hfuture.resolve_right hopen] using h
      obtain ⟨hread, hleft⟩ := hcome.readyRead client hok (Nat.lt_succ_self _)
      exact ih hread hleft (.inl rfl)

/-- However the frames are cut, a reader hands over the messages. -/
theorem delivered_of_flatten (closes : QByteArray → Bool)
    (hstream : chunks.flatten = messages.flatMap frame) :
    (chunks.foldl (receive client closes) {}).Delivered client closes messages :=
  Reading.delivered client hok ⟨rfl, messages, rfl, hstream⟩ rfl (.inl rfl)

omit hok in
/-- Two messages, cut within a header and coalesced. -/
theorem delivered_of_flatten_cut :
    ([[0, 0], [0, 1, 7, 0, 0, 0, 2], [8, 9]].foldl (receive true fun _ ↦ false) {}).Delivered true
      (fun _ ↦ false) [[7], [8, 9]] :=
  delivered_of_flatten true (by decide) _ rfl

omit hok in
/-- A message that comes along with the closing one is still handed over. -/
theorem handled_after_closing :
    ([[0, 0, 0, 1, 7, 0, 0, 0, 1, 8]].foldl (receive true (· = [7])) {}).handled = [[7], [8]] := by
  decide

end Connection

end DdeCooperation.SlotIpc
