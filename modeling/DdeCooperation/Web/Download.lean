import DdeCooperation.Web.Response

/-!
# Downloading one file

`FileClient::downloadFile` sets a response handler on its HTTP client, sends the request
and waits. The handler runs on the thread of the network: it opens the file when the header
arrives, writes what each callback finds in the cache of the response, and reports. The
waiting thread leaves when the handler says so, or when no data came for a while; then it
closes the file, removes it when it is empty and the download is not complete, and unsets the
handler. Callbacks may still run between these three.

`Download` is the state of one such call together with the part of the client that it uses.
The response is the client's, and may hold what an earlier call left in it.
`announced` and `body` record what the server sent, for the statements about it: the length
in the last header, and the bytes after that header. What the surroundings decide enters
with the events: whether the file can be opened, how much a write takes, and what is lost
when the buffer of the file cannot be flushed.
-/

namespace DdeCooperation.Web

inductive WebState where
  | WEB_DISCONNECTED
  | WEB_IO_ERROR
  | WEB_NOT_FOUND
  | WEB_FILE_BEGIN
  | WEB_FILE_END
deriving DecidableEq

/-- What the callback is told. -/
inductive Report where
  | onWebChanged (state : WebState) (msg : String) (size : ℕ)
  | onProgress (size : ℕ)
deriving DecidableEq

/-- The report that a file is at its end. -/
def Report.isFileEnd : Report → Bool
  | .onWebChanged .WEB_FILE_END _ _ => true
  | _ => false

/-- The statuses that the client passes to a response handler. -/
inductive HandleResult where
  | RES_OKHEADER
  | RES_NOTFOUND
  | RES_ERROR
  | RES_BODY
  | RES_FINISH
deriving DecidableEq

/-- The future of the request. -/
inductive Promise where
  | pending
  | value
  | exception
deriving DecidableEq

/-- How the file answers: whether it can be opened, how many bytes a write takes, and whether
the write throws. -/
structure FileAnswer where
  opens : Bool := true
  accepts : ℕ := 0
  throws : Bool := false

/-- The rounds of the waiting thread without data. -/
def ExitCount : ℕ := 5000

/-- How far the waiting thread is with its leaving. -/
inductive Stage where
  | waiting
  | fileClosed
  | placeholderRemoved
deriving DecidableEq

structure Download where
  response : HTTPResponse := {}
  /-- `HTTPFileClient::_canceled`, which outlives a download. -/
  canceled : Bool := false
  stop : Bool := false
  /-- The response handler of this download is set. -/
  handler : Bool := true
  promise : Promise := .pending
  /-- The timeout timer of the request is running. -/
  timer : Bool := true
  /-- The waiting thread has got the future. -/
  waits : Bool := false
  timeoutDone : ℕ := 0
  stage : Stage := .waiting
  /-- `tempFile.IsFileWriteOpened()`. -/
  opened : Bool := false
  written : List UInt8 := []
  completed : Bool := false
  failed : Bool := false
  removed : Bool := false
  /-- The path of the file, and its absolute path without the extension. -/
  path : String := ""
  filePath : String := ""
  reports : List Report := []
  announced : Option ℕ := none
  body : List UInt8 := []

namespace Download

def report (entry : Report) (d : Download) : Download := { d with reports := d.reports ++ [entry] }

/-- The handler ends the waiting. -/
def exit (d : Download) : Bool × Download := (true, { d with timeoutDone := ExitCount })

/-- `tempFile.Write`: nothing is tried for an empty buffer. -/
def write (buffer : List UInt8) (file : FileAnswer) (d : Download) : Bool × Download :=
  if buffer = [] then (true, d)
  else (!file.throws, { d with written := d.written ++ buffer.take file.accepts })

def ioError (d : Download) : Download :=
  { d with failed := true }.report (.onWebChanged .WEB_IO_ERROR "io_error" 0)

/-- The response handler. It answers whether the transfer is to be cut off. -/
def handle (status : HandleResult) (buffer : List UInt8) (size : ℕ) (file : FileAnswer)
    (d : Download) : Bool × Download :=
  let d := { d with timeoutDone := 0 }
  if d.stop then (true, d)
  else
    match status with
    | .RES_NOTFOUND =>
      ({ d with failed := true }.report (.onWebChanged .WEB_NOT_FOUND "not_found" 0)).exit
    | .RES_OKHEADER =>
      if d.opened || file.opens then
        (false, { d with opened := true }.report (.onWebChanged .WEB_FILE_BEGIN d.filePath size))
      else d.ioError.exit
    | .RES_BODY =>
      if d.opened && buffer ≠ [] then
        let (done, d) := d.write buffer file
        if done then (false, d.report (.onProgress size)) else d.ioError.exit
      else (false, d)
    | .RES_ERROR =>
      ({ d with failed := true }.report (.onWebChanged .WEB_DISCONNECTED "net_error" 0)).exit
    | .RES_FINISH =>
      let (done, d) := if d.opened then d.write buffer file else (true, d)
      let d := if done then d else d.ioError
      ({ d with completed := !d.failed }.report (.onWebChanged .WEB_FILE_END d.path size)).exit

/-! ## The callbacks of the client -/

/-- `SetPromiseValue` and `SetPromiseError`: a future is resolved once. -/
def setPromise (promise : Promise) (d : Download) : Download :=
  { d with promise := if d.promise = .pending then promise else d.promise }

/-- The header resolves the future. Its bytes leave the cache, and with them what came after
them in the same buffer. -/
def onReceivedResponseHeader (file : FileAnswer) (d : Download) : Download :=
  let d := { d.setPromise .value with
    timer := false
    announced := if d.response.bodyLengthProvided then some d.response.bodyLength else none
    body := d.response.cache.drop d.response.bodyIndex }
  let status : HandleResult := if d.response.status = 200 then .RES_OKHEADER else .RES_NOTFOUND
  let (_, d) := d.handle status [] d.response.bodyLength file
  { d with response := d.response.clearCache }

def onReceivedResponse (file : FileAnswer) (d : Download) : Download :=
  if d.canceled then d
  else
    let (_, d) := d.handle .RES_FINISH d.response.cache d.response.cache.length file
    { d with response := d.response.clear }

def onReceivedResponseBody (file : FileAnswer) (d : Download) : Download :=
  let (cancel, d) := d.handle .RES_BODY d.response.cache d.response.cache.length file
  { d with canceled := d.canceled || cancel, response := d.response.clearCache }

def onReceivedResponseError (d : Download) : Download := (d.handle .RES_ERROR [] 0 {}).2

/-- The part of `HTTPSClient::onReceived` after the header. -/
def receiveBody (buffer : List UInt8) (beyond : Bool) (file : FileAnswer) (d : Download) :
    Download :=
  let (done, response) := d.response.receiveBody buffer beyond
  let d := { d with response := response, body := d.body ++ buffer }
  if done then
    let d := d.onReceivedResponse file
    { d with response := d.response.clear }
  else d.onReceivedResponseBody file

def onReceived (buffer : List UInt8) (beyond : Bool) (file : FileAnswer) (d : Download) :
    Download :=
  if d.response.isPendingHeader then
    let (done, response) := d.response.receiveHeader buffer
    let d := { d with response := response }
    let d := if done then d.onReceivedResponseHeader file else d
    if d.response.error then
      let d := d.onReceivedResponseError
      { d with response := d.response.clear }
    else d.receiveBody [] beyond file
  else d.receiveBody buffer beyond file

/-- A response whose body has begun is passed on as finished. -/
def onDisconnected (file : FileAnswer) (d : Download) : Download :=
  let d := { d with timer := false }
  let d :=
    if d.response.isPendingBody then
      let d := d.onReceivedResponse file
      { d with response := d.response.clear }
    else d
  d.setPromise .exception

/-- The timer of the request fires. -/
def onTimeout (d : Download) : Download :=
  if d.timer then
    let d := { d with timer := false }.onReceivedResponseError
    { d with response := d.response.clear }
  else d

/-! ## The waiting thread -/

/-- `tempFile.Close`; `lost` bytes could not be flushed. -/
def close (lost : ℕ) (d : Download) : Download :=
  if d.opened then
    { d with opened := false, written := d.written.take (d.written.length - lost) }
  else d

/-- The thread looks at the future, then at the count, and then leaves in three steps. A file
that was opened again in between is closed by its destructor. -/
def tick (lost : ℕ) (d : Download) : Download :=
  if !d.waits then
    match d.promise with
    | .pending => d
    | .value => { d with waits := true }
    | .exception =>
      { d with waits := true, timeoutDone := ExitCount }.report
        (.onWebChanged .WEB_DISCONNECTED "net_error" 0)
  else
    match d.stage with
    | .waiting =>
      if d.stop || ExitCount ≤ d.timeoutDone then { d.close lost with stage := .fileClosed }
      else { d with timeoutDone := d.timeoutDone + 1 }
    | .fileClosed =>
      { d with
        stage := .placeholderRemoved
        removed := (!d.completed || d.failed) && d.written = [] }
    | .placeholderRemoved => { d.close lost with handler := false }

inductive Event where
  | received (buffer : List UInt8) (beyond : Bool) (file : FileAnswer)
  | disconnected (file : FileAnswer)
  | timeout
  | stop
  | tick (lost : ℕ)

/-- One event. When the handler is gone, the call is over. -/
def step (d : Download) (event : Event) : Download :=
  if !d.handler then d
  else
    match event with
    | .received buffer beyond file => d.onReceived buffer beyond file
    | .disconnected file => d.onDisconnected file
    | .timeout => d.onTimeout
    | .stop => { d with stop := true }
    | .tick lost => d.tick lost

end Download

end DdeCooperation.Web
