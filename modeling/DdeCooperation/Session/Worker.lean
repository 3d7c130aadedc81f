import DdeCooperation.Qt.Values
import DdeCooperation.Session.Messages

/-!
# The session worker

`SessionWorker` answers the messages of the peers and keeps the hosts that have logged
in. It is called back by the server and the client of the session layer, which pass a
message without its sender, and by its own slots, which run later than the signals they
are connected to. What the worker gets from elsewhere is a parameter: the JSON library,
the decoding of a PIN, the handler that may take a message first.
-/

namespace DdeCooperation.Session

open Qt Picojson

def DO_SUCCESS : ℤ := 0
def LOGIN_SUCCESS : ℤ := 666
def LOGIN_DENIED : ℤ := 444

/-- What the worker calls and does not define. -/
structure Surroundings where
  /-- `picojson::parse`, without a value when it reports an error. -/
  parse : String → Option Value
  serialize : Value → String
  /-- `QString::fromUtf8(QByteArray::fromBase64(auth))`. -/
  decodePin : String → QString
  /-- `std::stoi`, without a value when it throws. -/
  stoi : String → Option ℤ
  /-- `_extMsghandler`: the answer to a message that it handles. -/
  extMsghandler : ℤ → Value → Option String
  createUuid : String
  getFirstIp : String
  /-- What an integer field holds that is never written. -/
  indeterminate : ℤ

inductive Signal where
  | onTransData (endpoint : QString) (names : List QString) (tunnel : Bool) (service : QString)
  | onTransCount (names : QString) (size : ℕ)
  | onCancelJob (jobid reason : QString)
  | onConnectChanged (result : ℤ) (reason : QString)
  | onRemoteDisconnected (remote : QString)
  | onRejectConnection
deriving DecidableEq

structure SessionWorker where
  savedPin : QString := ""
  connectedAddress : QString := ""
  tryConnect : Bool := false
  /-- `_login_hosts`. -/
  loginHosts : QHash QString Bool := ∅

/-- The worker after a callback, the answer and the signals in order. -/
structure Outcome where
  worker : SessionWorker
  response : OriginMessage
  signals : List Signal := []

namespace SessionWorker

def updatePincode (code : QString) (worker : SessionWorker) : SessionWorker :=
  { worker with savedPin := code }

def updateLogin (ip : QString) (logined : Bool) (worker : SessionWorker) : SessionWorker :=
  { worker with loginHosts := worker.loginHosts.insert ip logined }

/-! ## Messages -/

section Messages

variable (env : Surroundings)

def onLogin (v : Value) (response : OriginMessage) (worker : SessionWorker) : Read Outcome := do
  let req ← LoginMessage.fromJson v
  if env.decodePin req.auth = worker.savedPin then
    let res : LoginMessage := ⟨env.getFirstIp, env.createUuid⟩
    return ⟨worker.updateLogin req.name true,
      { response with jsonMsg := env.serialize res.asJson },
      [.onConnectChanged LOGIN_SUCCESS req.name]⟩
  else
    let res : LoginMessage := ⟨env.getFirstIp, ""⟩
    return ⟨worker, { response with jsonMsg := env.serialize res.asJson },
      [.onConnectChanged LOGIN_DENIED req.name, .onRejectConnection]⟩

def onFreeSpace (v : Value) (response : OriginMessage) (worker : SessionWorker) :
    Read Outcome := do
  let _req ← FreeSpaceMessage.fromJson v
  let res : FreeSpaceMessage := ⟨env.indeterminate, 0⟩
  return ⟨worker, { response with jsonMsg := env.serialize res.asJson }, []⟩

def onTransDatas (v : Value) (response : OriginMessage) (worker : SessionWorker) :
    Read Outcome := do
  let req ← TransDataMessage.fromJson v
  if worker.savedPin = "" ∨ worker.loginHosts.keys = [] then
    let res : TransDataMessage := ⟨req.id, [], "", false, env.indeterminate, false, ""⟩
    return ⟨worker, { response with jsonMsg := env.serialize res.asJson }, []⟩
  else
    let res : TransDataMessage := ⟨req.id, req.names, "", true, 0, false, ""⟩
    -- the size is read as an unsigned number
    let total := (req.size % 2 ^ 64).toNat
    return ⟨worker, { response with jsonMsg := env.serialize res.asJson },
      .onTransData req.endpoint req.names req.tunnel req.service ::
        if total > 0 then [.onTransCount (";".intercalate req.names) total] else []⟩

def onTransCancle (v : Value) (response : OriginMessage) (worker : SessionWorker) :
    Read Outcome := do
  let req ← TransCancelMessage.fromJson v
  let res : TransCancelMessage := ⟨req.id, req.name, ""⟩
  return ⟨worker, { response with jsonMsg := env.serialize res.asJson },
    [.onCancelJob req.id req.reason]⟩

def onInfoTransCount (v : Value) (response : OriginMessage) (worker : SessionWorker) :
    Read Outcome := do
  let req ← TransDataMessage.fromJson v
  let total := (req.size % 2 ^ 64).toNat
  let res : TransDataMessage := ⟨req.id, req.names, "", req.flag, req.size, false, ""⟩
  return ⟨worker, { response with jsonMsg := env.serialize res.asJson },
    [.onTransCount (";".intercalate req.names) total]⟩

/-- The `switch` over the type of a message. -/
def dispatch (mask : ℤ) (v : Value) (response : OriginMessage) (worker : SessionWorker) :
    Read Outcome :=
  if mask = REQ_LOGIN then worker.onLogin env v response
  else if mask = REQ_FREE_SPACE then worker.onFreeSpace env v response
  else if mask = REQ_TRANS_DATAS then worker.onTransDatas env v response
  else if mask = REQ_TRANS_CANCLE then worker.onTransCancle env v response
  else if mask = CAST_INFO then pure ⟨worker, response, []⟩
  else if mask = INFO_TRANS_COUNT then worker.onInfoTransCount env v response
  else pure ⟨worker, response, []⟩

def onReceivedMessage (request : OriginMessage) (worker : SessionWorker) : Read Outcome :=
  let response : OriginMessage := ⟨request.id, DO_SUCCESS, ""⟩
  if request.jsonMsg = "" then pure ⟨worker, response, []⟩
  else
    match env.parse request.jsonMsg with
    | none => pure ⟨worker, response, []⟩
    | some v =>
      match env.extMsghandler request.mask v with
      | some answer => pure ⟨worker, { response with jsonMsg := answer }, []⟩
      | none => worker.dispatch env request.mask v response

end Messages

/-! ## Connections -/

inductive RpcState where
  | pingout
  | error
  | disconnected
  | disconnecting
  | connecting
  | connected
deriving DecidableEq

def RpcState.code : RpcState → ℤ
  | pingout => -3
  | error => -2
  | disconnected => -1
  | disconnecting => 0
  | connecting => 1
  | connected => 2

/-- `asio::error::host_unreachable` and `asio::error::timed_out`. -/
def unreachable (code : ℤ) : Bool := code = 113 ∨ code = 110

/-- The result tells the client whether to connect again. -/
def onStateChanged (env : Surroundings) (state : RpcState) (msg : QString)
    (worker : SessionWorker) : Read (Bool × SessionWorker × List Signal) :=
  let changed := Signal.onConnectChanged state.code msg
  match state with
  | .connected =>
    pure (true, { worker with connectedAddress := msg, tryConnect := true }, [changed])
  | .disconnected =>
    if msg = "" then pure (worker.tryConnect, worker, [])
    else pure (false, worker, [.onRemoteDisconnected msg, changed])
  | .error =>
    match env.stoi msg with
    | none => throw ⟨"stoi"⟩
    | some code =>
      if unreachable code then pure (false, worker, [.onConnectChanged code msg])
      else pure (false, worker, [changed])
  | .pingout => pure (false, worker, [.onRemoteDisconnected msg, changed])
  | .disconnecting | .connecting => pure (false, worker, [changed])

def handleRemoteDisconnected (remote : QString) (worker : SessionWorker) : SessionWorker :=
  { worker with
    connectedAddress := if worker.connectedAddress = remote then "" else worker.connectedAddress
    loginHosts := worker.loginHosts.erase remote }

end SessionWorker

end DdeCooperation.Session
