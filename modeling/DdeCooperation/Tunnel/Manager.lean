import DdeCooperation.Tunnel.Stream

/-!
# The tunnel manager

`TunnelManager` is the state of one manager and `log` the list of everything it
has done to its surroundings, oldest first: frames handed to the session, dials,
chunks read from and written to local sockets, and signals. Every slot of the
source is a function on this state. What the surroundings decide enters as an
argument: random ids, the outcome of `listen`, the answers of `write`.

`Event` lists the API calls, the socket and timer signals and the incoming
frames; `step` runs the handler of one event to completion, which is how the Qt
event loop runs them. Sending only queues a frame, so no handler runs inside
another one.
-/

namespace DdeCooperation.Tunnel

open Qt

structure Service where
  host : QString
  port : UInt16
  deriving DecidableEq

/-- A local listener. `listening` is `server->isListening()`. -/
structure Forward where
  listening : Bool
  port : UInt16
  deriving DecidableEq

/-- What a manager does to its surroundings. -/
inductive Effect where
  | send (target : QString) (frame : Frame)
  | connectToHost (id : UInt32) (host : QString) (port : UInt16)
  | read (id : UInt32) (chunk : QByteArray)
  | write (id : UInt32) (chunk : QByteArray)
  | localForwardReady (serviceId : QString) (port : UInt16)
  | localForwardFailed (serviceId reason : QString)
  | streamOpened (id : UInt32) (serviceId : QString)
  | streamClosed (id : UInt32) (reason : QString)
  deriving DecidableEq

structure TunnelManager where
  /-- `_send` is set. -/
  send : Bool := false
  services : QHash QString Service := ∅
  forwards : QHash QString Forward := ∅
  streams : QHash UInt32 Stream := ∅
  peerIp : QString := ""
  peerRemote : QString := ""
  /-- Streams for which a `kDialRetryMs` single-shot timer is pending. -/
  retryTimers : List UInt32 := []
  log : List Effect := []

namespace TunnelManager

def findStream (m : TunnelManager) (id : UInt32) : Option Stream := m.streams.lookup id

def emit (effects : List Effect) (m : TunnelManager) : TunnelManager :=
  { m with log := m.log ++ effects }

def setStream (id : UInt32) (stream : Stream) (m : TunnelManager) : TunnelManager :=
  { m with streams := m.streams.insert id stream }

/-- `_send && !_peerIp.isEmpty()`. -/
def canSend (m : TunnelManager) : Bool := m.send && m.peerIp != ""

/-! ## Services and the peer -/

def registerService (serviceId host : QString) (port : UInt16) (m : TunnelManager) :
    Bool × TunnelManager :=
  if serviceId = "" ∨ kMaxServiceIdLength < QString.size serviceId ∨ host = "" ∨ port = 0 then
    (false, m)
  else (true, { m with services := m.services.insert serviceId ⟨host, port⟩ })

def unregisterService (serviceId : QString) (m : TunnelManager) : TunnelManager :=
  { m with services := m.services.erase serviceId }

def clearServices (m : TunnelManager) : TunnelManager := { m with services := ∅ }

def setPeer (peerIp : QString) (m : TunnelManager) : TunnelManager :=
  { m with peerRemote := if m.peerIp ≠ peerIp then "" else m.peerRemote, peerIp := peerIp }

/-! ## Sending -/

/-- A frame to the peer, dropped silently when there is no session or no peer. -/
def sendFrame (frame : Frame) (m : TunnelManager) : TunnelManager :=
  if m.canSend then m.emit [.send m.peerIp frame] else m

def sendData (id : UInt32) (data : QByteArray) (m : TunnelManager) : TunnelManager :=
  m.sendFrame (.tunnelData id data)

def sendAck (id consumed : UInt32) (m : TunnelManager) : TunnelManager :=
  m.sendFrame (.tunnelAck id consumed)

def sendClose (id : UInt32) (m : TunnelManager) : TunnelManager :=
  m.sendFrame (.tunnelClose id)

/-! ## Streams -/

/-- A new stream with its socket, its connect timer running. -/
def createStream (serviceId token : QString) (dialer : Bool) (state : SocketState) : Stream :=
  { serviceId := serviceId, token := token, sock := { state := state }, dialer := dialer,
    timeout := true }

/-- The stream leaves the table and its socket is aborted with all it holds. -/
def destroyStream (id : UInt32) (reason : QString) (notifyPeer : Bool) (m : TunnelManager) :
    TunnelManager :=
  match m.findStream id with
  | none => m
  | some _ =>
    let m := { m with streams := m.streams.erase id }
    let m := if notifyPeer && m.canSend then m.sendClose id else m
    m.emit [.streamClosed id reason]

def pump (id : UInt32) (m : TunnelManager) : TunnelManager :=
  match m.findStream id with
  | none => m
  | some stream =>
    if !stream.ready then m
    else
      let pumped := stream.pumpLoop stream.sock.bytesAvailable
      (pumped.1.foldl (fun m chunk ↦ (m.emit [.read id chunk]).sendData id chunk) m).setStream
        id pumped.2

def flushPending (id : UInt32) (writes : List WriteResult) (m : TunnelManager) : TunnelManager :=
  match m.findStream id with
  | none => m
  | some stream =>
    if !stream.ready || stream.pending = [] then m
    else if stream.sock.state ≠ .connected then m
    else
      let flushed := stream.flushLoop writes
      let m := (m.emit (flushed.1.map (Effect.write id))).setStream id flushed.2.1
      if flushed.2.2 then m.destroyStream id "write failed" true else m

/-! ## Local forwards -/

def stopLocalForward (serviceId : QString) (m : TunnelManager) : TunnelManager :=
  match m.forwards.lookup serviceId with
  | none => m
  | some _ =>
    let m := { m with forwards := m.forwards.erase serviceId }
    m.streams.keys.foldl (fun m id ↦
      match m.findStream id with
      | none => m
      | some stream =>
        if !stream.dialer && stream.serviceId = serviceId then
          m.destroyStream id "forward stopped" true
        else m) m

/-- The overload of `stopLocalForward` without an argument. -/
def stopLocalForwards (m : TunnelManager) : TunnelManager :=
  m.forwards.keys.foldl (fun m serviceId ↦ m.stopLocalForward serviceId) m

def destroyStreams (ids : List UInt32) (reason : QString) (m : TunnelManager) : TunnelManager :=
  ids.foldl (fun m id ↦ m.destroyStream id reason false) m

def stopAll (m : TunnelManager) : TunnelManager :=
  let m := m.stopLocalForwards
  let m := m.destroyStreams m.streams.keys "stopped"
  { m with streams := ∅ }

def onPeerDisconnected (m : TunnelManager) : TunnelManager :=
  let m := m.destroyStreams m.streams.keys "peer disconnected"
  let m := m.stopLocalForwards
  { m with peerIp := "", peerRemote := "" }

/-- `listen` is the answer of `QTcpServer::listen`: the bound port or an error text. -/
def startLocalForward (serviceId : QString) (listen : Except QString UInt16) (m : TunnelManager) :
    UInt16 × TunnelManager :=
  if serviceId = "" ∨ kMaxServiceIdLength < QString.size serviceId ∨ m.peerIp = "" then
    (0, m.emit [.localForwardFailed serviceId "no peer"])
  else
    let fresh (m : TunnelManager) : UInt16 × TunnelManager :=
      if kMaxForwards ≤ m.forwards.keys.length then
        (0, m.emit [.localForwardFailed serviceId "too many forwards"])
      else
        match listen with
        | .error text => (0, m.emit [.localForwardFailed serviceId text])
        | .ok port =>
          (port, { m with forwards := m.forwards.insert serviceId ⟨true, port⟩ }.emit
            [.localForwardReady serviceId port])
    match m.forwards.lookup serviceId with
    | some existing =>
      if existing.listening then (existing.port, m) else fresh (m.stopLocalForward serviceId)
    | none => fresh m

/-- The first draw that is not zero and not known locally; `none` while the generator has not
produced one. -/
def nextStreamId (draws : List UInt32) (m : TunnelManager) : Option UInt32 :=
  draws.find? fun id ↦ id ≠ 0 && (m.findStream id).isNone

/-- One accepted connection: the random numbers drawn for its id, and its random token. -/
structure Incoming where
  draws : List UInt32
  token : QString

def acceptConnection (serviceId : QString) (m : TunnelManager) (incoming : Incoming) :
    TunnelManager :=
  match m.nextStreamId incoming.draws with
  | none => m
  | some id =>
    let m := m.setStream id (createStream serviceId incoming.token false .connected)
    if !m.canSend then m.destroyStream id "no session" false
    else m.emit [.send m.peerIp (.tunnelOpen id serviceId incoming.token)]

def acceptLocalConnection (serviceId : QString) (connections : List Incoming) (m : TunnelManager) :
    TunnelManager :=
  match m.forwards.lookup serviceId with
  | none => m
  | some _ => connections.foldl (acceptConnection serviceId) m

/-! ## Socket and timer signals -/

def readyRead (id : UInt32) (data : QByteArray) (m : TunnelManager) : TunnelManager :=
  match m.findStream id with
  | none => m
  | some stream =>
    if stream.sock.state ≠ .connected then m
    else (m.setStream id { stream with sock := stream.sock.arrive data }).pump id

def bytesWritten (id : UInt32) (bytes : ℕ) (writes : List WriteResult) (m : TunnelManager) :
    TunnelManager :=
  match m.findStream id with
  | none => m
  | some stream =>
    let bytes := min (min bytes maxSystemWrite) stream.sock.writeBuffer.length
    let m := m.setStream id { stream with sock := stream.sock.drain bytes }
    let m := if 0 < bytes then m.sendAck id (UInt32.ofNat bytes) else m
    m.flushPending id writes

/-- Only a socket that was connected emits `disconnected`. -/
def disconnected (id : UInt32) (m : TunnelManager) : TunnelManager :=
  match m.findStream id with
  | none => m
  | some stream =>
    if stream.sock.state ≠ .connected then m else m.destroyStream id "socket closed" true

def errorOccurred (id : UInt32) (m : TunnelManager) : TunnelManager :=
  match m.findStream id with
  | none => m
  | some stream =>
    if !stream.ready && stream.dialer then
      if stream.dialAttempts < kDialAttempts then
        { m.setStream id { stream with
            dialAttempts := stream.dialAttempts + 1
            sock := { stream.sock with state := .unconnected } } with
          retryTimers := id :: m.retryTimers }
      else
        (m.sendFrame (.tunnelOpenAck id false stream.token "connect failed")).destroyStream
          id "connect failed" false
    else m.destroyStream id "socket error" true

/-- The connect timer of a stream fires. -/
def connectTimeout (id : UInt32) (m : TunnelManager) : TunnelManager :=
  match m.findStream id with
  | none => m
  | some stream =>
    if !stream.timeout || stream.ready then m
    else
      let frame : Frame := if stream.dialer then
        .tunnelOpenAck id false stream.token "connect timeout" else .tunnelClose id
      (m.sendFrame frame).destroyStream id "connect timeout" false

/-- `abort()` on a connected socket emits `disconnected` at once, which destroys the stream; there
is no stream left to dial for. -/
def dialService (id : UInt32) (m : TunnelManager) : TunnelManager :=
  match m.findStream id with
  | none => m
  | some stream =>
    if stream.ready then m
    else
      match m.services.lookup stream.serviceId with
      | none =>
        (m.sendFrame (.tunnelOpenAck id false stream.token "service removed")).destroyStream
          id "service removed" false
      | some service =>
        if stream.sock.state = .connected then m.destroyStream id "socket closed" true
        else
          (m.setStream id { stream with sock := { state := .connecting } }).emit
            [.connectToHost id service.host service.port]

/-- A pending dial retry fires. -/
def dialRetry (id : UInt32) (m : TunnelManager) : TunnelManager :=
  if id ∈ m.retryTimers then
    { m with retryTimers := m.retryTimers.erase id }.dialService id
  else m

/-- A dialled socket connects. The answer is sent without looking at the peer address; without a
send handler the call throws and the rest of the slot does not run. When the first write fails,
the source reads the name of the service from the freed stream; here it is the name from before. -/
def connected (id : UInt32) (writes : List WriteResult) (m : TunnelManager) : TunnelManager :=
  match m.findStream id with
  | none => m
  | some stream =>
    if stream.sock.state ≠ .connecting then m
    else
      let m := m.setStream id { stream with
        ready := true, timeout := false, sock := { stream.sock with state := .connected } }
      if !m.send then m
      else
        let m := m.emit [.send m.peerIp (.tunnelOpenAck id true stream.token "")]
        let m := m.flushPending id writes
        (m.emit [.streamOpened id stream.serviceId]).pump id

/-! ## Incoming frames -/

def handleOpen (json : QJsonDocument) (remote : QString) (payload : QByteArray)
    (m : TunnelManager) : TunnelManager :=
  match parseOpen json payload with
  | none => m
  | some (id, serviceId, token) =>
    if !m.send then m
    else if m.peerIp = "" ∨ remote ≠ m.peerIp then
      if remote ≠ "" then
        m.emit [.send remote (.tunnelOpenAck id false token "unexpected peer")]
      else m
    else
      match m.services.lookup serviceId with
      | none => m.emit [.send m.peerIp (.tunnelOpenAck id false token "unknown service")]
      | some service =>
        if (m.findStream id).isSome then
          m.emit [.send m.peerIp (.tunnelOpenAck id false token "duplicate stream")]
        else
          (m.setStream id (createStream serviceId token true .connecting)).emit
            [.connectToHost id service.host service.port]

def handleOpenAck (json : QJsonDocument) (remote : QString) (payload : QByteArray)
    (writes : List WriteResult) (m : TunnelManager) : TunnelManager :=
  match parseOpenAck json payload with
  | none => m
  | some (id, ok, token, reason) =>
    match m.findStream id with
    | none => m
    | some stream =>
      if stream.dialer then m
      else if token ≠ stream.token then m
      else if !ok then m.destroyStream id (if reason = "" then "rejected" else reason) false
      else
        let m := { m with peerRemote := remote }
        let m := m.setStream id { stream with ready := true, timeout := false }
        let m := m.emit [.streamOpened id stream.serviceId]
        (m.flushPending id writes).pump id

def handleData (payload : QByteArray) (writes : List WriteResult) (m : TunnelManager) :
    TunnelManager :=
  match readU32 payload 0 with
  | none => m
  | some id =>
    match m.findStream id with
    | none => m
    | some stream =>
      let chunk := payload.drop 4
      if chunk = [] then m
      else if kMaxPending < stream.pending.length + chunk.length then
        m.destroyStream id "pending overflow" true
      else
        (m.setStream id { stream with pending := stream.pending ++ chunk }).flushPending id writes

def handleAck (payload : QByteArray) (m : TunnelManager) : TunnelManager :=
  match readU32 payload 0, readU32 payload 4 with
  | some id, some consumed =>
    match m.findStream id with
    | none => m
    | some stream =>
      let unacked := max (stream.unacked - consumed.toNat) 0
      let m := m.setStream id { stream with unacked := unacked }
      if unacked < kWindowLowWater then m.pump id else m
  | _, _ => m

def handleClose (payload : QByteArray) (m : TunnelManager) : TunnelManager :=
  match readU32 payload 0 with
  | none => m
  | some id => m.destroyStream id "peer closed" false

/-- The sender is the current peer, under its announced or its learned address. -/
def peerMatches (remote : QString) (m : TunnelManager) : Bool :=
  remote = m.peerIp || (m.peerRemote != "" && remote = m.peerRemote)

def onTunnelMessage (json : QJsonDocument) (mask : ℤ) (payload : QByteArray) (remote : QString)
    (writes : List WriteResult) (m : TunnelManager) : TunnelManager :=
  if TUNNEL_MAX_FRAME_SIZE < payload.length then m
  else if m.peerIp = "" || !m.peerMatches remote then
    if TunnelMessageType.ofMask mask = some .tunnelOpenAck then
      m.handleOpenAck json remote payload writes
    else m
  else
    match TunnelMessageType.ofMask mask with
    | some .tunnelOpen => m.handleOpen json remote payload
    | some .tunnelOpenAck => m.handleOpenAck json remote payload writes
    | some .tunnelData => m.handleData payload writes
    | some .tunnelAck => m.handleAck payload
    | some .tunnelClose => m.handleClose payload
    | none => m

end TunnelManager

/-! ## Events and runs -/

/-- Everything that can happen to one manager. -/
inductive Event where
  | setSendHandler (set : Bool)
  | registerService (serviceId host : QString) (port : UInt16)
  | unregisterService (serviceId : QString)
  | clearServices
  | setPeer (peerIp : QString)
  | startLocalForward (serviceId : QString) (listen : Except QString UInt16)
  | stopLocalForward (serviceId : QString)
  | stopLocalForwards
  | stopAll
  | onPeerDisconnected
  | newConnection (serviceId : QString) (connections : List TunnelManager.Incoming)
  | readyRead (id : UInt32) (data : QByteArray)
  | bytesWritten (id : UInt32) (bytes : ℕ) (writes : List WriteResult)
  | disconnected (id : UInt32)
  | errorOccurred (id : UInt32)
  | connectTimeout (id : UInt32)
  | dialRetry (id : UInt32)
  | connected (id : UInt32) (writes : List WriteResult)
  | onTunnelMessage (mask : ℤ) (payload : QByteArray) (remote : QString)
      (writes : List WriteResult)

namespace TunnelManager

def step (json : QJsonDocument) (m : TunnelManager) : Event → TunnelManager
  | .setSendHandler set => { m with send := set }
  | .registerService serviceId host port => (m.registerService serviceId host port).2
  | .unregisterService serviceId => m.unregisterService serviceId
  | .clearServices => m.clearServices
  | .setPeer peerIp => m.setPeer peerIp
  | .startLocalForward serviceId listen => (m.startLocalForward serviceId listen).2
  | .stopLocalForward serviceId => m.stopLocalForward serviceId
  | .stopLocalForwards => m.stopLocalForwards
  | .stopAll => m.stopAll
  | .onPeerDisconnected => m.onPeerDisconnected
  | .newConnection serviceId connections => m.acceptLocalConnection serviceId connections
  | .readyRead id data => m.readyRead id data
  | .bytesWritten id bytes writes => m.bytesWritten id bytes writes
  | .disconnected id => m.disconnected id
  | .errorOccurred id => m.errorOccurred id
  | .connectTimeout id => m.connectTimeout id
  | .dialRetry id => m.dialRetry id
  | .connected id writes => m.connected id writes
  | .onTunnelMessage mask payload remote writes => m.onTunnelMessage json mask payload remote writes

/-- A run handles the events of a list one after the other. -/
def run (json : QJsonDocument) (m : TunnelManager) (events : List Event) : TunnelManager :=
  events.foldl (step json) m

end TunnelManager

end DdeCooperation.Tunnel
