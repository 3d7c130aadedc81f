import DdeCooperation.Session.Messages
import DdeCooperation.Session.Server

/-!
# The network part of the cooperation

To search a device, to send files to it or to share the mouse with it, `NetworkUtil`
first logs in and then sends the application. Which application is to follow the login
is kept in one place, `_nextCombi`. A login is made over the session, or by the daemon of
the old protocol when the session cannot be connected; both answer later. The functions
return what they call in the other parts of the program.
-/

namespace DdeCooperation.Cooperation

open Picojson Session

/-- The kinds of applications that wait for a login. -/
inductive Apply where
  | info
  | trans
  | share
deriving DecidableEq

abbrev Request := Apply × Address

/-- What `NetworkUtil` calls in the other parts of the program. -/
inductive Call where
  | sendRpcRequest (ip : Address) (type : Apply) (message : ApplyMessage)
  | updateLoginStatus (ip : Address) (logined : Bool)
  /-- The calls of the daemon. It applies for a transfer to the host it connected last. -/
  | doTryConnect (ip : Address)
  | doAsyncSearch (ip : Address)
  | doApplyTransfer (deviceName : String)
  | doApplyShare (ip : Address) (data : String)
  /-- The reports to the helpers. -/
  | onConnectStatusChanged (result : ℤ) (ip : Address) (isself : Bool)
  | handleConnectResult (result : ℤ)
  | addSearchDeivce (info : String)
  | compatRemoveDeivce (ip : Address)
  | onShareExcepted (type : ℤ) (remote : Address)
  | onTransferExcepted (type : ℤ) (remote : Address)

def SHARE_CONNECT_UNABLE : ℤ := -1
def EX_NETWORK_PINGOUT : ℤ := -3

/-- What the machine is called, and the JSON library. -/
structure Device where
  parse : String → Option Value
  deviceInfoStr : String
  deviceName : String
  localIPAddress : Address
  hasTunnelManager : Bool

structure NetworkUtil where
  /-- `_nextCombi`, of which the type `0` stands for nothing. -/
  nextCombi : Option Request := none
  selfFingerPrint : String := ""
  confirmTargetAddress : Address := ""
  peerTransTunnel : Bool := false

namespace NetworkUtil

section Functions

variable (device : Device)

def reqTargetInfo (ip : Address) (compat : Bool) : List Call :=
  if compat then [.doAsyncSearch ip]
  else [.sendRpcRequest ip .info { flag := ASK_QUIET, host := ip, nick := device.deviceInfoStr }]

def sendTransApply (ip : Address) (compat : Bool) (network : NetworkUtil) :
    NetworkUtil × List Call :=
  if compat then (network, [.doApplyTransfer device.deviceName])
  else
    ({ network with confirmTargetAddress := ip, peerTransTunnel := false },
      [.sendRpcRequest ip .trans
        { flag := ASK_NEEDCONFIRM, nick := device.deviceName, host := device.localIPAddress,
          tunnel := device.hasTunnelManager }])

def sendShareApply (ip : Address) (compat : Bool) (network : NetworkUtil) :
    NetworkUtil × List Call :=
  if compat then
    (network, [.doApplyShare ip (",".intercalate [device.deviceName, device.localIPAddress])])
  else
    ({ network with confirmTargetAddress := ip },
      [.sendRpcRequest ip .share
        { flag := ASK_NEEDCONFIRM, nick := device.deviceName, host := device.localIPAddress,
          fingerprint := network.selfFingerPrint, tunnel := true }])

/-- The address that is passed is not looked at. -/
def doNextCombiRequest (_ip : Address) (compat : Bool) (network : NetworkUtil) :
    NetworkUtil × List Call :=
  match network.nextCombi with
  | none => (network, [])
  | some (.info, comip) => ({ network with nextCombi := none }, reqTargetInfo device comip compat)
  | some (.trans, comip) =>
    let (network, calls) := network.sendTransApply device comip compat
    ({ network with nextCombi := none }, calls)
  | some (.share, comip) =>
    let (network, calls) := network.sendShareApply device comip compat
    ({ network with nextCombi := none }, calls)

/-- What the three kinds of applications do when they are made; `logind` is the result of
`sessionConnect`. -/
def tryApply (type : Apply) (ip : Address) (logind : ℤ) (network : NetworkUtil) :
    NetworkUtil × List Call :=
  let network := { network with nextCombi := some (type, ip) }
  if logind < 0 then (network, [.doTryConnect ip])
  else if logind > 0 then network.doNextCombiRequest device ip false
  else (network, [])

def trySearchDevice (ip : Address) (logind : ℤ) (network : NetworkUtil) :
    NetworkUtil × List Call :=
  network.tryApply device .info ip logind

def tryTransApply (ip : Address) (logind : ℤ) (network : NetworkUtil) :
    NetworkUtil × List Call :=
  network.tryApply device .trans ip logind

def tryShareApply (ip : Address) (selfprint : String) (logind : ℤ) (network : NetworkUtil) :
    NetworkUtil × List Call :=
  { network with selfFingerPrint := selfprint }.tryApply device .share ip logind

/-- `handleAsyncRpcResult` for a login. What is passed on to the old protocol when there
is no answer is the answer. -/
def handleLoginResult (response : String) (network : NetworkUtil) :
    Read (NetworkUtil × List Call) :=
  let json := if response = "" then none else device.parse response
  match json with
  | none => pure (network, [.doTryConnect response])
  | some v => do
    let login ← LoginMessage.fromJson v
    let (network, calls) := network.doNextCombiRequest device login.name false
    return (network, .updateLoginStatus login.name (login.auth ≠ "") :: calls)

/-- `handleAsyncRpcResult` for an application. -/
def handleApplyResult (type : Apply) (response : String) (network : NetworkUtil) :
    Read (List Call) :=
  let json := if response = "" then none else device.parse response
  match type, json with
  | .info, none => pure []
  | .info, some v => do
    let reply ← ApplyMessage.fromJson v
    return [.addSearchDeivce reply.nick]
  | .trans, json =>
    pure [.onConnectStatusChanged (if json.isSome then 1 else 0) network.confirmTargetAddress true]
  | .share, none => pure [.handleConnectResult SHARE_CONNECT_UNABLE]
  | .share, some _ => pure []

/-- The reports of a change of a connection: unreachable or timed out, silent, ended. -/
def handleConnectStatus (result : ℤ) (reason : Address) : List Call :=
  if result = 113 ∨ result = 110 then [.addSearchDeivce ""]
  else if result = EX_NETWORK_PINGOUT then
    [.compatRemoveDeivce reason, .onShareExcepted EX_NETWORK_PINGOUT reason,
      .onTransferExcepted EX_NETWORK_PINGOUT reason]
  else if result = -1 then [.onConnectStatusChanged 0 reason false]
  else []

/-- The report of a login of the old protocol that depends on what waits for it. -/
def compatReport (result : ℤ) (ip : Address) (network : NetworkUtil) : List Call :=
  match network.nextCombi with
  | some (.trans, _) => [.onConnectStatusChanged result ip true]
  | some (.share, _) => if result ≤ 0 then [.handleConnectResult SHARE_CONNECT_UNABLE] else []
  | some (.info, _) => if result ≤ 0 then [.addSearchDeivce ""] else []
  | none => []

def handleCompatConnectResult (result : ℤ) (ip : Address) (network : NetworkUtil) :
    NetworkUtil × List Call :=
  if result > 0 then
    let (next, calls) := network.doNextCombiRequest device ip true
    (next, network.compatReport result ip ++ calls)
  else ({ network with nextCombi := none }, network.compatReport result ip)

end Functions

end NetworkUtil

end DdeCooperation.Cooperation
