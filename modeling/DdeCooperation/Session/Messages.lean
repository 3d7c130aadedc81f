import DdeCooperation.Picojson.Value

/-!
# Session messages

The records that are exchanged as JSON text, each with the way it is read from a value
and written to one. Reading throws where an accessor does; a field that an older peer
leaves out keeps its default.
-/

namespace DdeCooperation.Session

open Picojson

/-- `proto::OriginMessage`. -/
structure OriginMessage where
  id : ℕ
  mask : ℤ
  jsonMsg : String

def REQ_LOGIN : ℤ := 1000
def REQ_FREE_SPACE : ℤ := 1001
def REQ_TRANS_DATAS : ℤ := 1002
def REQ_TRANS_CANCLE : ℤ := 1003
def CAST_INFO : ℤ := 1004
def INFO_TRANS_COUNT : ℤ := 1005

structure LoginMessage where
  name : String
  auth : String

def LoginMessage.fromJson (x : Value) : Read LoginMessage := do
  let name ← x.get "name"
  let auth ← x.get "auth"
  return ⟨name.toStr, auth.toStr⟩

def LoginMessage.asJson (message : LoginMessage) : Value :=
  .object [("name", .string message.name), ("auth", .string message.auth)]

structure FreeSpaceMessage where
  total : ℤ
  free : ℤ

def FreeSpaceMessage.fromJson (x : Value) : Read FreeSpaceMessage := do
  let total ← (← x.get "total").getInt64
  let free ← (← x.get "free").getInt64
  return ⟨total, free⟩

def FreeSpaceMessage.asJson (message : FreeSpaceMessage) : Value :=
  .object [("total", .int64 message.total), ("free", .int64 message.free)]

structure TransDataMessage where
  id : String
  names : List String
  endpoint : String
  flag : Bool
  size : ℤ
  tunnel : Bool
  service : String

def TransDataMessage.fromJson (x : Value) : Read TransDataMessage := do
  let id ← x.get "id"
  let endpoint ← x.get "token"
  let flag ← (← x.get "flag").getBool
  let size ← (← x.get "size").getInt64
  -- older peers omit these two; a value of another type leaves the default as well
  let tunnel ← x.get "tunnel"
  let service := match ← x.get "service" with
    | .string value => value
    | _ => ""
  let names ← x.get "names"
  return ⟨id.toStr, names.asStrings, endpoint.toStr, flag, size, tunnel.asFlag, service⟩

def TransDataMessage.asJson (message : TransDataMessage) : Value :=
  .object [("id", .string message.id), ("token", .string message.endpoint),
    ("flag", .boolean message.flag), ("size", .int64 message.size),
    ("tunnel", .boolean message.tunnel), ("service", .string message.service),
    ("names", .array (message.names.map .string))]

structure TransCancelMessage where
  id : String
  name : String
  reason : String

def TransCancelMessage.fromJson (x : Value) : Read TransCancelMessage := do
  let id ← x.get "id"
  let name ← x.get "name"
  let reason ← x.get "reason"
  return ⟨id.toStr, name.toStr, reason.toStr⟩

def TransCancelMessage.asJson (message : TransCancelMessage) : Value :=
  .object [("id", .string message.id), ("name", .string message.name),
    ("reason", .string message.reason)]

structure ApplyMessage where
  flag : ℤ := 0
  nick : String := ""
  host : String := ""
  port : ℤ := 0
  fingerprint : String := ""
  tunnel : Bool := false

def ApplyMessage.fromJson (x : Value) : Read ApplyMessage := do
  let flag ← (← x.get "flag").getInt64
  let nick ← x.get "nick"
  let host ← x.get "selfIp"
  let port ← (← x.get "selfPort").getInt64
  let fingerprint ← if ← x.contains "fingerprint" then Value.toStr <$> x.get "fingerprint" else pure ""
  let tunnel ← x.get "tunnel"
  return ⟨flag, nick.toStr, host.toStr, port, fingerprint, tunnel.asFlag⟩

def ASK_NEEDCONFIRM : ℤ := 10
def ASK_QUIET : ℤ := 12

end DdeCooperation.Session
