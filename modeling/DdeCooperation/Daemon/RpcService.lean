import Mathlib.Data.Fin.Basic

/-!
# Messages of the legacy daemon

A message of a peer is an invocation of `proto_msg` in a thread of its own. It puts the
message into a channel that all invocations share and then reads from a second channel,
which they share as well. Two loops of `HandleRpcService` take messages out of the one
and put their replies into the other. Neither the message nor the reply says to which
invocation it belongs; an invocation looks only at the type of a reply, and reads once
more when the type is not its own.

Both channels have room for ten entries, and reading and writing give up after a while.
An invocation does not ask whether its reading has given up: it goes on with what stands
in its variable, which is nothing in particular the first time.

A loop drops a message that needs authentication as long as no token is stored. The token
is stored by the login of a peer, or of this daemon at a peer.

The invocations are numbered. The channels hold numbers for the messages, and a reply
with the number of the message that it answers, which the program does not see.
-/

namespace DdeCooperation.Daemon

/-- Types of messages; `other` are the values without a name. -/
inductive ChanType where
  | UNKOWN
  | LOGIN_RESULT
  | LOGIN_INFO
  | LOGIN_CONFIRM
  | TRANSJOB
  | FS_ACTION
  | FS_DATA
  | FS_DONE
  | FS_INFO
  | FS_REPORT
  | TRANS_CANCEL
  | TRANS_APPLY
  | MISC
  | RPC_PING
  | TRANS_PAUSE
  | TRANS_RESUME
  | APPLY_SHARE_CONNECT
  | APPLY_SHARE_CONNECT_RES
  | APPLY_SHARE_DISCONNECT
  | SHARE_START
  | SHARE_START_RES
  | SHARE_STOP
  | DISCONNECT_CB
  | DISAPPLY_SHARE_CONNECT
  | SEARCH_DEVICE_BY_IP
  | DISCOVER_BY_TCP
  | other (value : ℤ)
deriving DecidableEq

structure OutData where
  type : ChanType
  json : String
deriving DecidableEq

/-- The fields of a login that are checked. -/
structure UserLoginInfo where
  version : String
  auth : String

def UNIAPI_VERSION : String := "1.0.0"

/-- The JSON library and the decoding of a PIN. -/
structure Surroundings where
  /-- Whether `json::parse` makes something of a text. -/
  parses : String → Bool
  loginInfo : String → UserLoginInfo
  decodeBase64 : String → String

/-- Every text is read, as a login with itself as the code, and decodes to itself. -/
def Surroundings.plain : Surroundings where
  parses _ := true
  loginInfo text := ⟨UNIAPI_VERSION, text⟩
  decodeBase64 text := text

/-- An invocation of `proto_msg`, and the host it comes from. -/
structure Call where
  host : String
  type : ChanType
  json : String

/-- How far an invocation has come. -/
inductive Phase where
  | unmade
  | reading
  /-- The first reading left data of another type. -/
  | retrying
  | finished
deriving DecidableEq

inductive Worker where
  | idle
  /-- The message needs authentication, and there is none. -/
  | refusing (n : ℕ)
  | handling (n : ℕ)
deriving DecidableEq

/-- A response that an invocation has filled in, and the message whose handling produced
it. -/
structure Response where
  call : ℕ
  data : OutData
  source : Option ℕ

structure HandleRpcService where
  pinCode : String := ""
  authedToken : String := ""
  incomeChan : List ℕ := []
  outgoChan : List (OutData × ℕ) := []
  /-- The loops of the two ports. -/
  workers : Fin 2 → Worker := fun _ ↦ .idle
  phases : ℕ → Phase := fun _ ↦ .unmade
  responses : List Response := []
  /-- The hosts that have completed a login, with the PIN they gave. -/
  logins : List (String × String) := []

namespace HandleRpcService

def requiresAuth : ChanType → Bool
  | .LOGIN_INFO | .LOGIN_RESULT | .RPC_PING | .SEARCH_DEVICE_BY_IP | .DISCOVER_BY_TCP => false
  | _ => true

/-- The type of the reply to a message that is handled, if it has one. -/
def replyType : ChanType → Option ChanType
  | .LOGIN_CONFIRM | .LOGIN_RESULT => none
  | .UNKOWN | .FS_ACTION | .FS_DONE | .FS_INFO | .TRANS_PAUSE | .TRANS_RESUME | .other _ =>
    some .UNKOWN
  | type => some type

/-- The channels have room for ten entries; writing to a full one gives up. -/
def write {α : Type} (entry : α) (chan : List α) : List α :=
  if chan.length < 10 then chan ++ [entry] else chan

theorem mem_of_mem_write {α : Type} {entry other : α} {chan : List α}
    (h : other ∈ write entry chan) : other ∈ chan ∨ other = entry := by
  unfold write at h
  split at h
  · exact (List.mem_append.mp h).imp_right List.mem_singleton.mp
  · exact .inl h

def setWorker (w : Fin 2) (worker : Worker) (service : HandleRpcService) : HandleRpcService :=
  { service with workers := Function.update service.workers w worker }

def setPhase (n : ℕ) (phase : Phase) (service : HandleRpcService) : HandleRpcService :=
  { service with phases := Function.update service.phases n phase }

def putReply (reply : OutData) (n : ℕ) (service : HandleRpcService) : HandleRpcService :=
  { service with outgoChan := write (reply, n) service.outgoChan }

inductive Event where
  /-- `proto_msg` has written its message, or given up. -/
  | invoke (n : ℕ)
  /-- A loop takes a message and looks whether it may be handled. -/
  | take (w : Fin 2)
  /-- A loop handles its message: what the reply says, and the token of a login. -/
  | handle (w : Fin 2) (json uuid : String)
  | read (n : ℕ)
  /-- A reading gives up; an invocation that has read nothing yet has data of some type. -/
  | giveUp (n : ℕ) (indeterminate : ChanType)
  /-- `HandleSendResultService::handleLogin`: a login of this daemon has succeeded. -/
  | handleLogin (token : String)
  | setPin (pin : String)

section Machine

variable (env : Surroundings) (calls : ℕ → Call)

def handleRemoteLogin (n : ℕ) (uuid : String) (service : HandleRpcService) : HandleRpcService :=
  let lo := env.loginInfo (calls n).json
  if lo.version ≠ UNIAPI_VERSION then service
  else
    -- without a code, the login would be confirmed by the user, but is not
    let authOK : Bool := lo.auth = "" ∨ service.pinCode = env.decodeBase64 lo.auth
    if authOK then
      { service with
        authedToken := uuid
        logins :=
          if service.pinCode = env.decodeBase64 lo.auth then
            ((calls n).host, service.pinCode) :: service.logins
          else service.logins }
    else service

def take (w : Fin 2) (service : HandleRpcService) : HandleRpcService :=
  match service.workers w, service.incomeChan with
  | .idle, n :: rest =>
    let service := { service with incomeChan := rest }
    if ¬ env.parses (calls n).json then service
    else if requiresAuth (calls n).type ∧ service.authedToken = "" then
      service.setWorker w (.refusing n)
    else service.setWorker w (.handling n)
  | _, _ => service

def handle (w : Fin 2) (json uuid : String) (service : HandleRpcService) : HandleRpcService :=
  match service.workers w with
  | .idle => service
  | .refusing n => (service.setWorker w .idle).putReply ⟨.UNKOWN, ""⟩ n
  | .handling n =>
    let service := service.setWorker w .idle
    let service :=
      if (calls n).type = .LOGIN_INFO then service.handleRemoteLogin env calls n uuid else service
    match replyType (calls n).type with
    | some type => service.putReply ⟨type, json⟩ n
    | none => service

/-- The invocation fills in its response and ends. -/
def respond (n : ℕ) (data : OutData) (source : Option ℕ) (service : HandleRpcService) :
    HandleRpcService :=
  { service.setPhase n .finished with responses := service.responses ++ [⟨n, data, source⟩] }

def read (n : ℕ) (service : HandleRpcService) : HandleRpcService :=
  match service.outgoChan with
  | [] => service
  | (out, source) :: rest =>
    match service.phases n with
    | .reading =>
      let service := { service with outgoChan := rest }
      if (calls n).type = out.type then service.respond n out (some source)
      else service.setPhase n .retrying
    | .retrying =>
      let service := { service with outgoChan := rest }
      if (calls n).type = out.type then service.respond n out (some source)
      else service.setPhase n .finished
    | _ => service

def giveUp (n : ℕ) (indeterminate : ChanType) (service : HandleRpcService) : HandleRpcService :=
  match service.outgoChan, service.phases n with
  | [], .reading =>
    if (calls n).type = indeterminate then service.respond n ⟨indeterminate, ""⟩ none
    else service.setPhase n .retrying
  -- the data of the first reading are still there
  | [], .retrying => service.setPhase n .finished
  | _, _ => service

def step (service : HandleRpcService) : Event → HandleRpcService
  | .invoke n =>
    match service.phases n with
    | .unmade => { service.setPhase n .reading with incomeChan := write n service.incomeChan }
    | _ => service
  | .take w => service.take env calls w
  | .handle w json uuid => service.handle env calls w json uuid
  | .read n => service.read calls n
  | .giveUp n indeterminate => service.giveUp calls n indeterminate
  | .handleLogin token => { service with authedToken := token }
  | .setPin pin => { service with pinCode := pin }

def run (service : HandleRpcService) (events : List Event) : HandleRpcService :=
  events.foldl (step env calls) service

end Machine

end HandleRpcService

end DdeCooperation.Daemon
