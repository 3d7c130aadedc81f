import Mathlib.Data.List.Induction
import DdeCooperation.Session.Routing

/-!
# Over which connection a worker sends

A worker has at most one client connection, to the address that the client was created
for, and the sessions of its server. A message for a target goes over the client when the
client has recorded the target as its host, and otherwise to the session that the server
finds for it. The flags of the client and the host it has recorded are written by the
callbacks of the socket, each in its own time, so a host may be recorded that is no
longer connected, and a connection may be up without a host.

A tunnel message for a target that neither of them knows goes over the client, wherever
the client is connected. The server finds the sessions of an announced address by the
remote address of the announcer, which is that of the router when the announcer is behind
one. So a message stays with its target when the sessions from one remote address are of
one device, and a tunnel message is not left to the fallback.
-/

namespace DdeCooperation.Session

open Foundations List Option

/-! ## The client -/

structure ProtoClient where
  /-- The address that the client was created for, and the remote address of its socket. -/
  address : Address
  /-- `IsConnected()`. -/
  connected : Bool := false
  /-- `IsHandshaked()`. -/
  handshaked : Bool := false
  /-- `_connected_host`. -/
  connectedHost : Address := ""
deriving DecidableEq

namespace ProtoClient

def hasConnected (client : ProtoClient) (ip : Address) : Bool := ip = client.connectedHost

/-- What the socket and the timer do to a client. -/
inductive Event where
  /-- The socket is connected. -/
  | connected
  /-- The TLS handshake is complete. -/
  | secured
  | onHandshaked
  /-- A notification `pong`. -/
  | pong
  /-- Three heartbeats have gone unanswered. -/
  | pingout
  /-- The socket is closed. -/
  | closed
  | onDisconnected

def setConnectedHost (host : Address) (client : ProtoClient) : ProtoClient :=
  { client with connectedHost := host }

def step (client : ProtoClient) : Event → ProtoClient
  | .connected => { client with connected := true }
  | .secured => { client with handshaked := client.connected }
  -- the remote endpoint of a closed socket is an error
  | .onHandshaked | .pong =>
    if client.connected then client.setConnectedHost client.address else client
  | .pingout | .onDisconnected => client.setConnectedHost ""
  | .closed => { client with connected := false, handshaked := false }

/-- The recorded host, if any, is the address of the client, and a client that can send
is connected. -/
structure Settled (client : ProtoClient) : Prop where
  host : client.connectedHost = "" ∨ client.connectedHost = client.address
  secured : client.handshaked = true → client.connected = true

variable {client : ProtoClient}

theorem Settled.step (h : client.Settled) (event : Event) : (client.step event).Settled := by
  cases event with
  | connected => exact ⟨h.host, fun _ ↦ rfl⟩
  | secured => exact ⟨h.host, id⟩
  | onHandshaked | pong =>
    simp only [ProtoClient.step]
    split
    · exact ⟨.inr rfl, h.secured⟩
    · exact h
  | pingout | onDisconnected => exact ⟨.inl rfl, h.secured⟩
  | closed => exact ⟨h.host, nofun⟩

theorem Settled.address_eq (h : client.Settled) {target : Address}
    (htarget : target ≠ "") (hhas : client.hasConnected target = true) :
    client.address = target := by
  have hhost : target = client.connectedHost := of_decide_eq_true hhas
  rcases h.host with hempty | haddress
  · exact absurd (hhost.trans hempty) htarget
  · exact (hhost.trans haddress).symm

end ProtoClient

/-! ## The worker -/

/-- `_client` and `_server` of a worker. A worker that does not listen has a server
without sessions. -/
structure Endpoints where
  client : Option ProtoClient := none
  server : ProtoServer := {}

inductive Connection where
  | client
  | session (id : ℕ)
deriving DecidableEq

namespace Endpoints

inductive Event where
  /-- `connect`, when `_connectedAddress` is the one given. -/
  | connect (address connectedAddress : Address)
  | client (event : ProtoClient.Event)
  | server (event : ProtoServer.Event)

/-- The client that `connect` goes on with. A client for another target is stopped and
replaced. -/
def connect (address connectedAddress : Address) (worker : Endpoints) : Endpoints :=
  match worker.client with
  | none => { worker with client := some { address := address } }
  | some _ =>
    if connectedAddress = address then worker
    else { worker with client := some { address := address } }

def step (worker : Endpoints) : Event → Endpoints
  | .connect address connectedAddress => worker.connect address connectedAddress
  | .client event => { worker with client := worker.client.map fun client ↦ client.step event }
  | .server event => { worker with server := worker.server.step event }

def run (worker : Endpoints) (events : List Event) : Endpoints := events.foldl step worker

/-- `_client && _client->hasConnected(target)`. -/
def clientHas (worker : Endpoints) (target : Address) : Bool :=
  worker.client.any fun client ↦ client.hasConnected target

/-- `ProtoClient::onSend`. -/
def viaClient (worker : Endpoints) : List Connection :=
  if worker.client.any ProtoClient.handshaked then [.client] else []

/-- `ProtoServer::onSend` with the target as the active one. -/
def viaServer (worker : Endpoints) (target : Address) : List Connection :=
  (worker.server.onSend target).map .session

def sendRequest (target : Address) (worker : Endpoints) : List Connection :=
  if worker.clientHas target then worker.viaClient
  else if worker.server.hasConnected target then worker.viaServer target
  else []

/-- The server is tried when the request over the client has failed: it could not be sent,
or the table of requests did not take it. -/
def sendAsyncRequest (taken : Bool) (target : Address) (worker : Endpoints) : List Connection :=
  if target = "" then []
  else
    let first := if worker.clientHas target then worker.viaClient else []
    if first ≠ [] ∧ taken then first
    else first ++ if worker.server.hasConnected target then worker.viaServer target else []

def sendTunnelMessage (target : Address) (worker : Endpoints) : List Connection :=
  if target = "" then []
  else if worker.clientHas target then worker.viaClient
  else if worker.server.hasConnected target then worker.viaServer target
  -- the fallback for an address that is not that of the socket
  else if worker.client.any ProtoClient.connected then worker.viaClient
  else []

inductive Call where
  | sendRequest
  | sendAsyncRequest (taken : Bool)
  | sendTunnelMessage
deriving DecidableEq

/-- The connections over which the message of a call is transmitted. -/
def transmitted (worker : Endpoints) (target : Address) : Call → List Connection
  | .sendRequest => worker.sendRequest target
  | .sendAsyncRequest taken => worker.sendAsyncRequest taken target
  | .sendTunnelMessage => worker.sendTunnelMessage target

/-! ## The peers of the connections -/

def serverEvent : Event → Option ProtoServer.Event
  | .server event => some event
  | _ => none

/-- What the server has been through. -/
def serverEvents (events : List Event) : List ProtoServer.Event := events.filterMap serverEvent

theorem server_run (worker : Endpoints) (events : List Event) :
    (worker.run events).server = worker.server.run (serverEvents events) := by
  induction events generalizing worker with
  | nil => rfl
  | cons event rest ih =>
    change ((worker.step event).run rest).server = _
    rw [ih]
    cases event with
    | connect address connectedAddress =>
      have hserver : (worker.connect address connectedAddress).server = worker.server := by
        unfold connect
        split
        · rfl
        · split <;> rfl
      exact congrArg (fun server : ProtoServer ↦ server.run (serverEvents rest)) hserver
    | client event => rfl
    | server event => rfl

end Endpoints

namespace ProtoServer

section Peers

-- the devices of the sessions, by the number of the session
variable {Device : Type*} (peer : ℕ → Device)

/-- Session `id` has announced the address in the run. -/
def HasAnnounced (events : List Event) (id : ℕ) (realIp : Address) : Prop :=
  ∃ before after, events = before ++ .realIP id realIp :: after ∧
    ((({} : ProtoServer).run before).announced (.realIP id realIp)).isSome = true

/-- A session that is accepted while another from the same remote address is live is of
the same device. -/
def OneDevice (server : ProtoServer) : Event → Prop
  | .connected addr => ∀ id, (addr, id) ∈ server.sessionIds → peer id = peer server.nextId
  | _ => True

/-- No two devices share a remote address at a time. -/
def Unshared : List Event → Prop := Throughout step (OneDevice peer) {}

/-- Live sessions with one remote address are of one device, and this device has announced
the address that is mapped to the remote address. -/
structure Known (events : List Event) (server : ProtoServer) : Prop where
  same : ∀ addr id other, (addr, id) ∈ server.sessionIds → (addr, other) ∈ server.sessionIds →
    peer id = peer other
  announced : ∀ realIp remoteIp id, server.ipMapping.forth.lookup realIp = some remoteIp →
    (remoteIp, id) ∈ server.sessionIds → ∃ first, HasAnnounced events first realIp ∧
      peer first = peer id

end Peers

variable {Device : Type*} {peer : ℕ → Device} {server : ProtoServer} {events : List Event}

variable {id : ℕ} {realIp : Address}

theorem HasAnnounced.append (h : HasAnnounced events id realIp) (more : List Event) :
    HasAnnounced (events ++ more) id realIp := by
  obtain ⟨before, after, rfl, hannounced⟩ := h
  exact ⟨before, after ++ more, by rw [append_assoc, cons_append], hannounced⟩

theorem HasAnnounced.mem (h : HasAnnounced events id realIp) : .realIP id realIp ∈ events := by
  obtain ⟨before, after, rfl, -⟩ := h
  exact mem_append_right _ mem_cons_self

/-- A step that adds no session and no pair of addresses. -/
theorem Known.of_subset (h : server.Known peer events) {next : ProtoServer} {event : Event}
    (hsessions : ∀ entry ∈ next.sessionIds, entry ∈ server.sessionIds)
    (hmapping : ∀ realIp remoteIp, next.ipMapping.forth.lookup realIp = some remoteIp →
      server.ipMapping.forth.lookup realIp = some remoteIp) :
    next.Known peer (events ++ [event]) := by
  refine ⟨fun addr id other hid hother ↦ h.same addr id other (hsessions _ hid) (hsessions _ hother),
    fun realIp remoteIp id hlookup hid ↦ ?_⟩
  obtain ⟨first, hfirst, hpeer⟩ :=
    h.announced realIp remoteIp id (hmapping _ _ hlookup) (hsessions _ hid)
  exact ⟨first, hfirst.append [event], hpeer⟩

variable {addr : Address}

theorem Known.onConnected (h : server.Known peer events) (hconsistent : server.Consistent)
    (hdevice : server.OneDevice peer (.connected addr)) :
    (server.onConnected addr).Known peer (events ++ [.connected addr]) := by
  have hnew : ∀ {other id}, (other, id) ∈ (server.onConnected addr).sessionIds →
      (other, id) ∈ server.sessionIds ∨ other = addr ∧ id = server.nextId := by
    intro other id hmem
    rcases mem_append.mp hmem with hold | hlast
    · exact .inl hold
    · exact .inr (Prod.mk.inj (mem_singleton.mp hlast))
  refine ⟨fun other id second hid hsecond ↦ ?_, fun realIp remoteIp id hlookup hid ↦ ?_⟩
  · rcases hnew hid with hold | ⟨rfl, rfl⟩
    · rcases hnew hsecond with hsecond | ⟨rfl, rfl⟩
      · exact h.same other id second hold hsecond
      · exact hdevice id hold
    · rcases hnew hsecond with hold | ⟨-, rfl⟩
      · exact (hdevice second hold).symm
      · rfl
  · -- the address was announced from the remote address, and a session there is live
    obtain ⟨live, hlive⟩ := hconsistent.live realIp remoteIp hlookup
    obtain ⟨first, hfirst, hpeer⟩ := h.announced realIp remoteIp live hlookup hlive
    refine ⟨first, hfirst.append _, hpeer.trans ?_⟩
    rcases hnew hid with hold | ⟨rfl, rfl⟩
    · exact h.same remoteIp live id hlive hold
    · exact hdevice live hlive

theorem Known.onRealIP (h : (({} : ProtoServer).run events).Known peer events)
    (hconsistent : (({} : ProtoServer).run events).Consistent) (id : ℕ) (realIp : Address) :
    ((({} : ProtoServer).run events).onRealIP id realIp).Known peer
      (events ++ [.realIP id realIp]) := by
  unfold ProtoServer.onRealIP
  cases hremote : (({} : ProtoServer).run events).remoteEndpoint id with
  | none => exact h.of_subset (fun _ hmem ↦ hmem) fun _ _ hlookup ↦ hlookup
  | some remoteIp =>
    dsimp only
    split
    · next hready =>
      have hself : HasAnnounced (events ++ [.realIP id realIp]) id realIp := by
        refine ⟨events, [], rfl, ?_⟩
        simp only [ProtoServer.announced, if_pos hready, hremote, map_some, isSome_some]
      refine ⟨h.same, fun other remote live hlookup hlive ↦ ?_⟩
      unfold handleRealIPMapping at hlookup
      rw [Bimap.lookup_forth_link hconsistent.inverse] at hlookup
      split at hlookup
      · next hother =>
        rw [hother]
        rw [← some.inj hlookup] at hlive
        exact ⟨id, hself, h.same remoteIp id live (mem_of_remoteEndpoint hremote) hlive⟩
      · split at hlookup
        · cases hlookup
        · obtain ⟨first, hfirst, hpeer⟩ := h.announced other remote live hlookup hlive
          exact ⟨first, hfirst.append _, hpeer⟩
    · exact h.of_subset (fun _ hmem ↦ hmem) fun _ _ hlookup ↦ hlookup

theorem Known.onDisconnected (h : server.Known peer events) (hconsistent : server.Consistent)
    (id : ℕ) : (server.onDisconnected id).Known peer (events ++ [.disconnected id]) := by
  apply h.of_subset
  · intro entry hmem
    rw [sessionIds_onDisconnected] at hmem
    exact mem_of_mem_eraseP hmem
  · intro realIp remoteIp hlookup
    rcases ipMapping_onDisconnected id server with ⟨hmapping, -⟩ | ⟨addr, -, -, hmapping⟩
    · rwa [hmapping] at hlookup
    · rw [hmapping, Bimap.lookup_forth_unlink hconsistent.inverse] at hlookup
      split at hlookup
      · cases hlookup
      · exact hlookup

/-- After any run in which no two devices share a remote address. -/
theorem Unshared.known (h : Unshared peer events) :
    (({} : ProtoServer).run events).Known peer events := by
  induction events using reverseRecOn with
  | nil => exact ⟨nofun, by simp [ProtoServer.run, Bimap.empty]⟩
  | append_singleton events event ih =>
    have hknown := ih h.of_append
    have hconsistent := consistent_empty.run events
    have hrun : ({} : ProtoServer).run (events ++ [event]) =
        (({} : ProtoServer).run events).step event := foldl_concat ..
    rw [hrun]
    cases event with
    | connected addr => exact hknown.onConnected hconsistent h.last
    | handshaked id =>
      apply hknown.of_subset
      · exact fun entry hmem ↦ sessionIds_onHandshaked id _ ▸ hmem
      · exact fun realIp remoteIp hlookup ↦ ipMapping_onHandshaked id _ ▸ hlookup
    | realIP id realIp => exact hknown.onRealIP hconsistent id realIp
    | disconnected id => exact hknown.onDisconnected hconsistent id

theorem mem_of_newestFor (h : server.newestFor addr = some id) :
    (addr, id) ∈ server.sessionIds := by
  obtain ⟨entry, hlast, rfl⟩ := map_eq_some_iff.mp h
  obtain ⟨hmem, haddr⟩ := mem_filter.mp (mem_of_getLast? hlast)
  rw [← of_decide_eq_true haddr]
  exact hmem

/-- A session that gets a message for a target has it as its remote address, or has the
remote address that the target is mapped to. -/
theorem mem_onSend {target : Address} (htarget : target ≠ "") (h : id ∈ server.onSend target) :
    (target, id) ∈ server.sessionIds ∨
      ∃ remoteIp, server.ipMapping.forth.lookup target = some remoteIp ∧
        (remoteIp, id) ∈ server.sessionIds := by
  simp only [onSend, if_neg htarget] at h
  have hfound := mem_toList.mp (mem_of_mem_filter h)
  rcases or_eq_some_iff.mp hfound with hdirect | ⟨-, hmapped⟩
  · exact .inl (mem_of_newestFor hdirect)
  · obtain ⟨remoteIp, hlookup, hnewest⟩ := bind_eq_some_iff.mp hmapped
    exact .inr ⟨remoteIp, hlookup, mem_of_newestFor hnewest⟩

end ProtoServer

namespace Endpoints

variable {Device : Type*}

/-- The connection leads to the target: its remote address is the target, or the device at
its other end has announced the target. The other end of the client announces nothing. -/
def Reaches (peer : ℕ → Device) (events : List Event) (target : Address) : Connection → Prop
  | .client =>
    ∃ client, (({} : Endpoints).run events).client = some client ∧ client.address = target
  | .session id =>
    (target, id) ∈ (({} : Endpoints).run events).server.sessionIds ∨
      ∃ first, ProtoServer.HasAnnounced (serverEvents events) first target ∧ peer first = peer id

variable {peer : ℕ → Device} {events : List Event} {worker : Endpoints} {target : Address}

theorem settled_step (h : ∀ client ∈ worker.client, client.Settled) (event : Event) :
    ∀ client ∈ (worker.step event).client, client.Settled := by
  have hnew : ∀ address, ({ address := address } : ProtoClient).Settled :=
    fun address ↦ ⟨.inl rfl, nofun⟩
  intro client hclient
  cases event with
  | connect address connectedAddress =>
    simp only [step, connect] at hclient
    split at hclient
    · rw [← some.inj hclient]
      exact hnew address
    · split at hclient
      · exact h client hclient
      · rw [← some.inj hclient]
        exact hnew address
  | client event =>
    obtain ⟨old, hold, rfl⟩ := map_eq_some_iff.mp hclient
    exact (h old hold).step event
  | server event => exact h client hclient

theorem settled_run : ∀ client ∈ (({} : Endpoints).run events).client, client.Settled :=
  foldlRecOn (motive := fun worker : Endpoints ↦ ∀ client ∈ worker.client, client.Settled)
    _ _ nofun fun _ h event _ ↦ settled_step h event

variable {connection : Connection}

/-- What the server sends stays with the target. -/
theorem reaches_of_mem_viaServer (hunshared : ProtoServer.Unshared peer (serverEvents events))
    (htarget : target ≠ "") (h : connection ∈ (({} : Endpoints).run events).viaServer target) :
    Reaches peer events target connection := by
  obtain ⟨id, hid, rfl⟩ := mem_map.mp h
  rcases ProtoServer.mem_onSend htarget hid with hdirect | ⟨remoteIp, hlookup, hmem⟩
  · exact .inl hdirect
  · rw [server_run] at hlookup hmem
    exact .inr (hunshared.known.announced target remoteIp id hlookup hmem)

theorem mem_viaClient (h : connection ∈ worker.viaClient) :
    connection = .client ∧ ∃ client, worker.client = some client ∧ client.handshaked = true := by
  unfold viaClient at h
  split at h
  · next hready => exact ⟨mem_singleton.mp h, (any_eq_true _ _).mp hready⟩
  · cases h

/-- What goes over the client because it has recorded the target stays with the target. -/
theorem reaches_of_clientHas (htarget : target ≠ "")
    (hhas : (({} : Endpoints).run events).clientHas target = true) :
    Reaches peer events target .client := by
  obtain ⟨client, hclient, hhost⟩ := (any_eq_true _ _).mp hhas
  exact ⟨client, hclient, (settled_run client hclient).address_eq htarget hhost⟩

theorem reaches_of_mem_viaClient (htarget : target ≠ "")
    (hhas : (({} : Endpoints).run events).clientHas target = true)
    (h : connection ∈ (({} : Endpoints).run events).viaClient) :
    Reaches peer events target connection := by
  rw [(mem_viaClient h).1]
  exact reaches_of_clientHas htarget hhas

/-- A tunnel message for the target is not left to a client that is connected elsewhere. -/
def Spared (worker : Endpoints) (target : Address) : Prop :=
  worker.server.hasConnected target = true ∨
    ∀ client ∈ worker.client, client.handshaked = true → client.address = target

theorem sendTunnelMessage_iff (hunshared : ProtoServer.Unshared peer (serverEvents events))
    (htarget : target ≠ "") :
    (∀ connection ∈ (({} : Endpoints).run events).sendTunnelMessage target,
      Reaches peer events target connection) ↔ (({} : Endpoints).run events).Spared target := by
  simp only [sendTunnelMessage, if_neg htarget]
  split
  · next hhas =>
    refine iff_of_true (fun _ ↦ reaches_of_mem_viaClient htarget hhas) (.inr ?_)
    intro client hclient _
    have hreaches : Reaches peer events target .client := reaches_of_clientHas htarget hhas
    obtain ⟨other, hother, haddress⟩ := hreaches
    rw [some.inj (hclient.symm.trans hother)]
    exact haddress
  · split
    · next hserver =>
      exact iff_of_true (fun _ ↦ reaches_of_mem_viaServer hunshared htarget) (.inl hserver)
    · next hserver =>
      rw [Spared, or_iff_right hserver]
      constructor
      · intro hall client hclient hready
        have hconnected : (({} : Endpoints).run events).client.any ProtoClient.connected = true :=
          (any_eq_true _ _).mpr ⟨client, hclient, (settled_run client hclient).secured hready⟩
        have hvia : (({} : Endpoints).run events).viaClient = [.client] :=
          if_pos ((any_eq_true _ _).mpr ⟨client, hclient, hready⟩)
        rw [if_pos hconnected, hvia] at hall
        obtain ⟨other, hother, haddress⟩ := hall .client mem_cons_self
        rw [some.inj (hclient.symm.trans hother)]
        exact haddress
      · intro hspared connection hmem
        split at hmem
        · obtain ⟨rfl, client, hclient, hready⟩ := mem_viaClient hmem
          exact ⟨client, hclient, hspared client hclient hready⟩
        · cases hmem

/-- In every state that a worker can be in without having had sessions of two devices from
one remote address at a time: a request is transmitted only over connections that lead to
its target, and a tunnel message is if and only if the server knows the target or the
client, if it can send, is connected to the target. -/
theorem transmitted_reaches_iff (hunshared : ProtoServer.Unshared peer (serverEvents events))
    (call : Call) (htarget : call = .sendRequest → target ≠ "") :
    (∀ connection ∈ (({} : Endpoints).run events).transmitted target call,
      Reaches peer events target connection) ↔
    (call = .sendTunnelMessage → target ≠ "" → (({} : Endpoints).run events).Spared target) := by
  cases call with
  | sendRequest =>
    refine iff_of_true (fun connection hmem ↦ ?_) nofun
    have htarget := htarget rfl
    simp only [transmitted, sendRequest] at hmem
    split at hmem
    · next hhas => exact reaches_of_mem_viaClient htarget hhas hmem
    · split at hmem
      · exact reaches_of_mem_viaServer hunshared htarget hmem
      · cases hmem
  | sendAsyncRequest taken =>
    refine iff_of_true (fun connection hmem ↦ ?_) nofun
    simp only [transmitted, sendAsyncRequest] at hmem
    by_cases hempty : target = ""
    · rw [if_pos hempty] at hmem
      cases hmem
    · rw [if_neg hempty] at hmem
      -- the attempts are over the client and over the server
      have hfirst : ∀ connection ∈ (if (({} : Endpoints).run events).clientHas target then
          (({} : Endpoints).run events).viaClient else []),
          Reaches peer events target connection := by
        split
        · next hhas => exact fun _ ↦ reaches_of_mem_viaClient hempty hhas
        · exact nofun
      generalize (if (({} : Endpoints).run events).clientHas target then
        (({} : Endpoints).run events).viaClient else []) = first at hfirst hmem
      split at hmem
      · exact hfirst connection hmem
      · rcases mem_append.mp hmem with hclient | hserver
        · exact hfirst connection hclient
        · split at hserver
          · exact reaches_of_mem_viaServer hunshared hempty hserver
          · cases hserver
  | sendTunnelMessage =>
    by_cases hempty : target = ""
    · refine iff_of_true (fun connection hmem ↦ ?_) (fun _ hne ↦ absurd hempty hne)
      rw [transmitted, sendTunnelMessage, if_pos hempty] at hmem
      cases hmem
    · have hiff := sendTunnelMessage_iff hunshared hempty
      rw [forall_prop_of_true rfl, forall_prop_of_true hempty]
      exact hiff

/-- A client connected to one device and a session of another. -/
theorem transmitted_reaches_iff_client :
    (∀ connection ∈ (({} : Endpoints).run
        [.connect "10.0.0.2" "", .client .connected, .client .secured, .client .onHandshaked,
          .server (.connected "10.0.0.3"), .server (.handshaked 0)]).transmitted "10.0.0.2"
            .sendTunnelMessage,
      Reaches (id : ℕ → ℕ) [.connect "10.0.0.2" "", .client .connected, .client .secured,
        .client .onHandshaked, .server (.connected "10.0.0.3"), .server (.handshaked 0)]
        "10.0.0.2" connection) ∧
    (({} : Endpoints).run [.connect "10.0.0.2" "", .client .connected, .client .secured,
      .client .onHandshaked, .server (.connected "10.0.0.3"), .server (.handshaked 0)]).transmitted
        "10.0.0.2" .sendTunnelMessage = [.client] := by
  have hunshared : ProtoServer.Unshared (id : ℕ → ℕ) [.connected "10.0.0.3", .handshaked 0] :=
    ⟨nofun, trivial, trivial⟩
  refine ⟨(transmitted_reaches_iff hunshared .sendTunnelMessage nofun).mpr
    fun _ _ ↦ .inr ?_, by decide⟩
  intro client hclient _
  rw [← some.inj hclient]
  rfl

/-- A tunnel message for one device goes to another, to which the client is connected. A
request for a device behind a router goes to another device behind it, which has announced
nothing. And a request for no target goes to every session when a device has announced an
empty address. -/
theorem not_transmitted_reaches :
    (¬ ∀ connection ∈ (({} : Endpoints).run [.connect "10.0.0.2" "", .client .connected,
          .client .secured, .client .onHandshaked]).transmitted "10.0.0.9" .sendTunnelMessage,
      Reaches (id : ℕ → ℕ) [.connect "10.0.0.2" "", .client .connected, .client .secured,
        .client .onHandshaked] "10.0.0.9" connection) ∧
    (¬ ∀ connection ∈ (({} : Endpoints).run [.server (.connected "192.168.56.1"),
          .server (.handshaked 0), .server (.realIP 0 "10.8.12.138"),
          .server (.connected "192.168.56.1"), .server (.handshaked 1)]).transmitted
            "10.8.12.138" .sendRequest,
      Reaches (id : ℕ → ℕ) [.server (.connected "192.168.56.1"), .server (.handshaked 0),
        .server (.realIP 0 "10.8.12.138"), .server (.connected "192.168.56.1"),
        .server (.handshaked 1)] "10.8.12.138" connection) ∧
    ¬ ∀ connection ∈ (({} : Endpoints).run [.server (.connected "10.0.0.2"),
          .server (.handshaked 0), .server (.connected "10.0.0.3"), .server (.handshaked 1),
          .server (.realIP 1 "")]).transmitted "" .sendRequest,
      Reaches (id : ℕ → ℕ) [.server (.connected "10.0.0.2"), .server (.handshaked 0),
        .server (.connected "10.0.0.3"), .server (.handshaked 1), .server (.realIP 1 "")]
        "" connection := by
  refine ⟨fun h ↦ ?_, fun h ↦ ?_, fun h ↦ ?_⟩
  · obtain ⟨client, hclient, haddress⟩ := h .client (by decide)
    rw [← some.inj hclient] at haddress
    revert haddress
    decide
  · rcases h (.session 1) (by decide) with hdirect | ⟨first, hannounced, hpeer⟩
    · revert hdirect
      decide
    · have hmem := hannounced.mem
      rw [id, id] at hpeer
      simp [serverEvents, serverEvent, hpeer] at hmem
  · rcases h (.session 0) (by decide) with hdirect | ⟨first, hannounced, hpeer⟩
    · revert hdirect
      decide
    · have hmem := hannounced.mem
      rw [id, id] at hpeer
      simp [serverEvents, serverEvent, hpeer] at hmem

end Endpoints

end DdeCooperation.Session
