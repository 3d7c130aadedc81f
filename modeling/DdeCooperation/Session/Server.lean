import DdeCooperation.Foundations.Bimap

/-!
# The session server

`ProtoServer` keeps the remote address of every live session and, for clients behind
a router, the correspondence between the address a client announces and the remote
address its session has. The events are those of its sessions: a session is accepted,
completes its handshake, announces an address, or ends.

A session is numbered when it is accepted, so that ids are unique and grow, as the ids
of the source do. An announcement is handled only while its session is open: the remote
address is read from the open socket.
-/

namespace DdeCooperation.Session

open Foundations List

abbrev Address := String

structure ProtoServer where
  /-- `_session_ids` in order of insertion, which the multimap keeps for equal keys. -/
  sessionIds : List (Address × ℕ) := []
  /-- `_real_to_remote_ip` and `_remote_to_real_ip`. -/
  ipMapping : Bimap Address Address := Bimap.empty
  /-- Sessions that have completed the TLS handshake. -/
  handshaked : List ℕ := []
  nextId : ℕ := 0

namespace ProtoServer

/-- `socket().remote_endpoint()` of an open session. -/
def remoteEndpoint (server : ProtoServer) (id : ℕ) : Option Address :=
  (server.sessionIds.find? fun entry ↦ entry.2 = id).map Prod.fst

/-- `_session_ids.find(addr) != _session_ids.end()`. -/
def hasSession (server : ProtoServer) (addr : Address) : Bool :=
  server.sessionIds.any fun entry ↦ entry.1 = addr

def hasConnected (server : ProtoServer) (ip : Address) : Bool :=
  server.hasSession ip ||
    match server.ipMapping.forth.lookup ip with
    | some remote => server.hasSession remote
    | none => false

def handleRealIPMapping (realIp remoteIp : Address) (server : ProtoServer) : ProtoServer :=
  { server with ipMapping := server.ipMapping.link realIp remoteIp }

def onConnected (addr : Address) (server : ProtoServer) : ProtoServer :=
  { server with
    sessionIds := server.sessionIds ++ [(addr, server.nextId)], nextId := server.nextId + 1 }

def onHandshaked (id : ℕ) (server : ProtoServer) : ProtoServer :=
  match server.remoteEndpoint id with
  | some _ => { server with handshaked := id :: server.handshaked }
  | none => server

/-- A notification `real_ip:<address>` of a session. -/
def onRealIP (id : ℕ) (realIp : Address) (server : ProtoServer) : ProtoServer :=
  match server.remoteEndpoint id with
  | some remoteIp =>
    if id ∈ server.handshaked then server.handleRealIPMapping realIp remoteIp else server
  | none => server

/-- The addresses of a session are forgotten when no newer session has its remote
address. -/
def onDisconnected (id : ℕ) (server : ProtoServer) : ProtoServer :=
  match server.remoteEndpoint id with
  | none => server
  | some addr =>
    let server := { server with
      sessionIds := server.sessionIds.eraseP fun entry ↦ entry.2 = id
      handshaked := server.handshaked.filter (· ≠ id) }
    if server.hasSession addr then server
    else { server with ipMapping := server.ipMapping.unlink addr }

/-- The last session of an address in the multimap. -/
def newestFor (server : ProtoServer) (addr : Address) : Option ℕ :=
  ((server.sessionIds.filter fun entry ↦ entry.1 = addr).getLast?).map Prod.snd

/-- The sessions on which a message is sent, for the active target. -/
def onSend (server : ProtoServer) (activeTarget : Address) : List ℕ :=
  if activeTarget = "" then (server.sessionIds.map Prod.snd).filter (· ∈ server.handshaked)
  else
    let found := (server.newestFor activeTarget).or
      ((server.ipMapping.forth.lookup activeTarget).bind server.newestFor)
    found.toList.filter (· ∈ server.handshaked)

inductive Event where
  | connected (addr : Address)
  | handshaked (id : ℕ)
  | realIP (id : ℕ) (realIp : Address)
  | disconnected (id : ℕ)

def step (server : ProtoServer) : Event → ProtoServer
  | .connected addr => server.onConnected addr
  | .handshaked id => server.onHandshaked id
  | .realIP id realIp => server.onRealIP id realIp
  | .disconnected id => server.onDisconnected id

def run (server : ProtoServer) (events : List Event) : ProtoServer := events.foldl step server

/-! ## Sessions -/

variable {server : ProtoServer} {addr : Address}

theorem hasSession_iff : server.hasSession addr = true ↔ ∃ id, (addr, id) ∈ server.sessionIds := by
  unfold hasSession
  rw [any_eq_true]
  constructor
  · rintro ⟨⟨other, id⟩, hmem, heq⟩
    rw [← of_decide_eq_true heq]
    exact ⟨id, hmem⟩
  · rintro ⟨id, hmem⟩
    exact ⟨(addr, id), hmem, decide_eq_true rfl⟩

variable {id : ℕ}

theorem mem_of_remoteEndpoint (h : server.remoteEndpoint id = some addr) :
    (addr, id) ∈ server.sessionIds := by
  obtain ⟨⟨other, number⟩, hfind, rfl⟩ := Option.map_eq_some_iff.mp h
  have hid : number = id := by simpa using find?_some hfind
  rw [← hid]
  exact mem_of_find?_eq_some hfind

/-- An event that keeps the table of sessions does not change who is live. -/
theorem sessionIds_onHandshaked (id : ℕ) (server : ProtoServer) :
    (server.onHandshaked id).sessionIds = server.sessionIds := by
  unfold onHandshaked
  split <;> rfl

theorem sessionIds_onRealIP (id : ℕ) (realIp : Address) (server : ProtoServer) :
    (server.onRealIP id realIp).sessionIds = server.sessionIds := by
  unfold onRealIP
  split
  · split <;> rfl
  · rfl

theorem sessionIds_onDisconnected (id : ℕ) (server : ProtoServer) :
    (server.onDisconnected id).sessionIds = server.sessionIds.eraseP fun entry ↦ entry.2 = id := by
  unfold onDisconnected
  cases hfind : server.remoteEndpoint id with
  | none =>
    have hnone : ∀ entry ∈ server.sessionIds, ¬ decide (entry.2 = id) = true := by
      rw [remoteEndpoint, Option.map_eq_none_iff, find?_eq_none] at hfind
      exact hfind
    exact (eraseP_of_forall_not hnone).symm
  | some addr =>
    dsimp only
    split <;> rfl

theorem mem_eraseP_of_find? {α : Type*} {p : α → Bool} {l : List α} {a x : α} (hmem : x ∈ l)
    (hfind : l.find? p = some a) (hne : x ≠ a) : x ∈ l.eraseP p := by
  obtain ⟨hp, front, back, rfl, hfront⟩ := find?_eq_some_iff_append.mp hfind
  rw [eraseP_append_right _ (by simpa using hfront), eraseP_cons_of_pos hp]
  simpa [hne] using hmem

/-- A session with another remote address than the one that ends stays in the table. -/
theorem mem_onDisconnected (hremote : server.remoteEndpoint id = some addr) {entry : Address × ℕ}
    (hmem : entry ∈ server.sessionIds) (hne : entry.1 ≠ addr) :
    entry ∈ (server.onDisconnected id).sessionIds := by
  obtain ⟨found, hfind, hfound⟩ := Option.map_eq_some_iff.mp hremote
  rw [sessionIds_onDisconnected]
  apply mem_eraseP_of_find? hmem hfind
  intro heq
  exact hne (heq ▸ hfound)

/-- What the end of a session does to the addresses. -/
theorem ipMapping_onDisconnected (id : ℕ) (server : ProtoServer) :
    (server.onDisconnected id).ipMapping = server.ipMapping ∧
        (∀ addr, server.remoteEndpoint id = some addr →
          (server.onDisconnected id).hasSession addr = true) ∨
      ∃ addr, server.remoteEndpoint id = some addr ∧
        (server.onDisconnected id).hasSession addr = false ∧
        (server.onDisconnected id).ipMapping = server.ipMapping.unlink addr := by
  unfold onDisconnected
  cases hremote : server.remoteEndpoint id with
  | none => exact .inl ⟨rfl, nofun⟩
  | some addr =>
    dsimp only
    split
    · next hsession =>
      refine .inl ⟨rfl, fun other hother ↦ ?_⟩
      rw [← Option.some.inj hother]
      exact hsession
    · next hsession => exact .inr ⟨addr, rfl, Bool.eq_false_iff.mpr hsession, rfl⟩

/-! ## The maps of addresses -/

/-- The two maps are inverses, and every remote address in them has a live session. -/
structure Consistent (server : ProtoServer) : Prop where
  inverse : server.ipMapping.Inverse
  live : ∀ realIp remoteIp, server.ipMapping.forth.lookup realIp = some remoteIp →
    ∃ id, (remoteIp, id) ∈ server.sessionIds

theorem Consistent.onConnected (h : server.Consistent) (addr : Address) :
    (server.onConnected addr).Consistent := by
  refine ⟨h.inverse, fun realIp remoteIp hlookup ↦ ?_⟩
  obtain ⟨id, hmem⟩ := h.live realIp remoteIp hlookup
  exact ⟨id, mem_append_left _ hmem⟩

theorem Consistent.onHandshaked (h : server.Consistent) (id : ℕ) :
    (server.onHandshaked id).Consistent := by
  unfold ProtoServer.onHandshaked
  split
  · exact ⟨h.inverse, h.live⟩
  · exact h

theorem Consistent.onRealIP (h : server.Consistent) (id : ℕ) (realIp : Address) :
    (server.onRealIP id realIp).Consistent := by
  unfold ProtoServer.onRealIP
  split
  · next remoteIp hremote =>
    split
    · refine ⟨h.inverse.link realIp remoteIp, fun other remote hlookup ↦ ?_⟩
      unfold handleRealIPMapping at hlookup
      rw [Bimap.lookup_forth_link h.inverse] at hlookup
      split at hlookup
      · rw [← Option.some.inj hlookup]
        exact ⟨id, mem_of_remoteEndpoint hremote⟩
      · split at hlookup
        · cases hlookup
        · exact h.live other remote hlookup
    · exact h
  · exact h

theorem Consistent.onDisconnected (h : server.Consistent) (id : ℕ) :
    (server.onDisconnected id).Consistent := by
  rcases ipMapping_onDisconnected id server with ⟨hmapping, hsession⟩ | ⟨addr, hremote, -, hmapping⟩
  · refine ⟨hmapping ▸ h.inverse, fun realIp remoteIp hlookup ↦ ?_⟩
    rw [hmapping] at hlookup
    obtain ⟨other, hmem⟩ := h.live realIp remoteIp hlookup
    cases hremote : server.remoteEndpoint id with
    | none =>
      simp only [ProtoServer.onDisconnected, hremote]
      exact ⟨other, hmem⟩
    | some addr =>
      by_cases hne : remoteIp = addr
      · rw [hne]
        exact hasSession_iff.mp (hsession addr hremote)
      · exact ⟨other, mem_onDisconnected hremote hmem hne⟩
  · refine ⟨hmapping ▸ h.inverse.unlink addr, fun realIp remoteIp hlookup ↦ ?_⟩
    rw [hmapping, Bimap.lookup_forth_unlink h.inverse] at hlookup
    split at hlookup
    · cases hlookup
    · next hne =>
      obtain ⟨other, hmem⟩ := h.live realIp remoteIp hlookup
      refine ⟨other, mem_onDisconnected hremote hmem ?_⟩
      rintro rfl
      exact hne hlookup

theorem Consistent.step (h : server.Consistent) (event : Event) :
    (server.step event).Consistent := by
  cases event with
  | connected addr => exact h.onConnected addr
  | handshaked id => exact h.onHandshaked id
  | realIP id realIp => exact h.onRealIP id realIp
  | disconnected id => exact h.onDisconnected id

theorem consistent_empty : ({} : ProtoServer).Consistent :=
  ⟨Bimap.inverse_empty, by simp [Bimap.empty]⟩

theorem Consistent.run (h : server.Consistent) (events : List Event) :
    (server.run events).Consistent :=
  foldlRecOn _ _ h fun _ hserver event _ ↦ hserver.step event

/-- Whatever sessions come, announce and end, the two maps of addresses are inverses on
their domains and map live remote addresses only. -/
theorem ipMapping_consistent (events : List Event) :
    let server := ({} : ProtoServer).run events
    (∀ realIp remoteIp, server.ipMapping.forth.lookup realIp = some remoteIp ↔
      server.ipMapping.back.lookup remoteIp = some realIp) ∧
    ∀ remoteIp realIp, server.ipMapping.back.lookup remoteIp = some realIp →
      ∃ id, (remoteIp, id) ∈ server.sessionIds := by
  have h := consistent_empty.run events
  refine ⟨h.inverse, fun remoteIp realIp hlookup ↦ ?_⟩
  exact h.live realIp remoteIp ((h.inverse realIp remoteIp).mpr hlookup)

end ProtoServer

end DdeCooperation.Session
