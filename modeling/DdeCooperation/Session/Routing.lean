import DdeCooperation.Foundations.Runs
import DdeCooperation.Session.Server

/-!
# Where the session server sends

A target is the remote address of a session, or an address that a client announced and
that is mapped to one. The multimap keeps the sessions of one address in the order in
which they were accepted, so the last of them is the newest. An announcement stays in
force while its session lives and until the announced address or the remote address is
given another partner.
-/

namespace DdeCooperation.Session

open Foundations List Option

variable {server : ProtoServer} {id : ℕ} {realIp remoteIp target : Address}

namespace ProtoServer

/-- The pair of addresses that an event maps to each other. -/
def announced (server : ProtoServer) : Event → Option (Address × Address)
  | .realIP id realIp =>
    if id ∈ server.handshaked then (server.remoteEndpoint id).map fun remoteIp ↦ (realIp, remoteIp)
    else none
  | _ => none

/-- No announcement of the run gives one of the two addresses another partner. -/
def Undisturbed (realIp remoteIp : Address) : ProtoServer → List Event → Prop :=
  Throughout step fun server event ↦
    ∀ pair, server.announced event = some pair → (pair.1 = realIp ↔ pair.2 = remoteIp)

/-- Session `id`, with the given remote address, announced `realIp` in the run, and the
two addresses have been left to each other since. -/
def Announced (events : List Event) (id : ℕ) (realIp remoteIp : Address) : Prop :=
  ∃ before after, events = before ++ .realIP id realIp :: after ∧
    (({} : ProtoServer).run before).announced (.realIP id realIp) = some (realIp, remoteIp) ∧
    Undisturbed realIp remoteIp ((({} : ProtoServer).run before).step (.realIP id realIp)) after

/-- The live session of an address that was accepted last. -/
def IsNewest (server : ProtoServer) (addr : Address) (id : ℕ) : Prop :=
  (addr, id) ∈ server.sessionIds ∧ ∀ other, (addr, other) ∈ server.sessionIds → other ≤ id

/-! ## The order of the sessions -/

/-- Sessions stand in the order of their ids, all of which have been given out. -/
structure Numbered (server : ProtoServer) : Prop where
  ascending : server.sessionIds.Pairwise fun first second ↦ first.2 < second.2
  below : ∀ entry ∈ server.sessionIds, entry.2 < server.nextId

theorem nextId_step (event : Event) : server.nextId ≤ (server.step event).nextId := by
  cases event with
  | connected addr => exact Nat.le_succ _
  | handshaked id =>
    simp only [step, onHandshaked]
    split <;> exact le_rfl
  | realIP id realIp =>
    simp only [step, onRealIP]
    split
    · split <;> exact le_rfl
    · exact le_rfl
  | disconnected id =>
    simp only [step, onDisconnected]
    split
    · exact le_rfl
    · split <;> exact le_rfl

variable {event : Event} {entry : Address × ℕ}

/-- A step adds at most the session that is numbered next. -/
theorem mem_sessionIds_step (hmem : entry ∈ (server.step event).sessionIds) :
    entry ∈ server.sessionIds ∨ entry.2 = server.nextId ∧ entry.2 < (server.step event).nextId := by
  cases event with
  | connected addr =>
    rcases mem_append.mp hmem with hold | hnew
    · exact .inl hold
    · rw [mem_singleton.mp hnew]
      exact .inr ⟨rfl, Nat.lt_succ_self _⟩
  | handshaked id => exact .inl (sessionIds_onHandshaked id server ▸ hmem)
  | realIP id realIp => exact .inl (sessionIds_onRealIP id realIp server ▸ hmem)
  | disconnected id =>
    have herase : entry ∈ server.sessionIds.eraseP fun entry ↦ entry.2 = id :=
      sessionIds_onDisconnected id server ▸ hmem
    exact .inl (mem_of_mem_eraseP herase)

theorem Numbered.step (h : server.Numbered) (event : Event) : (server.step event).Numbered := by
  refine ⟨?_, fun entry hmem ↦ ?_⟩
  · cases event with
    | connected addr =>
      apply pairwise_append.mpr
      refine ⟨h.ascending, pairwise_singleton _ _, fun entry hentry other hother ↦ ?_⟩
      rw [mem_singleton.mp hother]
      exact h.below entry hentry
    | handshaked id => exact (sessionIds_onHandshaked id server).symm ▸ h.ascending
    | realIP id realIp => exact (sessionIds_onRealIP id realIp server).symm ▸ h.ascending
    | disconnected id =>
      have hsub := eraseP_sublist (p := fun entry : Address × ℕ ↦ entry.2 = id)
        (l := server.sessionIds)
      exact (sessionIds_onDisconnected id server).symm ▸ h.ascending.sublist hsub
  · rcases mem_sessionIds_step hmem with hold | ⟨-, hlt⟩
    · exact lt_of_lt_of_le (h.below entry hold) (nextId_step event)
    · exact hlt

theorem numbered_empty : ({} : ProtoServer).Numbered := ⟨List.Pairwise.nil, nofun⟩

theorem Numbered.run (h : server.Numbered) (events : List Event) : (server.run events).Numbered :=
  foldlRecOn _ _ h fun _ hserver event _ ↦ hserver.step event

variable {events : List Event}

/-- A session that has ended does not come back. -/
theorem mem_sessionIds_of_run
    (hid : entry.2 < server.nextId) (hmem : entry ∈ (server.run events).sessionIds) :
    entry ∈ server.sessionIds := by
  induction events generalizing server with
  | nil => exact hmem
  | cons event rest ih =>
    have hnext := lt_of_lt_of_le hid (nextId_step event)
    rcases mem_sessionIds_step (ih hnext hmem) with hold | ⟨heq, -⟩
    · exact hold
    · exact absurd heq (ne_of_lt hid)

/-- The session that ends is gone: no other has its id. -/
theorem Numbered.not_mem_onDisconnected (h : server.Numbered) (addr : Address) (id : ℕ) :
    (addr, id) ∉ (server.onDisconnected id).sessionIds := by
  intro hmem
  rw [sessionIds_onDisconnected] at hmem
  obtain ⟨found, first, last, hfirst, hfound, hsplit, herase⟩ :=
    exists_of_eraseP (p := fun entry : Address × ℕ ↦ entry.2 = id)
      (mem_of_mem_eraseP hmem) (decide_eq_true rfl)
  have hid : found.2 = id := of_decide_eq_true hfound
  rw [herase, mem_append] at hmem
  rcases hmem with hbefore | hafter
  · exact hfirst _ hbefore (decide_eq_true rfl)
  · have hsorted := (pairwise_append.mp (hsplit ▸ h.ascending)).2.1
    have hlt := (pairwise_cons.mp hsorted).1 _ hafter
    exact absurd hid (ne_of_lt hlt)

variable {addr : Address}

/-- The last session of an address in the table is its newest. -/
theorem Numbered.newestFor_eq (h : server.Numbered) (hnewest : server.IsNewest addr id) :
    server.newestFor addr = some id := by
  have hmem : (addr, id) ∈ server.sessionIds.filter fun entry ↦ entry.1 = addr :=
    mem_filter.mpr ⟨hnewest.1, decide_eq_true rfl⟩
  have hsorted := h.ascending.filter fun entry ↦ decide (entry.1 = addr)
  unfold newestFor
  cases hlast : (server.sessionIds.filter fun entry ↦ entry.1 = addr).getLast? with
  | none =>
    rw [getLast?_eq_none_iff.mp hlast] at hmem
    cases hmem
  | some last =>
    obtain ⟨front, hfront⟩ := getLast?_eq_some_iff.mp hlast
    have hin : last ∈ server.sessionIds.filter fun entry ↦ entry.1 = addr :=
      hfront ▸ mem_append_right _ mem_cons_self
    have haddr : last.1 = addr := of_decide_eq_true (mem_filter.mp hin).2
    have hle : last.2 ≤ id := hnewest.2 last.2 (haddr ▸ (mem_filter.mp hin).1)
    have hge : id ≤ last.2 := by
      rw [hfront, mem_append, mem_singleton] at hmem
      rcases hmem with hbefore | heq
      · rw [hfront] at hsorted
        exact le_of_lt ((pairwise_append.mp hsorted).2.2 _ hbefore last mem_cons_self)
      · rw [← heq]
    exact congrArg some (le_antisymm hle hge)

/-! ## An announcement in force -/

/-- The session is live and ready, and the address it announced leads to its remote
address. -/
structure InForce (server : ProtoServer) (id : ℕ) (realIp remoteIp : Address) : Prop where
  consistent : server.Consistent
  numbered : server.Numbered
  live : (remoteIp, id) ∈ server.sessionIds
  ready : id ∈ server.handshaked
  mapped : server.ipMapping.forth.lookup realIp = some remoteIp

/-- The announcement itself. -/
theorem InForce.of_announced (hconsistent : server.Consistent) (hnumbered : server.Numbered)
    (hannounced : server.announced (.realIP id realIp) = some (realIp, remoteIp)) :
    (server.step (.realIP id realIp)).InForce id realIp remoteIp := by
  simp only [announced] at hannounced
  split at hannounced
  · next hready =>
    obtain ⟨remote, hremote, hpair⟩ := map_eq_some_iff.mp hannounced
    have hremote : server.remoteEndpoint id = some remoteIp := by
      rw [hremote, (Prod.mk.inj hpair).2]
    have hstep : server.step (.realIP id realIp) = server.handleRealIPMapping realIp remoteIp := by
      simp only [step, onRealIP, hremote, if_pos hready]
    refine ⟨hconsistent.step _, hnumbered.step _, ?_, ?_, ?_⟩
    · rw [hstep]
      exact mem_of_remoteEndpoint hremote
    · rw [hstep]
      exact hready
    · rw [hstep]
      exact (Bimap.lookup_forth_link hconsistent.inverse realIp remoteIp realIp).trans (if_pos rfl)
  · cases hannounced

theorem ipMapping_onHandshaked (id : ℕ) (server : ProtoServer) :
    (server.onHandshaked id).ipMapping = server.ipMapping := by
  unfold onHandshaked
  split <;> rfl

theorem InForce.step (h : server.InForce id realIp remoteIp)
    (hpartner : ∀ pair, server.announced event = some pair →
    (pair.1 = realIp ↔ pair.2 = remoteIp))
    (hlive : (remoteIp, id) ∈ (server.step event).sessionIds) :
    (server.step event).InForce id realIp remoteIp := by
  refine ⟨h.consistent.step event, h.numbered.step event, hlive, ?_, ?_⟩
  · cases event with
    | connected addr => exact h.ready
    | handshaked other =>
      simp only [ProtoServer.step, onHandshaked]
      split
      · exact mem_cons_of_mem _ h.ready
      · exact h.ready
    | realIP other announcedIp =>
      simp only [ProtoServer.step, onRealIP]
      split
      · split <;> exact h.ready
      · exact h.ready
    | disconnected other =>
      have hne : id ≠ other := by
        rintro rfl
        exact h.numbered.not_mem_onDisconnected remoteIp id hlive
      have hkept : id ∈ server.handshaked.filter (· ≠ other) :=
        mem_filter.mpr ⟨h.ready, decide_eq_true hne⟩
      simp only [ProtoServer.step, onDisconnected]
      split
      · exact h.ready
      · split <;> exact hkept
  · cases event with
    | connected addr => exact h.mapped
    | handshaked other => exact (ipMapping_onHandshaked other server).symm ▸ h.mapped
    | realIP other announcedIp =>
      simp only [ProtoServer.step, onRealIP]
      cases hremote : server.remoteEndpoint other with
      | none => exact h.mapped
      | some remote =>
        dsimp only
        split
        · next hready =>
          -- the new pair is this one, or shares no address with it
          have hiff : announcedIp = realIp ↔ remote = remoteIp := by
            apply hpartner (announcedIp, remote)
            simp only [announced, if_pos hready, hremote, map_some]
          rw [handleRealIPMapping, Bimap.lookup_forth_link h.consistent.inverse]
          by_cases heq : announcedIp = realIp
          · rw [if_pos heq.symm, hiff.mp heq]
          · have hne : server.ipMapping.forth.lookup realIp ≠ some remote := by
              rw [h.mapped]
              intro hsome
              exact heq (hiff.mpr (some.inj hsome).symm)
            rw [if_neg (Ne.symm heq), if_neg hne]
            exact h.mapped
        · exact h.mapped
    | disconnected other =>
      rcases ipMapping_onDisconnected other server with
        ⟨hmapping, -⟩ | ⟨addr, -, hnone, hmapping⟩
      · exact hmapping.symm ▸ h.mapped
      · have hne : addr ≠ remoteIp := by
          rintro rfl
          exact Bool.eq_false_iff.mp hnone (hasSession_iff.mpr ⟨id, hlive⟩)
        simp only [ProtoServer.step, hmapping, Bimap.lookup_forth_unlink h.consistent.inverse]
        rw [if_neg]
        · exact h.mapped
        · rw [h.mapped]
          exact fun hsome ↦ hne (some.inj hsome).symm

theorem InForce.run (h : server.InForce id realIp remoteIp)
    (hundisturbed : Undisturbed realIp remoteIp server events)
    (hlive : (remoteIp, id) ∈ (server.run events).sessionIds) :
    (server.run events).InForce id realIp remoteIp := by
  induction events generalizing server with
  | nil => exact h
  | cons event rest ih =>
    have hid : id < (server.step event).nextId :=
      lt_of_lt_of_le (h.numbered.below _ h.live) (nextId_step event)
    have hnow : (remoteIp, id) ∈ (server.step event).sessionIds := mem_sessionIds_of_run hid hlive
    exact ih (h.step hundisturbed.1 hnow) hundisturbed.2 hlive

/-- A session of a run whose announcement has been left in force. -/
theorem Announced.inForce (h : Announced events id realIp remoteIp)
    (hlive : (remoteIp, id) ∈ (({} : ProtoServer).run events).sessionIds) :
    (({} : ProtoServer).run events).InForce id realIp remoteIp := by
  obtain ⟨before, after, rfl, hannounced, hundisturbed⟩ := h
  have hrun : ({} : ProtoServer).run (before ++ .realIP id realIp :: after) =
      ((({} : ProtoServer).run before).step (.realIP id realIp)).run after :=
    foldl_append
  rw [hrun] at hlive ⊢
  have hforce := InForce.of_announced (consistent_empty.run before) (numbered_empty.run before)
    hannounced
  exact hforce.run hundisturbed hlive

/-! ## Sending -/

theorem hasConnected_of_mapped (hmapped : server.ipMapping.forth.lookup realIp = some remoteIp)
    (hsession : server.hasSession remoteIp = true) : server.hasConnected realIp = true := by
  simp only [hasConnected, hmapped, hsession, Bool.or_true]

theorem newestFor_eq_none (h : server.hasSession addr = false) : server.newestFor addr = none := by
  have hfilter : (server.sessionIds.filter fun entry ↦ entry.1 = addr) = [] := by
    apply filter_eq_nil_iff.mpr
    exact any_eq_false.mp h
  simp only [newestFor, hfilter, getLast?_nil, map_none]

theorem onSend_of_newestFor (htarget : target ≠ "") (hnewest : server.newestFor target = some id) :
    server.onSend target = if id ∈ server.handshaked then [id] else [] := by
  simp only [onSend, if_neg htarget, hnewest, some_or, toList_some,
    filter_singleton, Bool.cond_decide]

theorem onSend_of_mapped (htarget : target ≠ "") (hnone : server.hasSession target = false)
    (hmapped : server.ipMapping.forth.lookup target = some remoteIp)
    (hnewest : server.newestFor remoteIp = some id) :
    server.onSend target = if id ∈ server.handshaked then [id] else [] := by
  simp only [onSend, if_neg htarget, newestFor_eq_none hnone, hmapped, none_or,
    bind_some, hnewest, toList_some, filter_singleton, Bool.cond_decide]

/-- Nothing is sent to a target that is not connected. -/
theorem onSend_of_not_hasConnected
    (htarget : target ≠ "") (h : server.hasConnected target = false) :
    server.onSend target = [] := by
  obtain ⟨hsession, hmapped⟩ := Bool.or_eq_false_iff.mp h
  simp only [onSend, if_neg htarget, newestFor_eq_none hsession, none_or]
  cases hlookup : server.ipMapping.forth.lookup target with
  | none => rfl
  | some remote =>
    rw [hlookup] at hmapped
    simp only [bind_some, newestFor_eq_none hmapped, toList_none, filter_nil]

/-- After any run: an address whose announcement is in force is connected, and unless it
is itself the remote address of a session, what is sent to it goes to the newest session
of the announcer's remote address and nowhere else; what is sent to a remote address goes
to its newest session; and nothing is sent to a target that is not connected. -/
theorem onSend_routes (events : List Event) :
    let server := ({} : ProtoServer).run events
    (∀ id realIp remoteIp, Announced events id realIp remoteIp →
      (remoteIp, id) ∈ server.sessionIds →
        server.hasConnected realIp = true ∧
        (realIp ≠ "" → server.hasSession realIp = false →
          (∀ newest, server.IsNewest remoteIp newest →
            server.onSend realIp = if newest ∈ server.handshaked then [newest] else []) ∧
          (server.IsNewest remoteIp id → server.onSend realIp = [id]))) ∧
    (∀ addr newest, addr ≠ "" → server.IsNewest addr newest →
      server.onSend addr = if newest ∈ server.handshaked then [newest] else []) ∧
    ∀ target, target ≠ "" → server.hasConnected target = false → server.onSend target = [] := by
  intro server
  have hnumbered : server.Numbered := numbered_empty.run events
  refine ⟨fun id realIp remoteIp hannounced hlive ↦ ?_, fun addr newest haddr hnewest ↦ ?_,
    fun target htarget h ↦ onSend_of_not_hasConnected htarget h⟩
  · have hforce : server.InForce id realIp remoteIp := hannounced.inForce hlive
    refine ⟨hasConnected_of_mapped hforce.mapped (hasSession_iff.mpr ⟨id, hlive⟩),
      fun hne hnone ↦ ?_⟩
    have hsend : ∀ newest, server.IsNewest remoteIp newest →
        server.onSend realIp = if newest ∈ server.handshaked then [newest] else [] :=
      fun newest hnewest ↦ onSend_of_mapped hne hnone hforce.mapped (hnumbered.newestFor_eq hnewest)
    refine ⟨hsend, fun hnewest ↦ ?_⟩
    rw [hsend id hnewest, if_pos hforce.ready]
  · exact onSend_of_newestFor haddr (hnumbered.newestFor_eq hnewest)

theorem onSend_routes_behind_router :
    (({} : ProtoServer).run
      [.connected "192.168.56.1", .handshaked 0, .realIP 0 "10.8.12.138",
        .connected "10.8.12.140", .handshaked 1]).onSend "10.8.12.138" = [0] := by
  have hroutes := (onSend_routes
    [.connected "192.168.56.1", .handshaked 0, .realIP 0 "10.8.12.138",
      .connected "10.8.12.140", .handshaked 1]).1 0 "10.8.12.138" "192.168.56.1"
  refine ((hroutes ?_ (by decide)).2 (by decide) (by decide)).2 ⟨by decide, fun other hother ↦ ?_⟩
  · exact ⟨[.connected "192.168.56.1", .handshaked 0], _, rfl, by decide, nofun, nofun, trivial⟩
  · have hentry : other = 0 := by simpa [run, step, onConnected, onHandshaked, onRealIP,
      remoteEndpoint, handleRealIPMapping] using hother
    exact le_of_eq hentry

/-- Two clients behind one router: the second announcement takes the place of the first,
whose session is still live and whose address nobody else announced. -/
theorem not_hasConnected_second_client :
    let server := ({} : ProtoServer).run
      [.connected "192.168.56.1", .handshaked 0, .realIP 0 "10.8.12.138",
        .connected "192.168.56.1", .handshaked 1, .realIP 1 "10.8.12.139"]
    ("192.168.56.1", 0) ∈ server.sessionIds ∧ server.hasConnected "10.8.12.138" = false ∧
      server.onSend "10.8.12.138" = [] := by
  decide

end ProtoServer

end DdeCooperation.Session
