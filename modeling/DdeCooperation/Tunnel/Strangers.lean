import DdeCooperation.Tunnel.Steps

/-!
# Frames of strangers

A frame is a stranger's when it comes neither from the peer address nor from the
address learned for it, and when it is not an answer with the secret token of a
local stream. Such a frame changes nothing at all, so a run goes through the same
states with these frames as without them. Who is a stranger depends on the state:
it changes with `setPeer`, with the end of the session, and when an address is
learned. That address is always the source of an answer with the right token,
received since the peer was last changed.
-/

namespace DdeCooperation.Tunnel

open Qt Foundations

variable {json : QJsonDocument} {m : TunnelManager} {event : Event}

namespace TunnelManager

/-- The message is an OPEN_ACK with the token of the local stream it names. -/
def authenticates (json : QJsonDocument) (mask : ℤ) (payload : QByteArray) (m : TunnelManager) :
    Bool :=
  TunnelMessageType.ofMask mask = some .tunnelOpenAck &&
    match parseOpenAck json payload with
    | none => false
    | some (id, _, token, _) =>
      match m.findStream id with
      | none => false
      | some stream => !stream.dialer && token = stream.token

/-- A frame from an unknown address without the right token. -/
def stranger (json : QJsonDocument) (m : TunnelManager) : Event → Bool
  | .onTunnelMessage mask payload remote _ =>
    remote ≠ m.peerIp && remote ≠ m.peerRemote && !m.authenticates json mask payload
  | _ => false

/-- An OPEN_ACK without the right token is ignored. -/
theorem handleOpenAck_of_not_authenticates {mask : ℤ} {payload : QByteArray}
    (hmask : TunnelMessageType.ofMask mask = some .tunnelOpenAck)
    (h : m.authenticates json mask payload = false) (remote : QString)
    (writes : List WriteResult) : m.handleOpenAck json remote payload writes = m := by
  unfold authenticates at h
  unfold handleOpenAck
  simp only [hmask, decide_true, Bool.true_and] at h
  split
  · rfl
  · next id ok token reason hparse =>
    rw [hparse] at h
    split
    · rfl
    · next stream hfind =>
      simp only [hfind] at h
      split
      · rfl
      · next hdialer =>
        have htoken : token ≠ stream.token := by simpa [hdialer] using h
        rw [if_pos htoken]

/-- A stranger's frame changes nothing. -/
theorem step_of_stranger (h : m.stranger json event = true) : m.step json event = m := by
  cases event with
  | onTunnelMessage mask payload remote writes =>
    simp only [stranger, Bool.and_eq_true, decide_eq_true_eq, Bool.not_eq_true'] at h
    obtain ⟨⟨hpeer, hremote⟩, hauth⟩ := h
    have hmatches : m.peerMatches remote = false := by simp [peerMatches, hpeer, hremote]
    simp only [step, onTunnelMessage, hmatches, Bool.not_false, Bool.or_true, if_true]
    split
    · rfl
    · split
      · next hmask => exact handleOpenAck_of_not_authenticates hmask hauth remote writes
      · rfl
  | _ => simp [stranger] at h

/-! ## Runs with and without strangers -/

/-- The steps of a run: each event with the states before and after it. -/
def steps (json : QJsonDocument) : TunnelManager → List Event →
    List (TunnelManager × Event × TunnelManager)
  | _, [] => []
  | m, event :: events => (m, event, m.step json event) :: steps json (m.step json event) events

/-- The events of a run that are not a stranger's at the time they happen. -/
def withoutStrangers (json : QJsonDocument) : TunnelManager → List Event → List Event
  | _, [] => []
  | m, event :: events =>
    if m.stranger json event then withoutStrangers json (m.step json event) events
    else event :: withoutStrangers json (m.step json event) events

theorem steps_withoutStrangers (json : QJsonDocument) (m : TunnelManager) (events : List Event) :
    steps json m (withoutStrangers json m events) =
      (steps json m events).filter fun step ↦ !step.1.stranger json step.2.1 := by
  induction events generalizing m with
  | nil => rfl
  | cons event events ih =>
    rw [withoutStrangers, steps]
    by_cases hstranger : m.stranger json event = true
    · rw [if_pos hstranger, List.filter_cons_of_neg (by simp [hstranger]),
        step_of_stranger hstranger]
      exact ih m
    · rw [if_neg hstranger, List.filter_cons_of_pos (by simp [hstranger]), steps, ih]

variable {events : List Event}

theorem eq_of_mem_steps {before after : TunnelManager}
    (h : (before, event, after) ∈ steps json m events) : after = before.step json event := by
  induction events generalizing m with
  | nil => simp [steps] at h
  | cons first events ih =>
    rcases List.mem_cons.mp h with heq | hrest
    · simp only [Prod.mk.injEq] at heq
      rw [heq.2.2, heq.1, heq.2.1]
    · exact ih hrest

theorem run_withoutStrangers (json : QJsonDocument) (m : TunnelManager) (events : List Event) :
    run json m (withoutStrangers json m events) = run json m events := by
  induction events generalizing m with
  | nil => rfl
  | cons event events ih =>
    rw [withoutStrangers]
    by_cases hstranger : m.stranger json event = true
    · rw [if_pos hstranger, step_of_stranger hstranger, ih m]
      simp only [run, List.foldl_cons, step_of_stranger hstranger]
    · rw [if_neg hstranger]
      exact ih (m.step json event)

/-! ## The learned address -/

/-- In one event the learned address is forgotten, or it stays with its peer, or it is learned
from the answer of a local stream. -/
theorem peerRemote_step :
    (m.step json event).peerRemote = "" ∨
    (m.step json event).peerRemote = m.peerRemote ∧ (m.step json event).peerIp = m.peerIp ∨
    ∃ mask payload writes id stream reason,
      event = .onTunnelMessage mask payload (m.step json event).peerRemote writes ∧
      TunnelMessageType.ofMask mask = some .tunnelOpenAck ∧
      parseOpenAck json payload = some (id, true, stream.token, reason) ∧
      m.findStream id = some stream ∧ stream.dialer = false ∧
      (m.step json event).peerIp = m.peerIp := by
  have hhandling := handling_step json m event
  generalize m.step json event = m' at hhandling ⊢
  cases hhandling with
  | setting _ _ _ _ hpeer hremote => exact .inr (.inl ⟨hremote, hpeer⟩)
  | setPeer peerIp =>
    by_cases hsame : m.peerIp = peerIp
    · exact .inr (.inl ⟨by simp [TunnelManager.setPeer, hsame], hsame.symm⟩)
    · exact .inl (by simp [TunnelManager.setPeer, hsame])
  | sweep hsweeps =>
    exact .inr (.inl ⟨hsweeps.peerRemote, congrArg Context.peerIp hsweeps.context⟩)
  | disconnect => exact .inl rfl
  | act hacts => exact .inr (.inl ⟨hacts.peerRemote, congrArg Context.peerIp hacts.context⟩)
  | accept _ _ hevolves =>
    exact .inr (.inl ⟨hevolves.peerRemote, congrArg Context.peerIp hevolves.context⟩)
  | ignore => exact .inr (.inl ⟨rfl, rfl⟩)
  | @receive mask payload remote writes frame _ hadmitted hreceives =>
    have hpeer : m'.peerIp = m.peerIp := congrArg Context.peerIp hreceives.context
    rcases hreceives.peerRemote with hsame | ⟨hlearned, stream, reason, hfind, hdialer, hframe⟩
    · exact .inr (.inl ⟨hsame, hpeer⟩)
    · have hdecode := decode_of_admitted hadmitted
      rw [hframe] at hdecode
      obtain ⟨hmask, hparse⟩ := reads_of_decode hdecode
      exact .inr (.inr ⟨mask, payload, writes, frame.id, stream, reason, by rw [hlearned], hmask,
        hparse, hfind, hdialer, hpeer⟩)

/-- The address was learned in a run from an answer with the right token, and the peer is still
the one of that time. -/
def Learned (json : QJsonDocument) (events : List Event) (address : QString) : Prop :=
  ∃ before mask payload writes after,
    events = before ++ .onTunnelMessage mask payload address writes :: after ∧
    (∃ id stream reason, TunnelMessageType.ofMask mask = some .tunnelOpenAck ∧
      parseOpenAck json payload = some (id, true, stream.token, reason) ∧
      (run json {} before).findStream id = some stream ∧ stream.dialer = false) ∧
    ∀ later, later <+: after →
      (run json {} (before ++ .onTunnelMessage mask payload address writes :: later)).peerIp =
        (run json {} before).peerIp

theorem run_concat (json : QJsonDocument) (m : TunnelManager) (events : List Event)
    (event : Event) : run json m (events ++ [event]) = (run json m events).step json event := by
  simp [run]

theorem Learned.concat {address : QString} (h : Learned json events address)
    (hpeer : (run json {} (events ++ [event])).peerIp = (run json {} events).peerIp) :
    Learned json (events ++ [event]) address := by
  obtain ⟨before, mask, payload, writes, after, rfl, hanswer, hsince⟩ := h
  refine ⟨before, mask, payload, writes, after ++ [event], by simp, hanswer, fun later hlater ↦ ?_⟩
  rcases List.prefix_concat_iff.mp hlater with rfl | hprefix
  · have hnow := hsince after (List.prefix_refl after)
    rw [← hnow, ← hpeer]
    simp
  · exact hsince later hprefix

theorem peerRemote_learned (json : QJsonDocument) (events : List Event) :
    (run json {} events).peerRemote = "" ∨ Learned json events (run json {} events).peerRemote := by
  induction events using List.reverseRecOn with
  | nil => exact .inl rfl
  | append_singleton events event ih =>
    rw [run_concat]
    rcases peerRemote_step with hempty | ⟨hsame, hpeer⟩ |
      ⟨mask, payload, writes, id, stream, reason, hevent, hmask, hparse, hfind, hdialer, hpeer⟩
    · exact .inl hempty
    · rw [hsame]
      exact ih.imp_right fun hlearned ↦ hlearned.concat (by rw [run_concat, hpeer])
    · refine .inr ⟨events, mask, payload, writes, [], by rw [← hevent], ?_, fun later hlater ↦ ?_⟩
      · exact ⟨id, stream, reason, hmask, hparse, hfind, hdialer⟩
      · rw [List.prefix_nil.mp hlater, ← hevent, run_concat, hpeer]

/-- Deleting the frames of strangers deletes steps that change nothing and leaves all others as
they are, so the states and everything sent stay the same. -/
theorem strangers_do_not_interfere (json : QJsonDocument) :
    (∀ m events, steps json m (withoutStrangers json m events) =
        (steps json m events).filter (fun step ↦ !step.1.stranger json step.2.1) ∧
      (∀ before event after, (before, event, after) ∈ steps json m events →
        before.stranger json event = true → after = before) ∧
      run json m (withoutStrangers json m events) = run json m events) ∧
    ∀ events, (run json {} events).peerRemote = "" ∨
      Learned json events (run json {} events).peerRemote := by
  refine ⟨fun m events ↦ ⟨steps_withoutStrangers json m events, ?_,
    run_withoutStrangers json m events⟩, peerRemote_learned json⟩
  intro before event after hstep hstranger
  rw [eq_of_mem_steps hstep, step_of_stranger hstranger]

end TunnelManager

end DdeCooperation.Tunnel
