import DdeCooperation.Tunnel.Handlers

/-!
# Calls that touch many streams

Starting and stopping forwards, dropping all streams and accepting connections
touch many streams at once. `Evolves` says of such a call that every stream only
goes through steps of its own kind. The table of forwards changes in these calls
only, and `Served` is what they keep true of it: every local stream has its
forward.
-/

namespace DdeCooperation.Tunnel

open Qt Foundations List Option AList

variable {m m' : TunnelManager} {id : UInt32} {serviceId : QString} {stream : Stream}

/-- Every stream of `m` has gone through some steps of its own on the way to `m'`. -/
structure Evolves (step : UInt32 → Option Stream → List Effect → Option Stream → Prop)
    (m m' : TunnelManager) : Prop where
  context : m'.context = m.context
  peerRemote : m'.peerRemote = m.peerRemote
  timers : m'.retryTimers = m.retryTimers
  each : ∃ new, m'.log = m.log ++ new ∧
    ∀ id, Trace (step id) (m.findStream id) (about id new) (m'.findStream id)

namespace Evolves

variable {step : UInt32 → Option Stream → List Effect → Option Stream → Prop}

theorem same (hcontext : m'.context = m.context)
    (hremote : m'.peerRemote = m.peerRemote) (htimers : m'.retryTimers = m.retryTimers)
    (hlog : m'.log = m.log) (hstreams : ∀ id, m'.findStream id = m.findStream id) :
    Evolves step m m' :=
  ⟨hcontext, hremote, htimers, [], by simp [hlog], fun id ↦ by rw [hstreams]; exact .refl _⟩

theorem refl (m : TunnelManager) : Evolves step m m := same rfl rfl rfl rfl fun _ ↦ rfl

theorem trans {first middle last : TunnelManager} (hleft : Evolves step first middle)
    (hright : Evolves step middle last) : Evolves step first last := by
  obtain ⟨left, hlogLeft, htraceLeft⟩ := hleft.each
  obtain ⟨right, hlogRight, htraceRight⟩ := hright.each
  refine ⟨hright.context.trans hleft.context, hright.peerRemote.trans hleft.peerRemote,
    hright.timers.trans hleft.timers, left ++ right,
    by rw [hlogRight, hlogLeft, append_assoc], fun id ↦ ?_⟩
  rw [about_append]
  exact (htraceLeft id).trans (htraceRight id)

theorem foldl {α : Type} {f : TunnelManager → α → TunnelManager} {c : Context}
    (hf : ∀ m a, m.context = c → Evolves step m (f m a)) (list : List α) (m : TunnelManager)
    (hcontext : m.context = c) : Evolves step m (list.foldl f m) := by
  induction list generalizing m with
  | nil => exact refl m
  | cons a list ih =>
    have hhead := hf m a hcontext
    exact hhead.trans (ih _ (hhead.context.trans hcontext))

variable {effects : List Effect}

/-- Only one stream has gone anywhere. -/
theorem one (id : UInt32)
    (hcontext : m'.context = m.context) (hremote : m'.peerRemote = m.peerRemote)
    (htimers : m'.retryTimers = m.retryTimers) (hlog : m'.log = m.log ++ effects)
    (hstream : ∀ effect ∈ effects, effect.stream = some id)
    (hothers : ∀ other, other ≠ id → m'.findStream other = m.findStream other)
    (htrace : Trace (step id) (m.findStream id) effects (m'.findStream id)) :
    Evolves step m m' := by
  refine ⟨hcontext, hremote, htimers, effects, hlog, fun other ↦ ?_⟩
  by_cases hother : other = id
  · subst hother
    rwa [about_eq_self hstream]
  · rw [about_eq_nil hother hstream, hothers other hother]
    exact .refl _

/-- Effects about no stream at all. -/
theorem emit (m : TunnelManager) (h : ∀ effect ∈ effects, effect.stream = none) :
    Evolves step m (m.emit effects) := by
  refine ⟨rfl, rfl, rfl, effects, rfl, fun id ↦ ?_⟩
  have hnil : about id effects = [] := by
    apply filter_eq_nil_iff.mpr
    intro effect heffect
    simp [h effect heffect]
  rw [hnil]
  exact .refl _

end Evolves

/-- Every stream makes moves that it is allowed to make. -/
abbrev Sweeps (allow : UInt32 → Allowance) (m m' : TunnelManager) : Prop :=
  Evolves (fun id ↦ Move m.context (allow id) id) m m'

variable {allow : UInt32 → Allowance}

/-- Moves of one stream leave the others where they are. -/
theorem Acts.sweeps (h : Acts (allow id) id m m') (htimers : m'.retryTimers = m.retryTimers) :
    Sweeps allow m m' := by
  obtain ⟨effects, hlog, hmoves⟩ := h.moves
  exact .one id h.context h.peerRemote htimers hlog hmoves.stream_eq h.others hmoves

theorem Sweeps.descends (h : Sweeps allow m m') (id : UInt32) :
    Descends (m.findStream id) (m'.findStream id) := by
  obtain ⟨new, -, htrace⟩ := h.each
  exact Moves.descends (htrace id)

namespace TunnelManager

variable {allow : UInt32 → Allowance}

/-! ## Stopping forwards -/

/-- What `stopLocalForward` does to one stream. -/
def stopStream (serviceId : QString) (m : TunnelManager) (id : UInt32) : TunnelManager :=
  match m.findStream id with
  | none => m
  | some stream =>
    if !stream.dialer && stream.serviceId = serviceId then
      m.destroyStream id "forward stopped" true
    else m

variable {forward : Forward}

theorem stopLocalForward_some (h : m.forwards.lookup serviceId = some forward) :
    m.stopLocalForward serviceId = m.streams.keys.foldl (stopStream serviceId)
        { m with forwards := m.forwards.erase serviceId } := by
  unfold stopLocalForward
  rw [h]
  rfl

theorem sweeps_stopStream : Sweeps allow m (m.stopStream serviceId id) := by
  unfold stopStream
  split
  · exact .refl m
  · split
    · exact (acts_destroyStream _ m).sweeps (by simp)
    · exact .refl m

theorem sweeps_stopLocalForward (serviceId : QString) (m : TunnelManager) :
    Sweeps allow m (m.stopLocalForward serviceId) := by
  cases hforward : m.forwards.lookup serviceId with
  | none =>
    unfold stopLocalForward
    rw [hforward]
    exact .refl m
  | some forward =>
    rw [stopLocalForward_some hforward]
    have herase : Sweeps allow m { m with forwards := m.forwards.erase serviceId } :=
      .same rfl rfl rfl rfl fun _ ↦ rfl
    refine herase.trans (Evolves.foldl (c := m.context) ?_ _ _ rfl)
    intro m' id hcontext
    rw [← hcontext]
    exact sweeps_stopStream

theorem sweeps_stopLocalForwards (m : TunnelManager) : Sweeps allow m m.stopLocalForwards := by
  refine Evolves.foldl (c := m.context) ?_ _ _ rfl
  intro m' serviceId hcontext
  rw [← hcontext]
  exact sweeps_stopLocalForward serviceId m'

theorem findStream_destroyStream (m : TunnelManager) (id other : UInt32) (reason : QString)
    (notify : Bool) : (m.destroyStream id reason notify).findStream other =
      if other = id then none else m.findStream other := by
  cases hfind : m.findStream id with
  | none =>
    rw [destroyStream_none hfind]
    split
    · next heq => rw [heq, hfind]
    · rfl
  | some stream =>
    rw [destroyStream_some hfind, findStream_emit]
    split
    · next heq =>
      rw [heq]
      exact findStream_dropStream m id
    · next hne => exact findStream_dropStream_ne m hne

variable {reason : QString}

@[simp] theorem forwards_destroyStream (notify : Bool) : (m.destroyStream id reason notify).forwards = m.forwards := by
  cases hfind : m.findStream id with
  | none => rw [destroyStream_none hfind]
  | some stream =>
    rw [destroyStream_some hfind]
    rfl

/-- The streams that survive the end of a forward: the dialled ones and those of other services. -/
def survives (serviceId : QString) (stream : Stream) : Bool :=
  stream.dialer || stream.serviceId != serviceId

variable {other : UInt32}

theorem findStream_stopStream :
    (m.stopStream serviceId id).findStream other =
      if other = id then (m.findStream other).filter (survives serviceId)
      else m.findStream other := by
  unfold stopStream
  split
  · next hfind =>
    split
    · next heq => rw [heq, hfind, filter_none]
    · rfl
  · next stream hfind =>
    split
    · next hstop =>
      rw [findStream_destroyStream]
      split
      · next heq =>
        rw [heq, hfind, filter_some, if_neg]
        simpa [survives] using hstop
      · rfl
    · next hkeep =>
      split
      · next heq =>
        rw [heq, hfind, filter_some, if_pos]
        cases hdialer : stream.dialer <;> simp_all [survives]
      · rfl

variable {ids : List UInt32}

theorem findStream_foldl_stopStream : (ids.foldl (stopStream serviceId) m).findStream other =
      if other ∈ ids then (m.findStream other).filter (survives serviceId)
      else m.findStream other := by
  induction ids generalizing m with
  | nil => rfl
  | cons id ids ih =>
    rw [List.foldl_cons, ih, findStream_stopStream]
    by_cases heq : other = id <;> by_cases hmem : other ∈ ids <;>
      simp [heq, hmem, Option.filter_filter]

theorem forwards_foldl_stopStream : (ids.foldl (stopStream serviceId) m).forwards = m.forwards := by
  induction ids generalizing m with
  | nil => rfl
  | cons id ids ih =>
    rw [foldl_cons, ih]
    unfold stopStream
    split
    · rfl
    · split <;> simp

theorem mem_keys_of_findStream (h : m.findStream id = some stream) : id ∈ m.streams.keys :=
  mem_keys.mp (lookup_isSome.mp (by rw [findStream] at h; simp [h]))

/-- Ending a forward that is there ends exactly the local streams of its service. -/
theorem findStream_stopLocalForward (h : m.forwards.lookup serviceId = some forward) :
    (m.stopLocalForward serviceId).findStream id =
      (m.findStream id).filter (survives serviceId) := by
  rw [stopLocalForward_some h, findStream_foldl_stopStream]
  split
  · rfl
  · next hmem =>
    have hnone : m.findStream id = none := by
      cases hfind : m.findStream id with
      | none => rfl
      | some stream => exact absurd (mem_keys_of_findStream hfind) hmem
    simp only [findStream] at hnone ⊢
    rw [hnone, filter_none]

theorem stopLocalForward_none (h : m.forwards.lookup serviceId = none) :
    m.stopLocalForward serviceId = m := by
  unfold stopLocalForward
  rw [h]

theorem lookup_forwards_stopLocalForward (m : TunnelManager) (serviceId other : QString) :
    (m.stopLocalForward serviceId).forwards.lookup other =
      if other = serviceId then none else m.forwards.lookup other := by
  cases hforward : m.forwards.lookup serviceId with
  | none =>
    rw [stopLocalForward_none hforward]
    split
    · next heq => rw [heq, hforward]
    · rfl
  | some forward =>
    rw [stopLocalForward_some hforward, forwards_foldl_stopStream]
    split
    · next heq =>
      rw [heq]
      exact lookup_erase _ _
    · next hne => exact lookup_erase_ne hne

/-- What is left when forwards have been ended: no local stream of an ended forward. -/
theorem left_of_foldl_stopLocalForward (services : List QString) (m : TunnelManager)
    (h : (services.foldl (fun m serviceId ↦ m.stopLocalForward serviceId)
    m).findStream id = some stream) :
    m.findStream id = some stream ∧ (stream.dialer = true ∨ stream.serviceId ∉ services ∨
      m.forwards.lookup stream.serviceId = none) := by
  induction services generalizing m with
  | nil => exact ⟨h, .inr (.inl (by simp))⟩
  | cons serviceId services ih =>
    obtain ⟨hfind, hrest⟩ := ih (m.stopLocalForward serviceId) h
    rw [lookup_forwards_stopLocalForward] at hrest
    cases hforward : m.forwards.lookup serviceId with
    | none =>
      rw [stopLocalForward_none hforward] at hfind
      refine ⟨hfind, ?_⟩
      by_cases heq : stream.serviceId = serviceId
      · exact .inr (.inr (by rw [heq, hforward]))
      · simpa [heq] using hrest
    | some forward =>
      rw [findStream_stopLocalForward hforward] at hfind
      obtain ⟨hfound, hsurvives⟩ := filter_eq_some_iff.mp hfind
      refine ⟨hfound, ?_⟩
      by_cases heq : stream.serviceId = serviceId
      · simp [survives, heq] at hsurvives
        exact .inl hsurvives
      · simpa [heq] using hrest

theorem left_of_stopLocalForwards (h : m.stopLocalForwards.findStream id = some stream) :
    m.findStream id = some stream ∧
      (stream.dialer = true ∨ m.forwards.lookup stream.serviceId = none) := by
  obtain ⟨hfind, hrest⟩ := left_of_foldl_stopLocalForward _ m h
  refine ⟨hfind, ?_⟩
  rcases hrest with hdialer | hkeys | hnone
  · exact .inl hdialer
  · exact .inr (lookup_eq_none.mpr fun hmem ↦ hkeys (mem_keys.mp hmem))
  · exact .inr hnone

/-! ## Dropping streams -/

theorem sweeps_destroyStreams (ids : List UInt32) (reason : QString) (m : TunnelManager)
    (hsilent : ∀ id stream, m.findStream id = some stream → (allow id).silent) :
    Sweeps allow m (m.destroyStreams ids reason) := by
  unfold destroyStreams
  induction ids generalizing m with
  | nil => exact .refl m
  | cons id ids ih =>
    have hhead : Sweeps allow m (m.destroyStream id reason false) := by
      cases hfind : m.findStream id with
      | none =>
        rw [destroyStream_none hfind]
        exact .refl m
      | some stream =>
        rw [destroyStream_some hfind]
        exact (Acts.dropMove hfind (.drop stream reason (hsilent id stream hfind))).sweeps rfl
    rw [foldl_cons]
    refine hhead.trans ?_
    rw [← hhead.context]
    apply ih
    intro other stream hfind
    obtain ⟨stream₀, hfirst, -⟩ := hhead.descends other stream hfind
    exact hsilent other stream₀ hfirst

theorem findStream_destroyStreams : (m.destroyStreams ids reason).findStream id =
      if id ∈ ids then none else m.findStream id := by
  unfold destroyStreams
  induction ids generalizing m with
  | nil => rfl
  | cons other ids ih =>
    rw [foldl_cons, ih, findStream_destroyStream]
    by_cases heq : id = other <;> by_cases hmem : id ∈ ids <;> simp [heq, hmem]

theorem findStream_destroyStreams_keys (m : TunnelManager) (reason : QString) (id : UInt32) :
    (m.destroyStreams m.streams.keys reason).findStream id = none := by
  rw [findStream_destroyStreams]
  split
  · rfl
  · next hmem =>
    cases hfind : m.findStream id with
    | none => rfl
    | some stream => exact absurd (mem_keys_of_findStream hfind) hmem

theorem sweeps_stopAll (m : TunnelManager) (hsilent : ∀ id stream, m.findStream id = some stream →
      stream.dialer = true ∨ m.forwards.lookup stream.serviceId = none → (allow id).silent) :
    Sweeps allow m m.stopAll := by
  have hforwards : Sweeps allow m m.stopLocalForwards := sweeps_stopLocalForwards m
  have hstreams : Sweeps allow m.stopLocalForwards _ :=
    sweeps_destroyStreams m.stopLocalForwards.streams.keys "stopped" _ fun id stream hfind ↦
      let ⟨hfirst, hleft⟩ := left_of_stopLocalForwards hfind
      hsilent id stream hfirst hleft
  rw [Sweeps, hforwards.context] at hstreams
  refine (hforwards.trans hstreams).trans (.same rfl rfl rfl rfl fun id ↦ ?_)
  rw [findStream_destroyStreams_keys]
  rfl

/-! ## Starting forwards and accepting connections -/

/-- The part of `startLocalForward` that opens a new listener. -/
def listenForward (serviceId : QString) (listen : Except QString UInt16) (m : TunnelManager) :
    UInt16 × TunnelManager :=
  if kMaxForwards ≤ m.forwards.keys.length then
    (0, m.emit [.localForwardFailed serviceId "too many forwards"])
  else
    match listen with
    | .error text => (0, m.emit [.localForwardFailed serviceId text])
    | .ok port =>
      (port, { m with forwards := m.forwards.insert serviceId ⟨true, port⟩ }.emit
        [.localForwardReady serviceId port])

variable {listen : Except QString UInt16}

/-- A call of `startLocalForward` fails at once, finds a live listener, or opens a new one after
it has ended a stale forward of the same service. -/
theorem startLocalForward_cases :
    (m.startLocalForward serviceId listen).2 = m.emit [.localForwardFailed serviceId "no peer"] ∨
    (m.startLocalForward serviceId listen).2 = m ∨
    (m.startLocalForward serviceId listen).2 =
      ((m.stopLocalForward serviceId).listenForward serviceId listen).2 := by
  unfold startLocalForward
  split
  · exact .inl rfl
  · dsimp only
    split
    · split
      · exact .inr (.inl rfl)
      · exact .inr (.inr rfl)
    · next hforward =>
      rw [stopLocalForward_none hforward]
      exact .inr (.inr rfl)

theorem sweeps_listenForward : Sweeps allow m (m.listenForward serviceId listen).2 := by
  unfold listenForward
  split
  · exact .emit m (by simp [Effect.stream])
  · split
    · exact .emit m (by simp [Effect.stream])
    · next port =>
      have hinsert : Sweeps allow m
          { m with forwards := m.forwards.insert serviceId ⟨true, port⟩ } :=
        .same rfl rfl rfl rfl fun _ ↦ rfl
      exact hinsert.trans (.emit _ (by simp [Effect.stream]))

theorem sweeps_startLocalForward (serviceId : QString) (listen : Except QString UInt16)
    (m : TunnelManager) : Sweeps allow m (m.startLocalForward serviceId listen).2 := by
  rcases startLocalForward_cases with hfailed | hlive | hnew
  · rw [hfailed]
    exact .emit m (by simp [Effect.stream])
  · rw [hlive]
    exact .refl m
  · rw [hnew]
    have hstop : Sweeps allow m (m.stopLocalForward serviceId) := sweeps_stopLocalForward serviceId m
    refine hstop.trans ?_
    rw [← hstop.context]
    exact sweeps_listenForward

variable {incoming : Incoming}

theorem evolves_acceptConnection :
    Evolves (Create m.context serviceId) m (m.acceptConnection serviceId incoming) := by
  unfold acceptConnection
  split
  · exact .refl m
  · next id hnext =>
    have hnew := find?_some hnext
    simp only [Bool.and_eq_true, decide_eq_true_eq, isNone_iff_eq_none] at hnew
    dsimp only
    split
    · next hoffline =>
      rw [Bool.not_eq_true'] at hoffline
      rw [destroyStream_some (findStream_setStream m id _)]
      refine Evolves.one id rfl rfl rfl rfl (by simp [Effect.stream]) ?_ ?_
      · intro other hne
        rw [findStream_emit, findStream_dropStream_ne _ hne, findStream_setStream_ne m _ hne]
      · rw [hnew.2, findStream_emit, findStream_dropStream]
        exact .single (.abandon hoffline)
    · next honline =>
      rw [Bool.not_eq_true, Bool.not_eq_false'] at honline
      refine Evolves.one id rfl rfl rfl rfl (by simp [Effect.stream, Frame.id]) ?_ ?_
      · intro other hne
        rw [findStream_emit, findStream_setStream_ne m _ hne]
      · rw [hnew.2, findStream_emit, findStream_setStream]
        exact .single (.announce incoming.token hnew.1 honline)

theorem evolves_acceptLocalConnection (serviceId : QString) (connections : List Incoming)
    (m : TunnelManager) :
    Evolves (Create m.context serviceId) m (m.acceptLocalConnection serviceId connections) := by
  unfold acceptLocalConnection
  split
  · exact .refl m
  · refine Evolves.foldl (c := m.context) ?_ _ _ rfl
    intro m' incoming hcontext
    rw [← hcontext]
    exact evolves_acceptConnection

theorem forwards_acceptConnection : (m.acceptConnection serviceId incoming).forwards = m.forwards := by
  unfold acceptConnection
  split
  · rfl
  · dsimp only
    split
    · rw [forwards_destroyStream]
      rfl
    · rfl

theorem forwards_foldl_acceptConnection (serviceId : QString) (connections : List Incoming)
    (m : TunnelManager) :
    (connections.foldl (acceptConnection serviceId) m).forwards = m.forwards := by
  induction connections generalizing m with
  | nil => rfl
  | cons incoming connections ih => rw [foldl_cons, ih, forwards_acceptConnection]

/-! ## Forwards and the streams they serve -/

/-- Every local stream has its forward, and there are not too many of these. -/
structure Served (m : TunnelManager) : Prop where
  forward : ∀ id stream, m.findStream id = some stream → stream.dialer = false →
    ∃ forward, m.forwards.lookup stream.serviceId = some forward
  length_le : m.forwards.keys.length ≤ kMaxForwards

namespace Served

variable {m m' : TunnelManager} (h : m.Served)

include h

/-- The table of forwards is the same and no local stream is new. -/
theorem of_origin (hforwards : m'.forwards = m.forwards)
    (horigin : ∀ id last, m'.findStream id = some last → last.dialer = false →
    ∃ stream, m.findStream id = some stream ∧ stream.serviceId = last.serviceId ∧
    stream.dialer = last.dialer) : m'.Served := by
  refine ⟨fun id last hfind hdialer ↦ ?_, by rw [hforwards]; exact h.length_le⟩
  obtain ⟨stream, hfirst, hservice, hsame⟩ := horigin id last hfind hdialer
  rw [hforwards, ← hservice]
  exact h.forward id stream hfirst (hsame.trans hdialer)

theorem acts {allow : Allowance} (hacts : Acts allow id m m') : m'.Served := by
  refine h.of_origin hacts.forwards fun other last hfind _ ↦ ?_
  by_cases hother : other = id
  · subst hother
    obtain ⟨effects, -, hmoves⟩ := hacts.moves
    obtain ⟨stream, hfirst, hservice, -, hsame⟩ := Moves.descends hmoves last hfind
    exact ⟨stream, hfirst, hservice, hsame⟩
  · rw [hacts.others other hother] at hfind
    exact ⟨last, hfind, rfl, rfl⟩

theorem receives {remote : QString} {frame : Frame} (hreceives : Receives remote frame m m') :
    m'.Served := by
  refine h.of_origin hreceives.forwards fun other last hfind hdialer ↦ ?_
  by_cases hother : other = frame.id
  · subst hother
    obtain ⟨left, middle, right, -, hreceive, hmoves, -⟩ := hreceives.receive
    rcases hreceive.origin with hdescends | ⟨serviceId, token, service, -, rfl, -⟩
    · obtain ⟨stream, hfirst, hservice, -, hsame⟩ :=
        hdescends.trans (Moves.descends hmoves) last hfind
      exact ⟨stream, hfirst, hservice, hsame⟩
    · -- the stream was dialled for the frame
      obtain ⟨origin, horigin, -, -, hsame⟩ := Moves.descends hmoves last hfind
      cases horigin
      rw [← hsame] at hdialer
      simp [createStream] at hdialer
  · rw [hreceives.others other hother] at hfind
    exact ⟨last, hfind, rfl, rfl⟩

theorem destroyStreams (ids : List UInt32) (reason : QString) :
    (m.destroyStreams ids reason).Served := by
  unfold TunnelManager.destroyStreams
  induction ids generalizing m with
  | nil => exact h
  | cons id ids ih =>
    apply ih
    refine h.of_origin (forwards_destroyStream ..) fun other last hfind _ ↦ ?_
    rw [findStream_destroyStream] at hfind
    split at hfind
    · simp at hfind
    · exact ⟨last, hfind, rfl, rfl⟩

theorem stopLocalForward (serviceId : QString) : (m.stopLocalForward serviceId).Served := by
  cases hforward : m.forwards.lookup serviceId with
  | none =>
    rw [stopLocalForward_none hforward]
    exact h
  | some forward =>
    refine ⟨fun id stream hfind hdialer ↦ ?_, ?_⟩
    · rw [findStream_stopLocalForward hforward] at hfind
      obtain ⟨hfirst, hsurvives⟩ := filter_eq_some_iff.mp hfind
      have hother : stream.serviceId ≠ serviceId := by simpa [survives, hdialer] using hsurvives
      rw [lookup_forwards_stopLocalForward, if_neg hother]
      exact h.forward id stream hfirst hdialer
    · rw [stopLocalForward_some hforward, forwards_foldl_stopStream, keys_erase]
      exact (length_erase_le).trans h.length_le

theorem stopLocalForwards : m.stopLocalForwards.Served :=
  foldlRecOn _ _ h fun _ hm serviceId _ ↦ hm.stopLocalForward serviceId

theorem stopAll : m.stopAll.Served := by
  have hdropped := h.stopLocalForwards.destroyStreams m.stopLocalForwards.streams.keys "stopped"
  exact hdropped.of_origin rfl fun id last hfind _ ↦ absurd hfind (by simp [findStream,
    TunnelManager.stopAll])

theorem startLocalForward (serviceId : QString) (listen : Except QString UInt16) :
    (m.startLocalForward serviceId listen).2.Served := by
  rcases startLocalForward_cases with hfailed | hlive | hnew
  · rw [hfailed]
    exact h.of_origin rfl fun _ last hfind _ ↦ ⟨last, hfind, rfl, rfl⟩
  · rw [hlive]
    exact h
  · rw [hnew]
    have hstopped := h.stopLocalForward serviceId
    have hgone : (m.stopLocalForward serviceId).forwards.lookup serviceId = none := by
      rw [lookup_forwards_stopLocalForward, if_pos rfl]
    generalize m.stopLocalForward serviceId = stopped at hstopped hgone
    unfold listenForward
    split
    · exact hstopped.of_origin rfl fun _ last hfind _ ↦ ⟨last, hfind, rfl, rfl⟩
    · next hroom =>
      split
      · exact hstopped.of_origin rfl fun _ last hfind _ ↦ ⟨last, hfind, rfl, rfl⟩
      · next port =>
        refine ⟨fun id stream hfind hdialer ↦ ?_, ?_⟩
        · obtain ⟨forward, hforward⟩ := hstopped.forward id stream hfind hdialer
          have hne : stream.serviceId ≠ serviceId := by
            intro heq
            rw [heq, hgone] at hforward
            simp at hforward
          exact ⟨forward, (lookup_insert_ne hne).trans hforward⟩
        · have hkeys : (stopped.forwards.insert serviceId ⟨true, port⟩).keys.length ≤
              stopped.forwards.keys.length + 1 := by
            rw [keys_insert, length_cons]
            exact Nat.succ_le_succ length_erase_le
          exact hkeys.trans (Nat.lt_of_not_le hroom)

end Served

/-! ## The tables -/

theorem services_stopLocalForward (m : TunnelManager) (serviceId : QString) :
    (m.stopLocalForward serviceId).services = m.services := by
  have hsweeps : Sweeps (fun _ ↦ Allowance.none) m (m.stopLocalForward serviceId) :=
    sweeps_stopLocalForward serviceId m
  exact congrArg Context.services hsweeps.context

theorem mem_forwards_stopLocalForward (m : TunnelManager) (serviceId other : QString) :
    other ∈ (m.stopLocalForward serviceId).forwards ↔ other ≠ serviceId ∧ other ∈ m.forwards := by
  rw [← lookup_isSome, ← lookup_isSome, lookup_forwards_stopLocalForward]
  by_cases heq : other = serviceId <;> simp [heq]

theorem services_startLocalForward (m : TunnelManager) (serviceId : QString)
    (listen : Except QString UInt16) :
    (m.startLocalForward serviceId listen).2.services = m.services := by
  have hsweeps : Sweeps (fun _ ↦ Allowance.none) m (m.startLocalForward serviceId listen).2 :=
    sweeps_startLocalForward serviceId listen m
  exact congrArg Context.services hsweeps.context

/-- A service without a forward gets one together with the port, or neither. -/
theorem forwards_startLocalForward
    {listen : Except QString UInt16} (hnew : serviceId ∉ m.forwards) (hport : listen ≠ .ok 0) :
    ((m.startLocalForward serviceId listen).1 = 0 ∧
      (m.startLocalForward serviceId listen).2.forwards = m.forwards) ∨
    ((m.startLocalForward serviceId listen).1 ≠ 0 ∧
      ∃ forward, (m.startLocalForward serviceId listen).2.forwards =
        m.forwards.insert serviceId forward) := by
  unfold startLocalForward
  split
  · exact .inl ⟨rfl, rfl⟩
  · simp only [lookup_eq_none.mpr hnew]
    split
    · exact .inl ⟨rfl, rfl⟩
    · cases listen with
      | error text => exact .inl ⟨rfl, rfl⟩
      | ok port =>
        refine .inr ⟨?_, _, rfl⟩
        intro hzero
        exact hport (congrArg Except.ok hzero)

theorem mem_forwards_foldl_stopLocalForward (ids : List QString) (m : TunnelManager)
    (other : QString) :
    other ∈ (ids.foldl (fun m serviceId ↦ m.stopLocalForward serviceId) m).forwards ↔
      other ∉ ids ∧ other ∈ m.forwards := by
  induction ids generalizing m with
  | nil => simp
  | cons id ids ih =>
    rw [foldl_cons, ih, mem_forwards_stopLocalForward, mem_cons, not_or]
    tauto

theorem services_onPeerDisconnected (m : TunnelManager) :
    m.onPeerDisconnected.services = m.services := by
  have hstreams : Sweeps (fun _ ↦ ⟨True, False, False, False⟩) m
      (m.destroyStreams m.streams.keys "peer disconnected") :=
    sweeps_destroyStreams _ _ m fun _ _ _ ↦ trivial
  have hforwards : Sweeps (fun _ ↦ Allowance.none)
      (m.destroyStreams m.streams.keys "peer disconnected") _ := sweeps_stopLocalForwards _
  calc m.onPeerDisconnected.services
      = (m.destroyStreams m.streams.keys "peer disconnected").services :=
        congrArg Context.services hforwards.context
    _ = m.services := congrArg Context.services hstreams.context

/-- No forward outlives the peer. -/
theorem notMem_forwards_onPeerDisconnected (m : TunnelManager) (serviceId : QString) :
    serviceId ∉ m.onPeerDisconnected.forwards := by
  intro hmem
  obtain ⟨hkeys, hleft⟩ := (mem_forwards_foldl_stopLocalForward _ _ serviceId).mp hmem
  exact hkeys (mem_keys.mp hleft)

end TunnelManager

end DdeCooperation.Tunnel
