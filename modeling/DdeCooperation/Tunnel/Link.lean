import DdeCooperation.Tunnel.Pair

/-!
# One stream of a pair

`Link` is what a pair is to one stream id: the stream on either side, the frames
about it that travel in either direction, and what the two logs say about it.
An action of one side is a sequence of small steps of the link seen from that
side, in which `left` is always the side that acts. `link_act_induction` turns
this into the rule by which the following modules prove invariants: a property
of a link that survives the steps of both sides holds after every action.
-/

namespace DdeCooperation.Tunnel

open Qt Foundations Function

variable {id : UInt32} {effects : List Effect} {p : Pair} {side : Side} {json : QJsonDocument}
  {peerIp : Side → QString}

structure Link where
  left : Option Stream
  right : Option Stream
  /-- Frames from left to right. -/
  fly : List Frame
  /-- Frames from right to left. -/
  back : List Frame
  leftLog : List Effect
  rightLog : List Effect
  /-- A dial retry is pending on the left. -/
  leftRetry : Bool
  rightRetry : Bool

namespace Link

/-- The link before anything has happened. -/
def idle : Link := ⟨none, none, [], [], [], [], false, false⟩

/-- The same link, seen from the other side. -/
def swap (l : Link) : Link where
  left := l.right
  right := l.left
  fly := l.back
  back := l.fly
  leftLog := l.rightLog
  rightLog := l.leftLog
  leftRetry := l.rightRetry
  rightRetry := l.leftRetry

variable {l : Link}

@[simp] theorem swap_swap : l.swap.swap = l := rfl

/-- The left side has become `last` with the given effects. -/
def acts (l : Link) (effects : List Effect) (last : Option Stream) : Link :=
  { l with left := last, fly := l.fly ++ frames effects, leftLog := l.leftLog ++ effects }

theorem acts_append (left right : List Effect) (middle last : Option Stream) :
    l.acts (left ++ right) last = (l.acts left middle).acts right last := by
  simp [acts]

/-- The invariant of the streams on both sides. -/
def Sound (l : Link) : Prop :=
  (∀ stream ∈ l.left, stream.Sound) ∧ ∀ stream ∈ l.right, stream.Sound

/-- One step of the left side. Unless `silent` holds it does not drop a stream without a word, and
it only gives up a dial of a stream it has not dialled when a retry is pending. -/
inductive LeftStep (silent : Prop) (id : UInt32) : Link → Link → Prop
  | move {l : Link} {c : Context} {effects : List Effect} {last : Option Stream}
      (honline : (c.send && c.peerIp != "") = true)
      (hmove : Move c ⟨silent, l.leftRetry = true, True, True⟩ id l.left effects last) :
      LeftStep silent id l (l.acts effects last)
  | create {l : Link} {c : Context} {serviceId : QString} {effects : List Effect}
      {last : Option Stream} (honline : (c.send && c.peerIp != "") = true)
      (hcreate : Create c serviceId id l.left effects last) :
      LeftStep silent id l (l.acts effects last)
  | receive {l : Link} {c : Context} {remote : QString} {frame : Frame} {rest : List Frame}
      {effects : List Effect} {last : Option Stream} (honline : (c.send && c.peerIp != "") = true)
      (hback : l.back = frame :: rest) (hreceive : Receive c remote id frame l.left effects last) :
      LeftStep silent id l ({ l with back := rest }.acts effects last)
  | timer {l : Link} (retry : Bool) (hretry : retry = true → l.leftRetry = true ∨
      ∃ stream, l.left = some stream ∧ stream.dialer = true) :
      LeftStep silent id l { l with leftRetry := retry }

abbrev LeftSteps (silent : Prop) (id : UInt32) : Link → Link → Prop :=
  Relation.ReflTransGen (LeftStep silent id)

variable {l l' : Link}

theorem Sound.leftStep {silent : Prop} (h : l.Sound) (hstep : LeftStep silent id l l') : l'.Sound := by
  cases hstep with
  | move _ hmove => exact ⟨Stream.Sound.move hmove h.1, h.2⟩
  | create _ hcreate => exact ⟨Stream.Sound.create hcreate, h.2⟩
  | receive _ _ hreceive => exact ⟨Stream.Sound.receive hreceive h.1, h.2⟩
  | timer => exact h

/-- What the steps of the left side keep, given the invariant of the streams. -/
theorem LeftSteps.induction {silent : Prop} {P : Link → Prop}
    (hstep : ∀ l l' : Link, l.Sound → LeftStep silent id l l' → P l → P l')
    (hsteps : LeftSteps silent id l l') (hsound : l.Sound) (hP : P l) : l'.Sound ∧ P l' := by
  induction hsteps with
  | refl => exact ⟨hsound, hP⟩
  | tail _ hlast ih => exact ⟨ih.1.leftStep hlast, hstep _ _ ih.1 hlast ih.2⟩

end Link

/-- More is allowed under a larger allowance. -/
theorem Move.mono {c : Context} {allow allow' : Allowance}
    {first last : Option Stream} (hsilent : allow.silent → allow'.silent)
    (hstale : allow.stale → allow'.stale) (harrive : allow.arrive → allow'.arrive)
    (hconnect : allow.connect → allow'.connect) (h : Move c allow id first effects last) :
    Move c allow' id first effects last := by
  cases h with
  | arrive stream data h hstate => exact .arrive stream data (harrive h) hstate
  | read stream hready hwindow hchunk => exact .read stream hready hwindow hchunk
  | write stream bytes hready hpending hbytes => exact .write stream bytes hready hpending hbytes
  | drain stream bytes hpos hmax hbuffer => exact .drain stream bytes hpos hmax hbuffer
  | retry stream hready hdialer hattempts => exact .retry stream hready hdialer hattempts
  | redial stream service hready hservice hstate =>
    exact .redial stream service hready hservice hstate
  | connect stream h hstate => exact .connect stream (hconnect h) hstate
  | signal _ serviceId => exact .signal first serviceId
  | close stream reason => exact .close stream reason
  | giveUp stream text hready h => exact .giveUp stream text hready (h.imp_right hstale)
  | drop stream reason h => exact .drop stream reason (hsilent h)

namespace Link

variable {silent : Prop} {id : UInt32} {l : Link}

theorem LeftStep.mono {silent' : Prop} {l' : Link} (hsilent : silent → silent')
    (h : LeftStep silent id l l') : LeftStep silent' id l l' := by
  cases h with
  | move honline hmove =>
    refine .move honline (Move.mono ?_ ?_ ?_ ?_ hmove)
    · exact hsilent
    all_goals exact fun hallowed ↦ hallowed
  | create honline hcreate => exact .create honline hcreate
  | receive honline hback hreceive => exact .receive honline hback hreceive
  | timer retry hretry => exact .timer retry hretry

variable {last : Option Stream}

/-- A trace of the left stream is a sequence of steps of the link. -/
theorem leftSteps_of_trace {step : Option Stream → List Effect → Option Stream → Prop}
    {first : Option Stream}
    (hstep : ∀ (l' : Link) labels last, l'.leftRetry = l.leftRetry → step l'.left labels last →
    LeftStep silent id l' (l'.acts labels last))
    (h : Trace step first effects last) (hfirst : l.left = first) :
    LeftSteps silent id l (l.acts effects last) := by
  subst hfirst
  induction h with
  | refl => simpa [acts] using Relation.ReflTransGen.refl
  | @tail middle last labels new _ hlast ih =>
    rw [acts_append labels new middle]
    exact ih.tail (hstep _ _ _ rfl hlast)

theorem leftSteps_of_moves {c : Context} {allow : Allowance} (honline : c.Online)
    (hsilent : allow.silent → silent) (hstale : allow.stale → l.leftRetry = true)
    (h : Moves c allow id l.left effects last) : LeftSteps silent id l (l.acts effects last) := by
  refine leftSteps_of_trace (fun l' labels last hretry hmove ↦ .move honline ?_) h rfl
  rw [hretry]
  exact hmove.mono hsilent hstale (fun _ ↦ trivial) fun _ ↦ trivial

/-- The pending retry changes with the steps of an action: what becomes pending is taken up
first and what has fired is let go last. -/
theorem leftSteps_around {retry : Bool} (hretry : retry = true → l.leftRetry = true ∨
    ∃ stream, l.left = some stream ∧ stream.dialer = true)
    (h : LeftSteps silent id { l with leftRetry := l.leftRetry || retry }
    ({ l with leftRetry := l.leftRetry || retry }.acts effects last)) :
    LeftSteps silent id l { l.acts effects last with leftRetry := retry } := by
  have htake : LeftStep silent id l { l with leftRetry := l.leftRetry || retry } := by
    refine .timer _ fun hpending ↦ ?_
    rcases Bool.or_eq_true_iff.mp hpending with hold | hnew
    · exact .inl hold
    · exact hretry hnew
  refine (Relation.ReflTransGen.head htake h).tail (.timer retry fun hpending ↦ .inl ?_)
  exact Bool.or_eq_true_iff.mpr (.inr hpending)

end Link

/-! ## Actions as steps of links -/

namespace Pair

/-- A stream is dropped by an action without a word to the peer. -/
def silences (p : Pair) (id : UInt32) : Action → Prop
  | .handle side event => ((p.manager side).allowance event id).silent
  | .deliver _ _ => False

def link (p : Pair) (side : Side) (id : UInt32) : Link where
  left := (p.manager side).findStream id
  right := (p.manager side.other).findStream id
  fly := p.inFlight side id
  back := p.inFlight side.other id
  leftLog := about id (p.manager side).log
  rightLog := about id (p.manager side.other).log
  leftRetry := id ∈ (p.manager side).retryTimers
  rightRetry := id ∈ (p.manager side.other).retryTimers

theorem link_other (p : Pair) (side : Side) (id : UInt32) :
    p.link side.other id = (p.link side id).swap := by
  simp [link, Link.swap]

theorem back_link (p : Pair) (side : Side) (id : UInt32) : (p.link side id).back =
    ((frames (p.manager side.other).log).drop (p.delivered side)).filter
      fun frame ↦ frame.id = id := by
  simp [link, inFlight, travelling]

/-- The link after the manager of one side has become `m`. -/
theorem link_update {m : TunnelManager} {new : List Effect}
    {delivered : Side → ℕ} (id : UInt32) (hlog : m.log = (p.manager side).log ++ new)
    (hdelivered : p.delivered side.other ≤ (frames (p.manager side).log).length)
    (hother : delivered side.other = p.delivered side.other) :
    link ⟨Function.update p.manager side m, delivered⟩ side id =
      { { p.link side id with back := ((frames (p.manager side.other).log).drop
          (delivered side)).filter fun frame ↦ frame.id = id }.acts (about id new) (m.findStream id)
        with leftRetry := id ∈ m.retryTimers } := by
  have hmanager : update p.manager side m side.other = p.manager side.other :=
    update_of_ne (Side.other_ne side) m p.manager
  simp only [link, Link.acts, inFlight, travelling, update_self, hmanager, hlog, hother,
    about_append, frames_append, frames_about, Side.other_other,
    List.drop_append_of_le_length hdelivered, List.filter_append]

theorem leftSteps_handle (h : p.Session peerIp) (hpeer : ∀ side, peerIp side ≠ "") {event : Event}
    (hsteady : event.steady (peerIp side) = true) :
    Link.LeftSteps (p.silences id (.handle side event)) id (p.link side id)
      ((p.act json (.handle side event)).link side id) := by
  have hhandling := (p.manager side).handling_step json event
  have honline : ((p.manager side).context.send && (p.manager side).context.peerIp != "") = true := by
    simp [TunnelManager.context, (h.online side).send, (h.online side).peer, hpeer side]
  have hlink := link_update id ((p.manager side).log_step json event)
    (by simpa using h.delivered_le side.other) rfl
  rw [← back_link] at hlink
  rw [act, hlink]
  have hturn := (p.manager side).turn_step json event id
  refine Link.leftSteps_around ?_ ?_
  · intro hpending
    simpa [link] using hhandling.timers (of_decide_eq_true hpending)
  generalize about id ((p.manager side).emitted json event) = effects at hturn
  cases hturn with
  | moves hmoves =>
    refine Link.leftSteps_of_moves honline (fun hsilent ↦ hsilent) ?_ hmoves
    intro hstale
    exact Bool.or_eq_true_iff.mpr (.inl (decide_eq_true hstale))
  | create _ htrace =>
    exact Link.leftSteps_of_trace (fun _ _ _ _ hcreate ↦ .create honline hcreate) htrace rfl
  | receive => simp [Event.steady] at hsteady

theorem leftSteps_deliver (hjson : json.Lawful)
    (h : p.Session peerIp) (hpeer : ∀ side, peerIp side ≠ "") (writes : List WriteResult) :
    Link.LeftSteps (p.silences id (.deliver side writes)) id (p.link side id)
      ((p.act json (.deliver side writes)).link side id) := by
  unfold act
  dsimp only
  split
  · exact .refl
  · next frame rest htravelling =>
    have honline : ((p.manager side).context.send && (p.manager side).context.peerIp != "") =
        true := by
      simp [TunnelManager.context, (h.online side).send, (h.online side).peer, hpeer side]
    have hsent : frame ∈ frames (p.manager side.other).log :=
      List.mem_of_mem_drop (htravelling ▸ List.mem_cons_self)
    have hreceives := TunnelManager.receives_payload hjson
      ((h.online side).peer ▸ hpeer side) ((h.online side.other).data_le frame hsent) writes
    obtain ⟨left, middle, right, hlog, hreceive, hmoves, -⟩ := hreceives.receive
    have hdrop : (frames (p.manager side.other).log).drop
        (update p.delivered side (p.delivered side + 1) side) = rest := by
      rw [travelling, Side.other_other] at htravelling
      rw [update_self, ← List.drop_drop, htravelling]
      rfl
    rw [link_update id hlog (by simpa using h.delivered_le side.other)
      (update_of_ne (Side.other_ne side) _ _), hdrop, hreceives.timers]
    have hstream : ∀ effect ∈ left ++ right, effect.stream = some frame.id :=
      List.forall_mem_append.mpr ⟨hreceive.stream_eq, hmoves.stream_eq⟩
    by_cases hid : frame.id = id
    · subst hid
      have hback : (p.link side frame.id).back =
          frame :: rest.filter fun other ↦ other.id = frame.id := by
        simp [link, inFlight, htravelling]
      rw [about_eq_self hstream, Link.acts_append left right middle]
      exact .head (.receive honline hback hreceive)
        (Link.leftSteps_of_moves honline (fun hsilent ↦ hsilent) False.elim hmoves)
    · have hback : (p.link side id).back = rest.filter fun other ↦ other.id = id := by
        simp [link, inFlight, htravelling, hid]
      rw [about_eq_nil (Ne.symm hid) hstream, hreceives.others id (Ne.symm hid), ← hback]
      simp only [Link.acts, frames_nil, List.append_nil]
      exact .refl

variable {action : Action}

theorem leftSteps_act (hjson : json.Lawful)
    (h : p.Session peerIp) (hpeer : ∀ side, peerIp side ≠ "")
    (hsteady : action.steady peerIp = true) (id : UInt32) :
    Link.LeftSteps (p.silences id action) id (p.link action.side id)
      ((p.act json action).link action.side id) := by
  cases action with
  | handle side event => exact leftSteps_handle h hpeer hsteady
  | deliver side writes => exact leftSteps_deliver hjson h hpeer writes

theorem Session.sound (h : p.Session peerIp) (side : Side) (id : UInt32) : (p.link side id).Sound :=
  ⟨(h.online side).bounded.sound id, (h.online side.other).bounded.sound id⟩

variable {P : Link → Prop}

/-- What the steps of either side keep, every action keeps. -/
theorem link_act_induction (hjson : json.Lawful)
    (h : p.Session peerIp) (hpeer : ∀ side, peerIp side ≠ "")
    (hsteady : action.steady peerIp = true)
    (hleft : ∀ l l' : Link, l.Sound → Link.LeftStep (p.silences id action) id l l' → P l → P l')
    (hright : ∀ l l' : Link, l.Sound → Link.LeftStep (p.silences id action) id l l' →
    P l.swap → P l'.swap) (hP : P (p.link side id)) : P ((p.act json action).link side id) := by
  have hsteps := leftSteps_act hjson h hpeer hsteady id
  have hsound := h.sound action.side id
  rcases Side.eq_or_eq_other side action.side with hside | hside
  · rw [hside] at hsteps hsound
    refine (Link.LeftSteps.induction (P := fun l ↦ P l) hleft hsteps hsound hP).2
  · have hlink : ∀ q : Pair, q.link action.side id = (q.link side id).swap := by
      intro q
      rw [hside, link_other]
    rw [hlink, hlink] at hsteps
    rw [hlink] at hsound
    exact (Link.LeftSteps.induction (P := fun l ↦ P l.swap) hright hsteps hsound hP).2

/-- What the steps of either side keep, every run keeps. -/
theorem link_run_induction (hjson : json.Lawful)
    (h : p.Session peerIp) (hpeer : ∀ side, peerIp side ≠ "") {actions : List Action}
    (hsteady : ∀ action ∈ actions, action.steady peerIp = true)
    (hleft : ∀ l l' : Link, l.Sound → Link.LeftStep True id l l' → P l → P l')
    (hright : ∀ l l' : Link, l.Sound → Link.LeftStep True id l l' → P l.swap → P l'.swap)
    (hP : P (p.link side id)) : P ((p.run json actions).link side id) := by
  refine (List.foldlRecOn actions (act json) (motive := fun q ↦ q.Session peerIp ∧
    P (q.link side id)) ⟨h, hP⟩ fun q hq action haction ↦ ?_).2
  have hstep := hsteady action haction
  refine ⟨hq.1.act hstep, link_act_induction hjson hq.1 hpeer hstep ?_ ?_ hq.2⟩
  · exact fun l l' hsound hmove ↦ hleft l l' hsound (hmove.mono fun _ ↦ trivial)
  · exact fun l l' hsound hmove ↦ hright l l' hsound (hmove.mono fun _ ↦ trivial)

theorem link_start (peerIp : Side → QString) (side : Side) (id : UInt32) :
    (start peerIp).link side id = Link.idle := rfl

end Pair

end DdeCooperation.Tunnel
