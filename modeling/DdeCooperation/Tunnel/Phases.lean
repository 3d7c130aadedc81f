import DdeCooperation.Tunnel.Link

/-!
# The life of a stream whose id is fresh

As long as no id is announced twice, a link goes through three phases. Nothing
has happened; one side has announced the stream and its OPEN travels; the OPEN
has arrived and one side is the dialer, the other one is not. In the last phase
a stream that is gone does not come back. The invariants of the following modules
rest on this order only.
-/

namespace DdeCooperation.Tunnel

open Qt Foundations List

variable {l : Link} {id : UInt32} {allow : Allowance} {remote serviceId : QString} {frame : Frame}
  {rest : List Frame}

/-! ## What a log has moved -/

/-- The bytes `pump` has read from the local socket. -/
def readBytes (log : List Effect) : QByteArray :=
  log.flatMap fun
    | .read _ chunk => chunk
    | _ => []

/-- The bytes `flushPending` has handed to the local socket. -/
def writtenBytes (log : List Effect) : QByteArray :=
  log.flatMap fun
    | .write _ chunk => chunk
    | _ => []

@[simp] theorem readBytes_append (left right : List Effect) :
    readBytes (left ++ right) = readBytes left ++ readBytes right :=
  flatMap_append

@[simp] theorem writtenBytes_append (left right : List Effect) :
    writtenBytes (left ++ right) = writtenBytes left ++ writtenBytes right :=
  flatMap_append

/-- How often a log announces a stream. -/
def opens (log : List Effect) : ℕ :=
  (frames log).countP fun frame ↦ frame.type = .tunnelOpen

@[simp] theorem opens_append (left right : List Effect) :
    opens (left ++ right) = opens left + opens right := by
  simp [opens]

/-- No bytes have been moved. -/
def Still (log : List Effect) : Prop := readBytes log = [] ∧ writtenBytes log = []

theorem Still.append {left right : List Effect} (hleft : Still left) (hright : Still right) :
    Still (left ++ right) := by
  simp [Still, hleft.1, hleft.2, hright.1, hright.2]

theorem Context.sends_eq {c : Context} (honline : c.Online)
    (frame : Frame) : c.sends frame = [.send c.peerIp frame] :=
  if_pos honline

namespace Link

/-! ## Phases -/

/-- The stream has been announced at most once. -/
def Fresh (l : Link) : Prop := opens l.leftLog + opens l.rightLog ≤ 1

structure Untouched (l : Link) : Prop where
  left : l.left = none
  right : l.right = none
  fly : l.fly = []
  back : l.back = []
  leftStill : Still l.leftLog
  rightStill : Still l.rightLog
  leftRetry : l.leftRetry = false
  rightRetry : l.rightRetry = false

/-- The OPEN of the left side travels. Only a CLOSE can have been sent after it. -/
structure Announced (id : UInt32) (l : Link) : Prop where
  left : ∀ stream ∈ l.left, stream.dialer = false ∧ stream.ready = false ∧ stream.pending = []
  right : l.right = none
  fly : ∃ service token rest, l.fly = .tunnelOpen id service token :: rest ∧
    ∀ frame ∈ rest, frame = .tunnelClose id
  back : l.back = []
  leftStill : Still l.leftLog
  rightStill : Still l.rightLog
  opened : 0 < opens l.leftLog
  leftRetry : l.leftRetry = false
  rightRetry : l.rightRetry = false

/-- The OPEN of the left side has arrived. -/
structure Answered (l : Link) : Prop where
  left : ∀ stream ∈ l.left, stream.dialer = false
  right : ∀ stream ∈ l.right, stream.dialer = true
  fly : ∀ frame ∈ l.fly, frame.type ≠ .tunnelOpen
  back : ∀ frame ∈ l.back, frame.type ≠ .tunnelOpen
  opened : 0 < opens l.leftLog
  leftRetry : l.leftRetry = false

inductive Phase (id : UInt32) (l : Link) : Prop
  | untouched (h : l.Untouched)
  | announced (h : l.Announced id)
  | announcedRight (h : l.swap.Announced id)
  | answered (h : l.Answered)
  | answeredRight (h : l.swap.Answered)

theorem Untouched.swap (h : l.Untouched) : l.swap.Untouched :=
  ⟨h.right, h.left, h.back, h.fly, h.rightStill, h.leftStill, h.rightRetry, h.leftRetry⟩

theorem Phase.swap (h : l.Phase id) : l.swap.Phase id := by
  cases h with
  | untouched h => exact .untouched h.swap
  | announced h => exact .announcedRight h
  | announcedRight h => exact .announced h
  | answered h => exact .answeredRight h
  | answeredRight h => exact .answered h

theorem Fresh.swap (h : l.Fresh) : l.swap.Fresh := by
  unfold Fresh at h ⊢
  simp only [Link.swap]
  omega

/-- A link of an action is fresh when it is fresh afterwards. -/
theorem Fresh.of_leftStep {silent : Prop} {l' : Link}
    (h : l'.Fresh) (hstep : LeftStep silent id l l') : l.Fresh := by
  unfold Fresh at h ⊢
  cases hstep with
  | move | create | receive =>
    simp only [acts, opens_append] at h
    omega
  | timer => exact h

/-! ## Moves and frames -/

section

variable {c : Context} {id : UInt32} {first last : Option Stream} {effects : List Effect}

/-- No move announces a stream. -/
theorem type_ne_of_move (h : Move c allow id first effects last) :
    ∀ frame ∈ frames effects, frame.type ≠ .tunnelOpen := by
  intro frame hframe
  obtain ⟨target, heffect⟩ := mem_frames.mp hframe
  cases h with
  | connect => split at heffect <;> simp_all [Frame.type]
  | _ => simp_all [Frame.type]

theorem type_ne_of_receive (h : Receive c remote id frame first effects last) :
    ∀ answer ∈ frames effects, answer.type ≠ .tunnelOpen := by
  intro answer hanswer
  obtain ⟨target, heffect⟩ := mem_frames.mp hanswer
  cases h <;> simp_all [Frame.type]

/-- Only an OPEN makes a stream out of nothing. -/
theorem descends_of_receive
    (h : Receive c remote id frame first effects last) (htype : frame.type ≠ .tunnelOpen) :
    Descends first last := by
  rcases h.origin with hdescends | ⟨serviceId, token, service, -, -, rfl, -⟩
  · exact hdescends
  · exact absurd rfl htype

/-- What happens to nothing. -/
theorem eq_none_of_move (h : Move c allow id none effects last) :
    last = none ∧ frames effects = [] ∧ Still effects := by
  cases h
  exact ⟨rfl, rfl, rfl, rfl⟩

theorem opens_of_create (honline : c.Online)
    (h : Create c serviceId id first effects last) : opens effects = 1 := by
  cases h with
  | abandon hoffline => simp [honline] at hoffline
  | announce => rfl

/-- A stream that waits for the answer to its OPEN can only close. -/
theorem waiting_move (hstale : ¬ allow.stale)
    (hfirst : ∀ stream ∈ first, stream.Sound ∧ stream.dialer = false ∧ stream.ready = false ∧
    stream.pending = []) (h : Move c allow id first effects last) :
    (∀ stream ∈ last, stream.dialer = false ∧ stream.ready = false ∧ stream.pending = []) ∧
      (∀ frame ∈ frames effects, frame = .tunnelClose id) ∧ Still effects := by
  cases h with
  | arrive stream =>
    refine ⟨?_, by simp, rfl, rfl⟩
    rintro _ ⟨⟩
    exact (hfirst stream rfl).2
  | signal => exact ⟨fun stream hstream ↦ (hfirst stream hstream).2, by simp [frames], rfl, rfl⟩
  | drop => exact ⟨by simp, by simp [frames], rfl, rfl⟩
  | close stream reason =>
    refine ⟨by simp, ?_, ?_⟩
    · intro frame hframe
      obtain ⟨target, heffect⟩ := mem_frames.mp hframe
      simp_all
    · unfold Context.sends
      split <;> exact ⟨rfl, rfl⟩
  | read stream hready | write stream bytes hready => simp [(hfirst stream rfl).2.2.1] at hready
  | retry stream _ hdialer => simp [(hfirst stream rfl).2.1] at hdialer
  | giveUp stream _ _ hdialer => simp [(hfirst stream rfl).2.1, hstale] at hdialer
  | drain stream bytes hpos _ hbuffer =>
    obtain ⟨hsound, -, hready, -⟩ := hfirst stream rfl
    rw [(hsound.waiting hready).2.2.2.2, length_nil] at hbuffer
    omega
  | redial stream _ _ _ hstate =>
    obtain ⟨hsound, hdialer, -⟩ := hfirst stream rfl
    exact absurd (hsound.accepted hdialer) hstate
  | connect stream _ hstate =>
    obtain ⟨hsound, hdialer, -⟩ := hfirst stream rfl
    simp [hsound.accepted hdialer] at hstate

end

/-! ## Steps -/

section

variable {silent : Prop} {id : UInt32} {l : Link} {c : Context} {effects : List Effect}
  {last : Option Stream}

theorem Untouched.create (h : l.Untouched) (honline : c.Online)
    (hcreate : Create c serviceId id l.left effects last) : (l.acts effects last).Announced id := by
  rw [h.left] at hcreate
  cases hcreate with
  | abandon hoffline => simp [honline] at hoffline
  | announce token hid =>
    refine { h with
      left := ?_, fly := ⟨serviceId, token, [], ?_, by simp⟩
      leftStill := h.leftStill.append ⟨rfl, rfl⟩, opened := ?_ }
    · rintro _ ⟨⟩
      exact ⟨rfl, rfl, rfl⟩
    · simp [acts, h.fly, frames]
    · simp [acts, opens, frames, Frame.type]

/-- A stream that is announced once more is not fresh. -/
theorem not_fresh_create (hopened : 0 < opens l.leftLog + opens l.rightLog) (honline : c.Online)
    (hcreate : Create c serviceId id l.left effects last) : ¬ (l.acts effects last).Fresh := by
  simp only [Fresh, acts, opens_append, opens_of_create honline hcreate]
  omega

theorem Announced.move (h : l.Announced id) (hsound : l.Sound)
    (hmove : Move c ⟨silent, l.leftRetry = true, True, True⟩ id l.left effects last) :
    (l.acts effects last).Announced id := by
  obtain ⟨hlast, hframes, hstill⟩ := waiting_move (by simp [h.leftRetry])
    (fun stream hstream ↦ ⟨hsound.1 stream hstream, h.left stream hstream⟩) hmove
  obtain ⟨service, token, rest, hfly, hrest⟩ := h.fly
  refine { h with
    left := hlast, fly := ⟨service, token, rest ++ frames effects, by simp [acts, hfly], ?_⟩
    leftStill := h.leftStill.append hstill, opened := ?_ }
  · exact forall_mem_append.mpr ⟨hrest, hframes⟩
  · simp only [acts, opens_append]
    exact Nat.add_pos_left h.opened _

/-- The OPEN comes first. -/
theorem Announced.arriving (h : l.swap.Announced id) (hback : l.back = frame :: rest) :
    (∃ service token, frame = .tunnelOpen id service token) ∧
      (∀ other ∈ rest, other = .tunnelClose id) ∧ l.left = none ∧ l.fly = [] := by
  obtain ⟨service, token, closes, hfly, hcloses⟩ := h.fly
  obtain ⟨rfl, rfl⟩ : frame = .tunnelOpen id service token ∧ rest = closes := by
    simpa [Link.swap, hback] using hfly
  exact ⟨⟨service, token, rfl⟩, hcloses, h.right, h.back⟩

/-- The OPEN arrives. -/
theorem Announced.receive (h : l.swap.Announced id) (hback : l.back = frame :: rest)
    (hreceive : Receive c remote id frame l.left effects last) :
    ({ l with back := rest }.acts effects last).swap.Answered := by
  obtain ⟨⟨service, token, rfl⟩, hcloses, hnone, hempty⟩ := h.arriving hback
  rw [hnone] at hreceive
  refine ⟨fun stream hstream ↦ (h.left stream hstream).1, ?_, ?_, ?_, h.opened, h.leftRetry⟩
  · cases hreceive with
    | openIgnore | openRefuse => simp [acts, Link.swap]
    | openDial =>
      rintro _ ⟨⟩
      rfl
  · intro frame hframe
    rw [hcloses frame hframe]
    simp [Frame.type]
  · simpa [Link.swap, acts, hempty] using type_ne_of_receive hreceive

/-- The left side goes on. -/
theorem Answered.acts (h : l.Answered) {back : List Frame} (hback : ∀ frame ∈ back, frame ∈ l.back)
    (hdescends : Descends l.left last)
    (hframes : ∀ frame ∈ frames effects, frame.type ≠ .tunnelOpen) :
    ({ l with back := back }.acts effects last).Answered := by
  refine ⟨?_, h.right, ?_, fun frame hframe ↦ h.back frame (hback frame hframe), ?_, h.leftRetry⟩
  · intro stream hstream
    obtain ⟨origin, horigin, -, -, hdialer⟩ := hdescends stream hstream
    exact hdialer ▸ h.left origin horigin
  · exact forall_mem_append.mpr ⟨h.fly, hframes⟩
  · simp only [Link.acts, opens_append]
    exact Nat.add_pos_left h.opened _

/-- The right side goes on. -/
theorem Answered.acts_swap (h : l.swap.Answered) {back : List Frame}
    (hback : ∀ frame ∈ back, frame ∈ l.back) (hdescends : Descends l.left last)
    (hframes : ∀ frame ∈ frames effects, frame.type ≠ .tunnelOpen) :
    ({ l with back := back }.acts effects last).swap.Answered := by
  refine ⟨h.left, ?_, fun frame hframe ↦ h.fly frame (hback frame hframe), ?_, h.opened,
    h.leftRetry⟩
  · intro stream hstream
    obtain ⟨origin, horigin, -, -, hdialer⟩ := hdescends stream hstream
    exact hdialer ▸ h.right origin horigin
  · exact forall_mem_append.mpr ⟨h.back, hframes⟩

theorem Untouched.move (h : l.Untouched) (hmove : Move c allow id l.left effects last) :
    (l.acts effects last).Untouched := by
  rw [h.left] at hmove
  obtain ⟨hlast, hnone, hstill⟩ := eq_none_of_move hmove
  exact { h with left := hlast, fly := by simp [acts, h.fly, hnone], leftStill := h.leftStill.append hstill }

/-- The side that has not received the OPEN yet has nothing to do. -/
theorem Announced.move_swap (h : l.swap.Announced id)
    (hmove : Move c allow id l.left effects last) : (l.acts effects last).swap.Announced id := by
  have hleft : l.left = none := h.right
  rw [hleft] at hmove
  obtain ⟨hlast, hnone, hstill⟩ := eq_none_of_move hmove
  exact { h with
    right := hlast, back := by simpa [Link.swap, acts, hnone] using h.back
    rightStill := h.rightStill.append hstill }

theorem Phase.move (h : l.Phase id) (hsound : l.Sound)
    (hmove : Move c ⟨silent, l.leftRetry = true, True, True⟩ id l.left effects last) :
    (l.acts effects last).Phase id := by
  have hdescends := hmove.descends
  have hframes := type_ne_of_move hmove
  cases h with
  | untouched h => exact .untouched (h.move hmove)
  | announced h => exact .announced (h.move hsound hmove)
  | announcedRight h => exact .announcedRight (h.move_swap hmove)
  | answered h => exact .answered (h.acts (fun _ hframe ↦ hframe) hdescends hframes)
  | answeredRight h => exact .answeredRight (h.acts_swap (fun _ hframe ↦ hframe) hdescends hframes)

/-- Under fresh ids only an untouched stream is created. -/
theorem Phase.untouched_of_create (h : l.Phase id) (honline : c.Online)
    (hcreate : Create c serviceId id l.left effects last) (hfresh : (l.acts effects last).Fresh) :
    l.Untouched := by
  have hopened : ¬ 0 < opens l.leftLog + opens l.rightLog :=
    fun hopened ↦ not_fresh_create hopened honline hcreate hfresh
  cases h with
  | untouched h => exact h
  | announced h => exact absurd (Nat.add_pos_left h.opened _) hopened
  | announcedRight h => exact absurd (Nat.add_pos_right _ h.opened) hopened
  | answered h => exact absurd (Nat.add_pos_left h.opened _) hopened
  | answeredRight h => exact absurd (Nat.add_pos_right _ h.opened) hopened

/-- An OPEN is received by a side that has nothing yet; afterwards no OPEN comes. -/
theorem Phase.of_receive (h : l.Phase id) (hback : l.back = frame :: rest) :
    l.swap.Announced id ∨ frame.type ≠ .tunnelOpen ∧ (l.Answered ∨ l.swap.Answered) := by
  cases h with
  | untouched h | announced h => simp [h.back] at hback
  | announcedRight h => exact .inl h
  | answered h => exact .inr ⟨h.back frame (by simp [hback]), .inl h⟩
  | answeredRight h =>
    have hfly : ∀ frame ∈ l.back, frame.type ≠ .tunnelOpen := h.fly
    exact .inr ⟨hfly frame (by simp [hback]), .inr h⟩

theorem Phase.receive (h : l.Phase id)
    (hback : l.back = frame :: rest) (hreceive : Receive c remote id frame l.left effects last) :
    ({ l with back := rest }.acts effects last).Phase id := by
  have hrest : ∀ other ∈ rest, other ∈ l.back := by simp +contextual [hback]
  rcases h.of_receive hback with hannounced | ⟨htype, hanswered | hanswered⟩
  · exact .answeredRight (hannounced.receive hback hreceive)
  · exact .answered (hanswered.acts hrest (descends_of_receive hreceive htype)
      (type_ne_of_receive hreceive))
  · exact .answeredRight (hanswered.acts_swap hrest (descends_of_receive hreceive htype)
      (type_ne_of_receive hreceive))

/-- A retry is only taken up by the side that dials. -/
theorem retry_eq_false {retry : Bool} (hretry : retry = true →
    l.leftRetry = true ∨ ∃ stream, l.left = some stream ∧ stream.dialer = true)
    (hnone : l.leftRetry = false) (hleft : ∀ stream ∈ l.left, stream.dialer = false) :
    retry = false := by
  cases retry with
  | false => rfl
  | true =>
    rcases hretry rfl with hold | ⟨stream, hstream, hdialer⟩
    · simp [hnone] at hold
    · simp [hleft stream hstream] at hdialer

section

variable {retry : Bool} (hretry : retry = true →
  l.leftRetry = true ∨ ∃ stream, l.left = some stream ∧ stream.dialer = true)

include hretry

theorem Untouched.timer (h : l.Untouched) : { l with leftRetry := retry }.Untouched :=
  { h with leftRetry := retry_eq_false hretry h.leftRetry (by simp [h.left]) }

theorem Announced.timer (h : l.Announced id) : { l with leftRetry := retry }.Announced id :=
  { h with leftRetry := retry_eq_false hretry h.leftRetry fun stream hstream ↦ (h.left stream hstream).1 }

theorem Announced.timer_swap (h : l.swap.Announced id) :
    { l with leftRetry := retry }.swap.Announced id := by
  have hleft : l.left = none := h.right
  exact { h with rightRetry := retry_eq_false hretry h.rightRetry (by simp [hleft]) }

theorem Answered.timer (h : l.Answered) : { l with leftRetry := retry }.Answered :=
  { h with leftRetry := retry_eq_false hretry h.leftRetry h.left }

theorem Phase.timer (h : l.Phase id) : { l with leftRetry := retry }.Phase id := by
  cases h with
  | untouched h => exact .untouched (h.timer hretry)
  | announced h => exact .announced (h.timer hretry)
  | announcedRight h => exact .announcedRight (h.timer_swap hretry)
  | answered h => exact .answered (h.timer hretry)
  | answeredRight h =>
    exact .answeredRight { h with }

end

theorem Phase.leftStep {l' : Link} (h : l.Phase id) (hsound : l.Sound)
    (hstep : LeftStep silent id l l') (hfresh : l'.Fresh) : l'.Phase id := by
  cases hstep with
  | move _ hmove => exact h.move hsound hmove
  | create honline hcreate =>
    exact .announced ((h.untouched_of_create honline hcreate hfresh).create honline hcreate)
  | receive _ hback hreceive => exact h.receive hback hreceive
  | timer _ hretry => exact h.timer hretry

end

theorem phase_idle (id : UInt32) : idle.Phase id :=
  .untouched ⟨rfl, rfl, rfl, rfl, ⟨rfl, rfl⟩, ⟨rfl, rfl⟩, rfl, rfl⟩

end Link

/-! ## Runs with fresh ids -/

theorem opens_about (id : UInt32) (log : List Effect) :
    opens (about id log) = ((frames log).filterMap Frame.announces).count id := by
  rw [opens, frames_about, countP_filter, count_filterMap]
  congr 1
  funext frame
  rw [Bool.eq_iff_iff, Bool.and_eq_true, decide_eq_true_iff, decide_eq_true_iff]
  cases frame <;> simp [Frame.type, Frame.announces, Frame.id]

namespace Pair

theorem FreshIds.link {p : Pair} (h : p.FreshIds) (side : Side) (id : UInt32) :
    (p.link side id).Fresh := by
  have hcount := nodup_iff_count_le_one.mp h id
  rw [announced, filterMap_append, count_append, ← opens_about, ← opens_about] at hcount
  have hnear : (p.link .near id).Fresh := hcount
  cases side with
  | near => exact hnear
  | far => exact hnear.swap

/-- What the steps of either side keep as long as ids are fresh holds in every state that two
managers reach with fresh ids. -/
theorem fresh_run_induction {json : QJsonDocument} (hjson : json.Lawful) {peerIp : Side → QString}
    (hpeer : ∀ side, peerIp side ≠ "") {actions : List Action}
    (hsteady : ∀ action ∈ actions, action.steady peerIp = true)
    (hfresh : ((start peerIp).run json actions).FreshIds) {P : Link → Prop}
    (hleft : ∀ l l' : Link, l.Sound → l.Phase id → l'.Fresh → Link.LeftStep True id l l' →
    P l → P l')
    (hright : ∀ l l' : Link, l.Sound → l.Phase id → l'.Fresh → Link.LeftStep True id l l' →
    P l.swap → P l'.swap) (hidle : P Link.idle) (side : Side) : P (((start peerIp).run json actions).link side id) := by
  refine (link_run_induction hjson (session_start peerIp) hpeer hsteady
    (P := fun l ↦ l.Fresh → l.Phase id ∧ P l) ?_ ?_ (fun _ ↦ ⟨Link.phase_idle id, hidle⟩)
    (hfresh.link side id)).2
  · intro l l' hsound hstep h hfresh'
    obtain ⟨hphase, hP⟩ := h (hfresh'.of_leftStep hstep)
    exact ⟨hphase.leftStep hsound hstep hfresh', hleft l l' hsound hphase hfresh' hstep hP⟩
  · intro l l' hsound hstep h hfresh'
    have hfresh'' : l'.Fresh := hfresh'.swap
    obtain ⟨hphase, hP⟩ := h (hfresh''.of_leftStep hstep).swap
    exact ⟨(hphase.swap.leftStep hsound hstep hfresh'').swap,
      hright l l' hsound hphase.swap hfresh'' hstep hP⟩

end Pair

end DdeCooperation.Tunnel
