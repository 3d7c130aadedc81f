import DdeCooperation.Tunnel.Closing

/-!
# When both sides have come to rest

A stream is destroyed in about ten places, and each of them decides for itself
how the peer learns of it: by a CLOSE, by a negative OPEN_ACK, or not at all. When
nothing travels and no connect timer runs, both sides nevertheless have the same
streams, provided that nobody has dropped a stream without a word. The only call
that does so while the session stays is `stopAll`, for streams that were dialled.
-/

namespace DdeCooperation.Tunnel

open Qt Foundations List

variable {remote : QString} {frame : Frame} {rest : List Frame} {p : Pair}

/-- After this frame the stream is gone at its sender. -/
def Frame.ending : Frame → Bool
  | tunnelOpenAck _ ok _ _ => !ok
  | tunnelClose _ => true
  | _ => false

section

variable {c : Context} {allow : Allowance} {id : UInt32} {first last : Option Stream}
  {effects : List Effect}

/-- A stream that was not dialled goes with a CLOSE. -/
theorem move_gone (honline : c.Online) (hsilent : ¬ allow.silent)
    (hstale : ¬ allow.stale) (hdialer : ∀ stream ∈ first, stream.dialer = false)
    (h : Move c allow id first effects last) :
    last = none ↔ first = none ∨ .tunnelClose id ∈ frames effects := by
  cases h with
  | signal | arrive | write | retry | redial => simp [frames]
  | read | drain => simp [Context.sends_eq honline, frames]
  | connect => split <;> simp [frames]
  | close => simp [Context.sends_eq honline, frames]
  | giveUp stream _ _ h => simp [hdialer stream rfl, hstale] at h
  | drop _ _ h => exact absurd h hsilent

/-- A stream that was not dialled does not become ready by itself. -/
theorem move_ready (hsound : ∀ stream ∈ first, stream.Sound)
    (hdialer : ∀ stream ∈ first, stream.dialer = false) (h : Move c allow id first effects last) :
    ∀ later ∈ last, ∃ stream ∈ first, later.ready = stream.ready := by
  cases h with
  | signal => exact fun later hlater ↦ ⟨later, hlater, rfl⟩
  | close | giveUp | drop => simp
  | connect stream _ hstate =>
    have hconnected := (hsound stream rfl).accepted (hdialer stream rfl)
    simp [hconnected] at hstate
  | arrive stream | read stream | write stream | drain stream | retry stream | redial stream =>
    rintro _ ⟨⟩
    exact ⟨stream, rfl, rfl⟩

/-- A stream that goes on sends nothing that ends it, and nothing that opens it unless it is
ready. -/
theorem move_stays (h : Move c allow id first effects last) : ∀ later ∈ last, ∃ stream ∈ first,
    (∀ frame ∈ frames effects, frame.ending = false) ∧ (later.ready = false → stream.ready = false ∧
        ∀ frame ∈ frames effects, frame.opening = false) := by
  have hframes : ∀ {P : Frame → Prop}, (∀ target frame, .send target frame ∈ effects → P frame) →
      ∀ frame ∈ frames effects, P frame := by
    intro P heffects frame hframe
    obtain ⟨target, heffect⟩ := mem_frames.mp hframe
    exact heffects target frame heffect
  cases h with
  | signal => exact fun later hlater ↦ ⟨later, hlater, by simp [frames], by simp [frames]⟩
  | close | giveUp | drop => simp
  | connect stream =>
    rintro _ ⟨⟩
    refine ⟨stream, rfl, hframes ?_, by simp⟩
    intro target frame heffect
    split at heffect <;> simp_all [Frame.ending]
  | arrive stream | read stream | write stream | drain stream | retry stream | redial stream =>
    rintro _ ⟨⟩
    refine ⟨stream, rfl, hframes ?_, fun hready ↦ ⟨hready, hframes ?_⟩⟩
    · simp_all [Frame.ending]
    · simp_all [Frame.opening]

/-- A stream that goes says so with a CLOSE, or with an OPEN_ACK while it is being dialled. -/
theorem move_leaves (honline : c.Online) (hsilent : ¬ allow.silent)
    (h : Move c allow id first effects none) : first = none ∧ frames effects = [] ∨
      .tunnelClose id ∈ frames effects ∨
      ∃ stream ∈ first, stream.ready = false ∧ ∀ frame ∈ frames effects, frame.opening = false := by
  cases h with
  | signal => exact .inl ⟨rfl, rfl⟩
  | close => exact .inr (.inl (by simp [Context.sends_eq honline, frames]))
  | giveUp stream _ hready =>
    exact .inr (.inr ⟨stream, rfl, hready, by
      simp [Context.sends_eq honline, frames, Frame.opening]⟩)
  | drop _ _ h => exact absurd h hsilent

/-- What a frame other than an OPEN does: it leaves the stream as ready as it was, answers the OPEN
of a stream, ends a stream, or overflows it. -/
theorem receive_cases (honline : c.Online) (htype : frame.type ≠ .tunnelOpen)
    (h : Receive c remote id frame first effects last) :
    ((∀ later ∈ last, ∃ stream ∈ first, later.ready = stream.ready) ∧
        (last = none ↔ first = none) ∧ frames effects = [] ∧
        (frame = .tunnelClose id → first = none)) ∨
      (first ≠ none ∧ last ≠ none ∧ frame.opening = true ∧ frames effects = [] ∧
        (∀ stream ∈ first, stream.dialer = false) ∧ frame ≠ .tunnelClose id) ∨
      (last = none ∧ frame.ending = true ∧ frames effects = [] ∧
        (frame = .tunnelClose id ∨ ∀ stream ∈ first, stream.dialer = false)) ∨
      (last = none ∧ frames effects = [.tunnelClose id]) := by
  cases h with
  | openIgnore | openRefuse | openDial => exact absurd rfl htype
  | ackIgnore | dataEmpty =>
    exact .inl ⟨fun later hlater ↦ ⟨later, hlater, rfl⟩, Iff.rfl, rfl, by simp⟩
  | dataUnknown | ackUnknown | closeUnknown => exact .inl ⟨by simp, Iff.rfl, rfl, by simp⟩
  | dataQueue data stream | ackCredit consumed stream =>
    refine .inl ⟨?_, by simp, rfl, by simp⟩
    rintro _ ⟨⟩
    exact ⟨stream, rfl, rfl⟩
  | ackAccept _ _ stream hdialer =>
    exact .inr (.inl ⟨by simp, by simp, rfl, rfl, by simpa using hdialer, by simp⟩)
  | ackReject _ _ _ stream hdialer =>
    exact .inr (.inr (.inl ⟨rfl, rfl, rfl, .inr (by simpa using hdialer)⟩))
  | closeKnown => exact .inr (.inr (.inl ⟨rfl, rfl, rfl, .inl rfl⟩))
  | dataOverflow => exact .inr (.inr (.inr ⟨rfl, by simp [Context.sends_eq honline, frames]⟩))

end

namespace Link

/-- Each side of an answered stream, the right one being the dialer, has been told or is about to
be told what the other side has done. -/
structure Agreement (id : UInt32) (l : Link) : Prop where
  left_lost : l.left = none → ∀ stream ∈ l.right, .tunnelClose id ∈ l.fly
  right_lost : l.right = none → ∀ stream ∈ l.left,
    stream.ready = true ∨ (∃ frame ∈ l.back, frame.opening = true) → .tunnelClose id ∈ l.back
  dialling : ∀ stream ∈ l.right, stream.ready = false →
    (∀ stream ∈ l.left, stream.ready = false) ∧ ∀ frame ∈ l.back, frame.opening = false
  left_gone : .tunnelClose id ∈ l.fly → l.left = none
  right_gone : ∀ frame ∈ l.back, frame.ending = true → l.right = none

section

variable {id : UInt32} {l : Link} {c : Context} {effects : List Effect} {last : Option Stream}

/-- The side that has announced the stream moves. -/
theorem Agreement.move_left (h : l.Agreement id) (hsound : l.Sound) (honline : c.Online)
    (hdialer : ∀ stream ∈ l.left, stream.dialer = false) (hretry : l.leftRetry = false)
    (hmove : Move c ⟨False, l.leftRetry = true, True, True⟩ id l.left effects last) :
    (l.acts effects last).Agreement id := by
  have hgone := move_gone honline (fun h ↦ h) (by simp [hretry]) hdialer hmove
  have hready := move_ready hsound.1 hdialer hmove
  refine ⟨?_, ?_, ?_, ?_, h.right_gone⟩
  · intro hlast stream hstream
    rcases hgone.mp hlast with hleft | hclose
    · exact mem_append_left _ (h.left_lost hleft stream hstream)
    · exact mem_append_right _ hclose
  · intro hright later hlater htold
    obtain ⟨stream, hstream, heq⟩ := hready later hlater
    exact h.right_lost hright stream hstream (by rwa [← heq])
  · intro stream hstream hdialling
    obtain ⟨hleft, hback⟩ := h.dialling stream hstream hdialling
    refine ⟨fun later hlater ↦ ?_, hback⟩
    obtain ⟨origin, horigin, heq⟩ := hready later hlater
    rw [heq]
    exact hleft origin horigin
  · intro hclose
    apply hgone.mpr
    exact (mem_append.mp hclose).imp_left h.left_gone

/-- The dialer moves. -/
theorem Agreement.move_right (h : l.swap.Agreement id) (honline : c.Online)
    (hmove : Move c ⟨False, l.leftRetry = true, True, True⟩ id l.left effects last) :
    (l.acts effects last).swap.Agreement id := by
  have hstays := move_stays hmove
  refine ⟨?_, ?_, ?_, h.left_gone, ?_⟩
  · intro hright later hlater
    obtain ⟨stream, hstream, -⟩ := hstays later hlater
    exact h.left_lost hright stream hstream
  · intro hlast stream hstream htold
    have hnone : last = none := hlast
    rw [hnone] at hmove
    rcases move_leaves honline (fun h ↦ h) hmove with ⟨hleft, hframes⟩ | hclose |
      ⟨origin, horigin, hready, hframes⟩
    · simp only [Link.swap, acts, hframes, append_nil] at htold ⊢
      exact h.right_lost hleft stream hstream htold
    · exact mem_append_right _ hclose
    · -- the dial has failed: the other side cannot have heard of a success
      obtain ⟨hwaiting, hfly⟩ := h.dialling origin horigin hready
      rcases htold with hready' | ⟨frame, hframe, hopening⟩
      · simp [hwaiting stream hstream] at hready'
      · rcases mem_append.mp hframe with hold | hnew
        · simp [hfly frame hold] at hopening
        · simp [hframes frame hnew] at hopening
  · intro later hlater hdialling
    obtain ⟨stream, hstream, -, hwaiting⟩ := hstays later hlater
    obtain ⟨hready, hframes⟩ := hwaiting hdialling
    obtain ⟨hright, hfly⟩ := h.dialling stream hstream hready
    refine ⟨hright, fun frame hframe ↦ ?_⟩
    exact (mem_append.mp hframe).elim (hfly frame) (hframes frame)
  · intro frame hframe hending
    refine Option.eq_none_iff_forall_ne_some.mpr fun later hlater ↦ ?_
    obtain ⟨stream, hstream, hframes, -⟩ := hstays later hlater
    rcases mem_append.mp hframe with hold | hnew
    · have hnone : l.left = none := h.right_gone frame hold hending
      simp [hnone] at hstream
    · simp [hframes frame hnew] at hending

theorem close_mem_rest (hback : l.back = frame :: rest) (hne : frame ≠ .tunnelClose id)
    (hmem : .tunnelClose id ∈ l.back) : .tunnelClose id ∈ rest := by
  rw [hback] at hmem
  exact (mem_cons.mp hmem).resolve_left (Ne.symm hne)

/-- The side that has announced the stream receives a frame of the dialer. -/
theorem Agreement.receive_left (h : l.Agreement id) (honline : c.Online)
    (hback : l.back = frame :: rest) (htype : frame.type ≠ .tunnelOpen)
    (hreceive : Receive c remote id frame l.left effects last) :
    ({ l with back := rest }.acts effects last).Agreement id := by
  have hrest : ∀ other ∈ rest, other ∈ l.back := by simp +contextual [hback]
  have hfirst : frame ∈ l.back := by simp [hback]
  rcases receive_cases honline htype hreceive with ⟨hready, hnone, hframes, hknown⟩ |
    ⟨hsome, hlast, hopening, hframes, -, hne⟩ | ⟨hlast, hending, hframes, -⟩ | ⟨hlast, hframes⟩
  · refine ⟨?_, ?_, ?_, ?_, fun other hother ↦ h.right_gone other (hrest other hother)⟩
    · intro hgone
      simpa [acts, hframes] using h.left_lost (hnone.mp hgone)
    · intro hright later hlater htold
      obtain ⟨stream, hstream, heq⟩ := hready later hlater
      refine close_mem_rest hback (fun hframe ↦ ?_) (h.right_lost hright stream hstream ?_)
      · simp [hknown hframe] at hstream
      · rw [← heq]
        exact htold.imp_right (Exists.imp fun other ↦ And.imp_left (hrest other))
    · intro stream hstream hdialling
      obtain ⟨hleft, hfly⟩ := h.dialling stream hstream hdialling
      refine ⟨fun later hlater ↦ ?_, fun other hother ↦ hfly other (hrest other hother)⟩
      obtain ⟨origin, horigin, heq⟩ := hready later hlater
      rw [heq]
      exact hleft origin horigin
    · intro hmem
      simp only [acts, hframes, append_nil] at hmem
      exact hnone.mpr (h.left_gone hmem)
  · -- the positive answer: the dialer is ready, or it is gone and its CLOSE follows
    refine ⟨fun hgone ↦ absurd hgone hlast, ?_, ?_, ?_,
      fun other hother ↦ h.right_gone other (hrest other hother)⟩
    · intro hright later _ _
      obtain ⟨stream, hstream⟩ := Option.ne_none_iff_exists'.mp hsome
      exact close_mem_rest hback hne (h.right_lost hright stream hstream (.inr ⟨frame, hfirst, hopening⟩))
    · intro stream hstream hdialling
      have hfly := (h.dialling stream hstream hdialling).2 frame hfirst
      simp [hopening] at hfly
    · intro hmem
      simp only [acts, hframes, append_nil] at hmem
      exact absurd (h.left_gone hmem) hsome
  · have hright : l.right = none := h.right_gone frame hfirst hending
    exact ⟨by simp [acts, hright], by simp [acts, hlast], by simp [acts, hright],
      fun _ ↦ hlast, fun other hother ↦ h.right_gone other (hrest other hother)⟩
  · refine ⟨by simp [acts, hframes], by simp [acts, hlast], ?_, fun _ ↦ hlast,
      fun other hother ↦ h.right_gone other (hrest other hother)⟩
    intro stream hstream hdialling
    exact ⟨by simp [acts, hlast], fun other hother ↦
      (h.dialling stream hstream hdialling).2 other (hrest other hother)⟩

/-- The dialer receives a frame of the side that has announced the stream. -/
theorem Agreement.receive_right (h : l.swap.Agreement id) (honline : c.Online)
    (hdialer : ∀ stream ∈ l.left, stream.dialer = true) (hback : l.back = frame :: rest)
    (htype : frame.type ≠ .tunnelOpen) (hreceive : Receive c remote id frame l.left effects last) :
    ({ l with back := rest }.acts effects last).swap.Agreement id := by
  have hrest : ∀ other ∈ rest, other ∈ l.back := by simp +contextual [hback]
  have hleft_gone : .tunnelClose id ∈ rest → l.right = none := fun hmem ↦ h.left_gone (hrest _ hmem)
  rcases receive_cases honline htype hreceive with ⟨hready, hnone, hframes, hknown⟩ |
    ⟨hsome, -, -, -, haccepted, -⟩ | ⟨hlast, hending, hframes, hreason⟩ | ⟨hlast, hframes⟩
  · refine ⟨?_, ?_, ?_, hleft_gone, ?_⟩
    · intro hright later hlater
      obtain ⟨stream, hstream, -⟩ := hready later hlater
      refine close_mem_rest hback (fun hframe ↦ ?_) (h.left_lost hright stream hstream)
      simp [hknown hframe] at hstream
    · intro hgone stream hstream htold
      simp only [Link.swap, acts, hframes, append_nil] at htold ⊢
      exact h.right_lost (hnone.mp hgone) stream hstream htold
    · intro later hlater hdialling
      obtain ⟨stream, hstream, heq⟩ := hready later hlater
      obtain ⟨hright, hfly⟩ := h.dialling stream hstream (heq ▸ hdialling)
      exact ⟨hright, by simpa [Link.swap, acts, hframes] using hfly⟩
    · intro other hother hending
      simp only [Link.swap, acts, hframes, append_nil] at hother
      exact hnone.mpr (h.right_gone other hother hending)
  · obtain ⟨stream, hstream⟩ := Option.ne_none_iff_exists'.mp hsome
    have hfalse := haccepted stream hstream
    simp [hdialer stream hstream] at hfalse
  · -- a CLOSE: the other side is gone
    have hgone : l.left = none ∨ l.right = none := by
      rcases hreason with rfl | haccepted
      · exact .inr (h.left_gone (by simp [Link.swap, hback]))
      · refine .inl (Option.eq_none_iff_forall_ne_some.mpr fun stream hstream ↦ ?_)
        have hfalse := haccepted stream hstream
        simp [hdialer stream hstream] at hfalse
    refine ⟨by simp [Link.swap, acts, hlast], ?_, by simp [Link.swap, acts, hlast], hleft_gone,
      fun _ _ _ ↦ hlast⟩
    intro _ stream hstream htold
    rcases hgone with hnone | hnone
    · simp only [Link.swap, acts, hframes, append_nil] at htold ⊢
      exact h.right_lost hnone stream hstream htold
    · have hsome : l.right = some stream := hstream
      simp [hnone] at hsome
  · exact ⟨by simp [Link.swap, acts, hlast], by simp [Link.swap, acts, hframes],
      by simp [Link.swap, acts, hlast], hleft_gone, fun _ _ _ ↦ hlast⟩

/-- The arrival of an OPEN. -/
theorem Announced.agreement_receive
    (h : l.swap.Announced id) (hclose : l.right = none ↔ .tunnelClose id ∈ l.back)
    (hback : l.back = frame :: rest) (hreceive : Receive c remote id frame l.left effects last) :
    ({ l with back := rest }.acts effects last).swap.Agreement id := by
  obtain ⟨⟨service, token, rfl⟩, -, hnone, hempty⟩ := h.arriving hback
  have hwaiting : ∀ stream ∈ l.right, stream.ready = false :=
    fun stream hstream ↦ (h.left stream hstream).2.1
  have hframes := receive_frames hreceive
  have hrest : .tunnelClose id ∈ l.back ↔ .tunnelClose id ∈ rest := by simp [hback]
  rw [hrest] at hclose
  refine ⟨fun hgone _ _ ↦ hclose.mp hgone, ?_, ?_, hclose.mpr, ?_⟩
  · rintro - stream hstream (hready | ⟨answer, hanswer, hopening⟩)
    · simp [hwaiting stream hstream] at hready
    · simp only [Link.swap, acts, hempty, nil_append] at hanswer
      simp [(hframes answer hanswer).1] at hopening
  · intro stream _ _
    refine ⟨hwaiting, ?_⟩
    simp only [Link.swap, acts, hempty, nil_append]
    exact fun answer hanswer ↦ (hframes answer hanswer).1
  · simp only [Link.swap, acts, hempty, nil_append]
    rw [hnone] at hreceive
    cases hreceive <;> simp [frames]

/-- The phases of a fresh stream nobody has dropped without a word. -/
inductive Agrees (id : UInt32) (l : Link) : Prop
  | untouched (h : l.Untouched)
  | announced (h : l.Announced id) (hclose : l.left = none ↔ .tunnelClose id ∈ l.fly)
  | announcedRight (h : l.swap.Announced id) (hclose : l.right = none ↔ .tunnelClose id ∈ l.back)
  | answered (h : l.Answered) (hagree : l.Agreement id)
  | answeredRight (h : l.swap.Answered) (hagree : l.swap.Agreement id)

variable (h : l.Agrees id)

include h

theorem Agrees.phase : l.Phase id := by
  cases h with
  | untouched h => exact .untouched h
  | announced h => exact .announced h
  | announcedRight h => exact .announcedRight h
  | answered h => exact .answered h
  | answeredRight h => exact .answeredRight h

theorem Agrees.swap : l.swap.Agrees id := by
  cases h with
  | untouched h => exact .untouched h.swap
  | announced h hclose => exact .announcedRight h hclose
  | announcedRight h hclose => exact .announced h hclose
  | answered h hagree => exact .answeredRight h hagree
  | answeredRight h hagree => exact .answered h hagree

theorem Agrees.move (hsound : l.Sound) (honline : c.Online)
    (hmove : Move c ⟨False, l.leftRetry = true, True, True⟩ id l.left effects last) :
    (l.acts effects last).Agrees id := by
  have hdescends := hmove.descends
  have hframes := type_ne_of_move hmove
  cases h with
  | untouched h => exact .untouched (h.move hmove)
  | announced h hclose =>
    refine .announced (h.move hsound hmove) ?_
    have hgone := move_gone honline (fun h ↦ h) (by simp [h.leftRetry])
      (fun stream hstream ↦ (h.left stream hstream).1) hmove
    simp only [acts, mem_append]
    rw [hgone, hclose]
  | announcedRight h hclose => exact .announcedRight (h.move_swap hmove) hclose
  | answered h hagree =>
    exact .answered (h.acts (fun _ hframe ↦ hframe) hdescends hframes)
      (hagree.move_left hsound honline h.left h.leftRetry hmove)
  | answeredRight h hagree =>
    exact .answeredRight (h.acts_swap (fun _ hframe ↦ hframe) hdescends hframes)
      (hagree.move_right honline hmove)

theorem Agrees.receive (honline : c.Online) (hback : l.back = frame :: rest)
    (hreceive : Receive c remote id frame l.left effects last) :
    ({ l with back := rest }.acts effects last).Agrees id := by
  have hrest : ∀ other ∈ rest, other ∈ l.back := by simp +contextual [hback]
  have hanswers := type_ne_of_receive hreceive
  cases h with
  | untouched h | announced h => simp [h.back] at hback
  | announcedRight h hclose =>
    exact .answeredRight (h.receive hback hreceive) (h.agreement_receive hclose hback hreceive)
  | answered h hagree =>
    have htype : frame.type ≠ .tunnelOpen := h.back frame (by simp [hback])
    exact .answered (h.acts hrest (descends_of_receive hreceive htype) hanswers)
      (hagree.receive_left honline hback htype hreceive)
  | answeredRight h hagree =>
    have htype : frame.type ≠ .tunnelOpen := h.fly frame (by simp [Link.swap, hback])
    exact .answeredRight (h.acts_swap hrest (descends_of_receive hreceive htype) hanswers)
      (hagree.receive_right honline h.right hback htype hreceive)

theorem Agrees.timer {retry : Bool} (hretry : retry = true →
    l.leftRetry = true ∨ ∃ stream, l.left = some stream ∧ stream.dialer = true) :
    { l with leftRetry := retry }.Agrees id := by
  cases h with
  | untouched h => exact .untouched (h.timer hretry)
  | announced h hclose => exact .announced (h.timer hretry) hclose
  | announcedRight h hclose => exact .announcedRight (h.timer_swap hretry) hclose
  | answered h hagree =>
    exact .answered (h.timer hretry) { hagree with }
  | answeredRight h hagree =>
    exact .answeredRight { h with } { hagree with }

theorem Agrees.leftStep {l' : Link} (hsound : l.Sound)
    (hstep : LeftStep False id l l') (hfresh : l'.Fresh) : l'.Agrees id := by
  cases hstep with
  | move honline hmove => exact h.move hsound honline hmove
  | create honline hcreate =>
    have huntouched := h.phase.untouched_of_create honline hcreate hfresh
    refine .announced (huntouched.create honline hcreate) ?_
    rw [huntouched.left] at hcreate
    cases hcreate with
    | abandon hoffline => simp [honline] at hoffline
    | announce => simp [acts, huntouched.fly, frames]
  | receive honline hback hreceive => exact h.receive honline hback hreceive
  | timer _ hretry => exact h.timer hretry

/-- At rest a stream is on both sides or on neither. -/
theorem Agrees.isSome_eq (hsound : l.Sound) (hfly : l.fly = [])
    (hback : l.back = []) (hleft : ∀ stream ∈ l.left, stream.timeout = false)
    (hright : ∀ stream ∈ l.right, stream.timeout = false) : l.left.isSome = l.right.isSome := by
  have hready : ∀ stream : Stream, stream.Sound → stream.timeout = false → stream.ready = true := by
    intro stream hstream htimeout
    by_contra hwaiting
    have hrunning := (hstream.waiting (by simpa using hwaiting)).1
    simp [htimeout] at hrunning
  have hanswered : ∀ {l : Link}, l.Agreement id → l.fly = [] → l.back = [] →
      (∀ stream ∈ l.left, stream.ready = true) → l.left.isSome = l.right.isSome := by
    intro l hagree hfly hback hleft
    cases hl : l.left with
    | none =>
      cases hr : l.right with
      | none => rfl
      | some stream => simpa [hfly] using hagree.left_lost hl stream hr
    | some stream =>
      cases hr : l.right with
      | none => simpa [hback] using hagree.right_lost hr stream hl (.inl (hleft stream hl))
      | some => rfl
  cases h with
  | untouched h => rw [h.left, h.right]
  | announced h =>
    obtain ⟨service, token, rest, hopen, -⟩ := h.fly
    simp [hfly] at hopen
  | announcedRight h =>
    obtain ⟨service, token, rest, hopen, -⟩ := h.fly
    simp [Link.swap, hback] at hopen
  | answered h hagree =>
    exact hanswered hagree hfly hback fun stream hstream ↦
      hready stream (hsound.1 stream hstream) (hleft stream hstream)
  | answeredRight h hagree =>
    exact (hanswered hagree hback hfly fun stream hstream ↦
      hready stream (hsound.2 stream hstream) (hright stream hstream)).symm

end

end Link

namespace Pair

/-! ## Runs in which nobody is silent -/

/-- `stopAll` is not called on a manager that has dialled streams. -/
def stopsNoDialer (p : Pair) : Action → Bool
  | .handle side .stopAll => (p.manager side).streams.keys.all fun id ↦
    ((p.manager side).findStream id).map (·.dialer) != some true
  | _ => true

def runStopsNoDialer (json : QJsonDocument) : Pair → List Action → Bool
  | _, [] => true
  | p, action :: actions => p.stopsNoDialer action && runStopsNoDialer json (p.act json action) actions

theorem not_silences {peerIp : Side → QString} (h : p.Session peerIp) {action : Action}
    (hsteady : action.steady peerIp = true) (hstops : p.stopsNoDialer action = true) (id : UInt32) :
    ¬ p.silences id action := by
  cases action with
  | deliver => exact fun hsilent ↦ hsilent
  | handle side event =>
    rintro (rfl | ⟨rfl, stream, hfind, hleft⟩)
    · simp [Action.steady, Event.steady] at hsteady
    · have hdialer : stream.dialer = false := by
        have hall := all_eq_true.mp hstops id (TunnelManager.mem_keys_of_findStream hfind)
        simpa [hfind] using hall
      -- a stream that was not dialled is served by a forward, whose end is notified
      obtain ⟨forward, hforward⟩ := (h.online side).bounded.served.forward id stream hfind hdialer
      simp [hdialer, hforward] at hleft

theorem agrees_run {json : QJsonDocument} (hjson : json.Lawful) {peerIp : Side → QString}
    (hpeer : ∀ side, peerIp side ≠ "") {actions : List Action} (h : p.Session peerIp)
    (hsteady : ∀ action ∈ actions, action.steady peerIp = true)
    (hstops : runStopsNoDialer json p actions = true) (side : Side) (id : UInt32)
    (hp : (p.link side id).Fresh → (p.link side id).Agrees id) :
    ((p.run json actions).link side id).Fresh → ((p.run json actions).link side id).Agrees id := by
  induction actions generalizing p with
  | nil => exact hp
  | cons action actions ih =>
    obtain ⟨hfirst, hrest⟩ := Bool.and_eq_true_iff.mp hstops
    have hsteady₀ := hsteady action mem_cons_self
    have hsilent := not_silences h hsteady₀ hfirst id
    refine ih (h.act hsteady₀) (fun other hother ↦ hsteady other (mem_cons_of_mem _ hother))
      hrest ?_
    refine link_act_induction hjson h hpeer hsteady₀ (P := fun l ↦ l.Fresh → l.Agrees id) ?_ ?_ hp
    · intro l l' hsound hstep hl hfresh
      exact (hl (hfresh.of_leftStep hstep)).leftStep hsound (hstep.mono hsilent) hfresh
    · intro l l' hsound hstep hl hfresh
      have hfresh' : l'.Fresh := hfresh.swap
      have hagrees := hl (hfresh'.of_leftStep hstep).swap
      exact (hagrees.swap.leftStep hsound (hstep.mono hsilent) hfresh').swap

/-- Nothing travels and no timer is pending. -/
structure Quiescent (p : Pair) : Prop where
  flight : ∀ side, p.travelling side = []
  timers : ∀ side id, ∀ stream ∈ (p.manager side).findStream id, stream.timeout = false
  retries : ∀ side, (p.manager side).retryTimers = []

/-- At rest both sides have the same streams. -/
theorem mem_streams_iff_of_quiescent {json : QJsonDocument} (hjson : json.Lawful)
    {peerIp : Side → QString} (hpeer : ∀ side, peerIp side ≠ "") {actions : List Action}
    (hsteady : ∀ action ∈ actions, action.steady peerIp = true)
    (hstops : runStopsNoDialer json (start peerIp) actions = true) {p : Pair}
    (hrun : p = (start peerIp).run json actions) (hfresh : p.FreshIds) (hquiescent : p.Quiescent)
    (id : UInt32) : id ∈ (p.manager .near).streams ↔ id ∈ (p.manager .far).streams := by
  subst hrun
  have hsession : ((start peerIp).run json actions).Session peerIp :=
    (session_start peerIp).run hsteady
  have hagrees := agrees_run hjson hpeer (session_start peerIp) hsteady hstops .near id
    (fun _ ↦ .untouched ⟨rfl, rfl, rfl, rfl, ⟨rfl, rfl⟩, ⟨rfl, rfl⟩, rfl, rfl⟩)
    (hfresh.link .near id)
  have hsome := hagrees.isSome_eq (hsession.sound .near id)
    (by simp [link, inFlight, hquiescent.flight]) (by simp [link, inFlight, hquiescent.flight])
    (hquiescent.timers .near id) (hquiescent.timers .far id)
  rw [← AList.lookup_isSome, ← AList.lookup_isSome]
  exact Bool.eq_iff_iff.mp hsome

theorem timeout_of_keys {m : TunnelManager}
    (h : (m.streams.keys.all fun id ↦ (m.findStream id).map (·.timeout) != some true) = true)
    (id : UInt32) : ∀ stream ∈ m.findStream id, stream.timeout = false := by
  intro stream hstream
  have hfind : m.findStream id = some stream := hstream
  have hkey := all_eq_true.mp h id (TunnelManager.mem_keys_of_findStream hfind)
  simpa [hfind] using hkey

/-- Quiescence, in a form that can be evaluated. -/
def restsAt (p : Pair) (side : Side) : Bool :=
  (p.travelling side).isEmpty && (p.manager side).retryTimers.isEmpty &&
    (p.manager side).streams.keys.all fun id ↦
      ((p.manager side).findStream id).map (·.timeout) != some true

theorem quiescent_of_restsAt (hnear : p.restsAt .near = true) (hfar : p.restsAt .far = true) :
    p.Quiescent := by
  have hrests : ∀ side, p.restsAt side = true := by
    intro side
    cases side with
    | near => exact hnear
    | far => exact hfar
  refine ⟨fun side ↦ ?_, fun side ↦ ?_, fun side ↦ ?_⟩
  all_goals
    obtain ⟨hempty, hkeys⟩ := Bool.and_eq_true_iff.mp (hrests side)
    obtain ⟨hflight, hretries⟩ := Bool.and_eq_true_iff.mp hempty
  · exact isEmpty_iff.mp hflight
  · exact timeout_of_keys hkeys
  · exact isEmpty_iff.mp hretries

/-- Two connections are forwarded and the first one is closed. -/
def oneClosedRun : List Action :=
  openingRun ++
    [.handle .near (.newConnection "echo" [⟨[6], "another"⟩]),
      .deliver .far [],
      .handle .far (.connected 6 []),
      .deliver .near [],
      .handle .near (.disconnected 5),
      .deliver .far []]

def oneClosedPair : Pair := (start twoHosts).run textJson oneClosedRun

theorem mem_streams_oneClosedPair :
    (oneClosedPair.manager .near).streams.keys = [6] ∧
      (6 ∈ (oneClosedPair.manager .near).streams ↔ 6 ∈ (oneClosedPair.manager .far).streams) := by
  have hevaluate : (oneClosedPair.manager .near).streams.keys = [6] ∧
      runStopsNoDialer textJson (start twoHosts) oneClosedRun = true ∧
      oneClosedPair.FreshIds ∧
      oneClosedPair.restsAt .near = true ∧ oneClosedPair.restsAt .far = true := by
    decide +kernel
  obtain ⟨hkeys, hstops, hfresh, hnear, hfar⟩ := hevaluate
  exact ⟨hkeys, mem_streams_iff_of_quiescent textJson_lawful twoHosts_ne_empty (by decide) hstops
    rfl hfresh (quiescent_of_restsAt hnear hfar) 6⟩

/-- The dialer's manager is stopped: it drops the stream and sends nothing. -/
def stoppedPair : Pair := (start twoHosts).run textJson (openingRun ++ [.handle .far .stopAll])

theorem not_mem_streams_iff_stoppedPair :
    (∀ action ∈ openingRun ++ [.handle .far .stopAll], action.steady twoHosts = true) ∧
      stoppedPair.FreshIds ∧ stoppedPair.Quiescent ∧
      ¬ (5 ∈ (stoppedPair.manager .near).streams ↔ 5 ∈ (stoppedPair.manager .far).streams) :=
  ⟨by decide, by decide +kernel, quiescent_of_restsAt (by decide +kernel) (by decide +kernel),
    by decide +kernel⟩

end Pair

end DdeCooperation.Tunnel
