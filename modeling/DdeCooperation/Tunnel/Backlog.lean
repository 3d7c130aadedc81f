import DdeCooperation.Tunnel.Conservation

/-!
# The backlog of a sender

Without fresh ids a side may meet a stream that is not its own other end, and the
exact laws of conservation fail. One direction of them remains. Everything a
sender has read is on its way: behind the frame that opens the stream for the
receiver, or, once no such frame travels, among the bytes the receiver has been
given. Its unacknowledged count is covered in the same way. Receivers that cannot
be meant are left out: one that is gone, and one that still waits for the answer
to its own OPEN.
-/

namespace DdeCooperation.Tunnel

open Qt Foundations List QTcpSocket

variable {frame : Frame} {remote : QString}

/-- After this frame the receiver can be the other end of the sender's stream. -/
def Frame.opening : Frame → Bool
  | tunnelOpen _ _ _ => true
  | tunnelOpenAck _ ok _ _ => ok
  | _ => false

/-- `sent` and `unacked` are covered by the channel to `receiver` and the channel back. -/
inductive Backed (sent : QByteArray) (unacked : ℤ) (channel back : List Frame)
    (receiver : Option Stream) : Prop
  | coming (before : List Frame) (frame : Frame) (after : List Frame)
      (hchannel : channel = before ++ frame :: after) (hopening : frame.opening = true)
      (hafter : ∀ later ∈ after, later.opening = false) (hsent : sent <:+ bytes after)
      (hunacked : unacked ≤ (bytes after).length)
  | gone (hchannel : ∀ frame ∈ channel, frame.opening = false) (hgone : receiver = none)
  | unanswered (hchannel : ∀ frame ∈ channel, frame.opening = false) (stream : Stream)
      (hstream : receiver = some stream) (hready : stream.ready = false)
      (hdialer : stream.dialer = false)
  | kept (hchannel : ∀ frame ∈ channel, frame.opening = false) (stream : Stream)
      (hstream : receiver = some stream)
      (hsent : sent <:+ stream.sock.written ++ stream.pending ++ bytes channel)
      (hunacked : unacked ≤ ((bytes channel).length + stream.pending.length +
        stream.sock.writeBuffer.length + credits back : ℕ))

namespace Backed

variable {sent : QByteArray} {unacked : ℤ} {channel back : List Frame} {receiver : Option Stream}

/-- A channel either carries a last opening frame or none. -/
theorem opening_cases (channel : List Frame) :
    (∃ before frame after, channel = before ++ frame :: after ∧ frame.opening = true ∧
      ∀ later ∈ after, later.opening = false) ∨ ∀ frame ∈ channel, frame.opening = false := by
  induction channel with
  | nil => exact .inr (by simp)
  | cons first channel ih =>
    rcases ih with ⟨before, frame, after, rfl, hopening, hafter⟩ | hnone
    · exact .inl ⟨first :: before, frame, after, rfl, hopening, hafter⟩
    · cases hfirst : first.opening with
      | true => exact .inl ⟨[], first, channel, rfl, hfirst, hnone⟩
      | false =>
        refine .inr fun frame hframe ↦ ?_
        rcases mem_cons.mp hframe with rfl | hrest
        · exact hfirst
        · exact hnone frame hrest

/-- A sender that has read nothing is covered in any case. -/
theorem start (channel back : List Frame) (receiver : Option Stream) :
    Backed [] 0 channel back receiver := by
  rcases opening_cases channel with ⟨before, frame, after, hchannel, hopening, hafter⟩ | hnone
  · exact .coming before frame after hchannel hopening hafter nil_suffix (by omega)
  · cases receiver with
    | none => exact .gone hnone rfl
    | some stream => exact .kept hnone stream rfl nil_suffix (by omega)

/-- The sender reads and sends. -/
theorem send (h : Backed sent unacked channel back receiver) {new : List Frame}
    (hnew : ∀ frame ∈ new, frame.opening = false) :
    Backed (sent ++ bytes new) (unacked + (bytes new).length) (channel ++ new) back receiver := by
  have happend : ∀ {left : QByteArray}, sent <:+ left → sent ++ bytes new <:+ left ++ bytes new := by
    rintro _ ⟨missing, rfl⟩
    exact ⟨missing, by rw [append_assoc]⟩
  have hclosed : (∀ frame ∈ channel, frame.opening = false) →
      ∀ frame ∈ channel ++ new, frame.opening = false := by
    intro hchannel frame hframe
    exact (mem_append.mp hframe).elim (hchannel frame) (hnew frame)
  cases h with
  | coming before frame after hchannel hopening hafter hsent hunacked =>
    refine .coming before frame (after ++ new) (by simp [hchannel]) hopening ?_ ?_ ?_
    · exact forall_mem_append.mpr ⟨hafter, hnew⟩
    · rw [bytes_append]
      exact happend hsent
    · rw [bytes_append, length_append]
      push_cast
      omega
  | gone hchannel hgone => exact .gone (hclosed hchannel) hgone
  | unanswered hchannel stream hstream hready hdialer =>
    exact .unanswered (hclosed hchannel) stream hstream hready hdialer
  | kept hchannel stream hstream hsent hunacked =>
    refine .kept (hclosed hchannel) stream hstream ?_ ?_
    · rw [bytes_append, ← append_assoc]
      exact happend hsent
    · rw [bytes_append, length_append]
      push_cast at hunacked ⊢
      omega

/-- A smaller count is covered as well. -/
theorem mono (h : Backed sent unacked channel back receiver) {fewer : ℤ} (hle : fewer ≤ unacked) :
    Backed sent fewer channel back receiver := by
  cases h with
  | coming before frame after hchannel hopening hafter hsent hunacked =>
    exact .coming before frame after hchannel hopening hafter hsent (hle.trans hunacked)
  | gone hchannel hgone => exact .gone hchannel hgone
  | unanswered hchannel stream hstream hready hdialer =>
    exact .unanswered hchannel stream hstream hready hdialer
  | kept hchannel stream hstream hsent hunacked =>
    exact .kept hchannel stream hstream hsent (hle.trans hunacked)

/-- The sender takes the next frame of the channel back. -/
theorem credit (h : Backed sent unacked channel (frame :: back) receiver)
    {rest : ℤ} (hrest : rest ≤ max (unacked - frame.credit) 0) :
    Backed sent rest channel back receiver := by
  cases h with
  | coming before opener after hchannel hopening hafter hsent hunacked =>
    exact .coming before opener after hchannel hopening hafter hsent (by omega)
  | gone hchannel hgone => exact .gone hchannel hgone
  | unanswered hchannel stream hstream hready hdialer =>
    exact .unanswered hchannel stream hstream hready hdialer
  | kept hchannel stream hstream hsent hunacked =>
    refine .kept hchannel stream hstream hsent ?_
    rw [credits_cons] at hunacked
    push_cast at hunacked ⊢
    omega

end Backed

/-! ## What either end does -/

section

variable {c : Context} {allow : Allowance} {id : UInt32} {first last : Option Stream}
  {effects : List Effect}

/-- What a stream has been given only moves on. -/
theorem move_written (hsound : ∀ stream ∈ first, stream.Sound)
    (h : Move c allow id first effects last) : ∀ later ∈ last, ∃ receiver ∈ first,
      later.sock.written ++ later.pending = receiver.sock.written ++ receiver.pending := by
  cases h with
  | signal => exact fun later hlater ↦ ⟨later, hlater, rfl⟩
  | close | giveUp | drop => simp
  | arrive stream | read stream | retry stream | connect stream =>
    rintro _ ⟨⟩
    exact ⟨stream, rfl, rfl⟩
  | write stream bytes =>
    rintro _ ⟨⟩
    exact ⟨stream, rfl, by simp [Stream.writeChunk]⟩
  | drain stream bytes =>
    rintro _ ⟨⟩
    exact ⟨stream, rfl, by simp⟩
  | redial stream _ hready =>
    rintro _ ⟨⟩
    obtain ⟨-, -, -, hdrained, hbuffer⟩ := (hsound stream rfl).waiting hready
    exact ⟨stream, rfl, by simp [written, hdrained, hbuffer]⟩

/-- What a stream has taken from its socket is what its log says was read. -/
theorem move_taken (honline : c.Online)
    (hsound : ∀ stream ∈ first, stream.Sound) (h : Move c allow id first effects last) :
    ∀ later ∈ last, ∃ sender ∈ first,
      later.sock.taken = sender.sock.taken ++ readBytes effects := by
  have hsend : c.send = true := (Bool.and_eq_true_iff.mp honline).1
  cases h with
  | signal => exact fun later hlater ↦ ⟨later, hlater, by simp [readBytes]⟩
  | close | giveUp | drop => simp
  | read stream =>
    rintro _ ⟨⟩
    exact ⟨stream, rfl, by
      simp [Context.sends_eq honline, readBytes, Stream.readChunk, QTcpSocket.read]⟩
  | arrive stream | write stream | retry stream | drain stream | connect stream =>
    rintro _ ⟨⟩
    exact ⟨stream, rfl, by simp [Context.sends_eq honline, hsend, readBytes, QTcpSocket.arrive,
      QTcpSocket.drain, Stream.writeChunk, QTcpSocket.write]⟩
  | redial stream _ hready =>
    rintro _ ⟨⟩
    exact ⟨stream, rfl, by simp [readBytes, ((hsound stream rfl).waiting hready).2.2.1]⟩

/-- Only a dialled stream sends an opening frame by itself, before it has read anything. -/
theorem move_opening (hsound : ∀ stream ∈ first, stream.Sound)
    (h : Move c allow id first effects last) :
    (∀ frame ∈ frames effects, frame.opening = false) ∨
      ∀ later ∈ last, later.sock.taken = [] ∧ later.unacked = 0 := by
  have hframes : (∀ target frame, .send target frame ∈ effects → frame.opening = false) →
      ∀ frame ∈ frames effects, frame.opening = false := by
    intro heffects frame hframe
    obtain ⟨target, heffect⟩ := mem_frames.mp hframe
    exact heffects target frame heffect
  cases h with
  | connect stream _ hstate =>
    right
    rintro _ ⟨⟩
    have hready : stream.ready = false := by
      by_contra hready
      have hconnected := ((hsound stream rfl).established (by simpa using hready)).2
      simp [hconnected] at hstate
    obtain ⟨-, hunacked, htaken, -⟩ := (hsound stream rfl).waiting hready
    exact ⟨htaken, hunacked⟩
  | _ => exact .inl (hframes (by simp_all [Frame.opening]))

/-- A receiver that waits for the answer to its own OPEN goes on waiting or is gone. -/
theorem move_unanswered {stream : Stream} (hsound : stream.Sound) (hready : stream.ready = false)
    (hdialer : stream.dialer = false) (h : Move c allow id (some stream) effects last) :
    last = none ∨ ∃ later, last = some later ∧ later.ready = false ∧ later.dialer = false := by
  have hstate := hsound.accepted hdialer
  cases h with
  | signal => exact .inr ⟨stream, rfl, hready, hdialer⟩
  | close | giveUp | drop => exact .inl rfl
  | arrive | drain => exact .inr ⟨_, rfl, hready, hdialer⟩
  | read _ hready' | write _ _ hready' => simp [hready] at hready'
  | retry _ _ hdialer' => simp [hdialer] at hdialer'
  | redial _ _ _ _ hstate' => exact absurd hstate hstate'
  | connect _ _ hstate' => simp [hstate] at hstate'

theorem receive_unanswered {stream : Stream}
    (hready : stream.ready = false) (hdialer : stream.dialer = false)
    (hopening : frame.opening = false) (h : Receive c remote id frame (some stream) effects last) :
    last = none ∨ ∃ later, last = some later ∧ later.ready = false ∧ later.dialer = false := by
  cases h with
  | openIgnore | openRefuse | ackAccept => simp [Frame.opening] at hopening
  | ackIgnore | dataEmpty => exact .inr ⟨stream, rfl, hready, hdialer⟩
  | ackReject | dataOverflow | closeKnown => exact .inl rfl
  | dataQueue | ackCredit => exact .inr ⟨_, rfl, hready, hdialer⟩

/-- A frame leaves what was taken alone and lowers the unacknowledged count by its credit. -/
theorem receive_taken (h : Receive c remote id frame first effects last) :
    ∀ later ∈ last, later.sock.taken = [] ∧ later.unacked = 0 ∨ ∃ sender ∈ first,
      later.sock.taken = sender.sock.taken ∧
        later.unacked ≤ max (sender.unacked - frame.credit) 0 := by
  have hsame : ∀ stream ∈ first, frame.credit = 0 →
      stream.unacked ≤ max (stream.unacked - frame.credit) 0 := by
    intro stream hstream hcredit
    rw [hcredit]
    omega
  cases h with
  | openDial =>
    rintro _ ⟨⟩
    exact .inl ⟨rfl, rfl⟩
  | ackReject | dataOverflow | closeKnown | dataUnknown | ackUnknown | closeUnknown => simp
  | openIgnore | openRefuse | ackIgnore | dataEmpty =>
    exact fun later hlater ↦ .inr ⟨later, hlater, rfl, hsame later hlater rfl⟩
  | ackAccept _ _ stream | dataQueue _ stream =>
    rintro _ ⟨⟩
    exact .inr ⟨stream, rfl, rfl, hsame stream rfl rfl⟩
  | ackCredit _ stream =>
    rintro _ ⟨⟩
    exact .inr ⟨stream, rfl, rfl, le_refl _⟩

/-- An answer to a frame opens nothing and carries nothing. -/
theorem receive_frames (h : Receive c remote id frame first effects last) :
    ∀ answer ∈ frames effects, answer.opening = false ∧ answer.data = [] ∧ answer.credit = 0 := by
  intro answer hanswer
  obtain ⟨target, heffect⟩ := mem_frames.mp hanswer
  cases h <;> simp_all [Frame.opening, Frame.data, Frame.credit]

end

namespace Backed

variable {c : Context} {allow : Allowance} {id : UInt32} {sent : QByteArray} {unacked : ℤ}
  {channel back : List Frame} {receiver last : Option Stream} {effects : List Effect}

/-- What covers `sent` and `unacked` once nothing opening travels. -/
theorem of_last (hchannel : ∀ frame ∈ channel, frame.opening = false)
    (hlast : ∀ later ∈ last, sent <:+ later.sock.written ++ later.pending ++ bytes channel ∧
      unacked ≤ ((bytes channel).length + later.pending.length + later.sock.writeBuffer.length +
        credits back : ℕ)) : Backed sent unacked channel back last := by
  cases last with
  | none => exact .gone hchannel rfl
  | some later => exact .kept hchannel later rfl (hlast later rfl).1 (hlast later rfl).2

theorem of_unanswered (hchannel : ∀ frame ∈ channel, frame.opening = false)
    (hlast : last = none ∨ ∃ later, last = some later ∧ later.ready = false ∧
      later.dialer = false) : Backed sent unacked channel back last := by
  rcases hlast with hnone | ⟨later, hlater, hready, hdialer⟩
  · exact .gone hchannel hnone
  · exact .unanswered hchannel later hlater hready hdialer

/-- The receiver moves. -/
theorem move (h : Backed sent unacked channel back receiver)
    (honline : c.Online) (hsound : ∀ stream ∈ receiver, stream.Sound)
    (hmove : Move c allow id receiver effects last) :
    Backed sent unacked channel (back ++ frames effects) last := by
  cases h with
  | coming before frame after hchannel hopening hafter hsent hunacked =>
    exact .coming before frame after hchannel hopening hafter hsent hunacked
  | gone hchannel hgone =>
    rw [hgone] at hmove
    exact .gone hchannel (Link.eq_none_of_move hmove).1
  | unanswered hchannel stream hstream hready hdialer =>
    subst hstream
    exact of_unanswered hchannel (move_unanswered (hsound stream rfl) hready hdialer hmove)
  | kept hchannel stream hstream hsent hunacked =>
    subst hstream
    refine of_last hchannel fun later hlater ↦ ?_
    obtain ⟨_, ⟨⟩, hwritten⟩ := move_written hsound hmove later hlater
    obtain ⟨_, ⟨⟩, -, hlength⟩ := (move_receiver honline hsound hmove).1 later hlater
    refine ⟨hwritten ▸ hsent, ?_⟩
    rw [credits_append]
    push_cast at hunacked ⊢
    omega

/-- The receiver is a new local connection. -/
theorem create {serviceId : QString} (h : Backed sent unacked channel back receiver)
    (hcreate : Create c serviceId id receiver effects last) :
    Backed sent unacked channel (back ++ frames effects) last := by
  cases h with
  | coming before frame after hchannel hopening hafter hsent hunacked =>
    exact .coming before frame after hchannel hopening hafter hsent hunacked
  | gone hchannel | unanswered hchannel | kept hchannel =>
    apply of_unanswered hchannel
    cases hcreate with
    | announce => exact .inr ⟨_, rfl, rfl, rfl⟩
    | abandon => exact .inl rfl

/-- The receiver takes the next frame. -/
theorem receive (h : Backed sent unacked (frame :: channel) back receiver) (honline : c.Online)
    (hreceive : Receive c remote id frame receiver effects last) :
    Backed sent unacked channel (back ++ frames effects) last := by
  have hrest : (∀ other ∈ frame :: channel, other.opening = false) →
      frame.opening = false ∧ frame.type ≠ .tunnelOpen ∧
        ∀ other ∈ channel, other.opening = false := by
    intro hchannel
    have hfirst := hchannel frame mem_cons_self
    refine ⟨hfirst, ?_, fun other hother ↦ hchannel other (mem_cons_of_mem _ hother)⟩
    intro htype
    cases frame <;> simp [Frame.type, Frame.opening] at htype hfirst
  cases h with
  | coming before opener after hchannel hopening hafter hsent hunacked =>
    cases before with
    | nil =>
      -- the opening frame itself: what follows it is all that counts
      obtain ⟨rfl, rfl⟩ := cons.inj hchannel
      refine of_last hafter fun later _ ↦ ⟨hsent.trans (suffix_append _ _), ?_⟩
      push_cast
      omega
    | cons _ before =>
      obtain ⟨-, htail⟩ := cons.inj hchannel
      exact .coming before opener after htail hopening hafter hsent hunacked
  | gone hchannel hgone =>
    obtain ⟨-, htype, hchannel⟩ := hrest hchannel
    subst hgone
    refine .gone hchannel (Option.eq_none_iff_forall_ne_some.mpr fun later hlater ↦ ?_)
    obtain ⟨_, ⟨⟩, -⟩ := Link.descends_of_receive hreceive htype later hlater
  | unanswered hchannel stream hstream hready hdialer =>
    obtain ⟨hfirst, -, hchannel⟩ := hrest hchannel
    subst hstream
    exact of_unanswered hchannel (receive_unanswered hready hdialer hfirst hreceive)
  | kept hchannel stream hstream hsent hunacked =>
    obtain ⟨-, htype, hchannel⟩ := hrest hchannel
    subst hstream
    obtain ⟨-, hcredits, hlast⟩ := receive_receiver honline htype hreceive
    refine of_last hchannel fun later hlater ↦ ?_
    obtain ⟨_, ⟨⟩, hpending, hsock⟩ := hlast later hlater
    rw [bytes_cons] at hsent hunacked
    rw [hpending, hsock]
    refine ⟨by simpa only [append_assoc] using hsent, ?_⟩
    rw [length_append] at hunacked
    rw [length_append, credits_append, hcredits]
    push_cast at hunacked ⊢
    omega

end Backed

namespace Link

/-- The left side's backlog is covered. -/
def Backlogged (l : Link) : Prop :=
  ∀ sender ∈ l.left, Backed sender.sock.taken sender.unacked l.fly l.back l.right

section

variable {silent : Prop} {id : UInt32} {l l' : Link}

/-- The sender's own steps. -/
theorem Backlogged.leftStep (h : l.Backlogged) (hsound : l.Sound)
    (hstep : LeftStep silent id l l') : l'.Backlogged := by
  intro later hlater
  cases hstep with
  | timer => exact h later hlater
  | create honline hcreate =>
    have hfresh : later.sock.taken = [] ∧ later.unacked = 0 := by
      generalize l.left = first at hcreate
      cases hcreate with
      | announce =>
        cases hlater
        exact ⟨rfl, rfl⟩
      | abandon => simp [acts] at hlater
    rw [hfresh.1, hfresh.2]
    exact .start _ _ _
  | move honline hmove =>
    rcases move_opening hsound.1 hmove with hframes | hfresh
    · obtain ⟨sender, hsender, htaken⟩ := move_taken honline hsound.1 hmove later hlater
      obtain ⟨hread, hunacked, -⟩ := move_sender honline hmove
      obtain ⟨sender', hsender', hcount⟩ := hunacked later hlater
      obtain rfl : sender = sender' := Option.some.inj (hsender.symm.trans hsender')
      rw [htaken, hcount, hread]
      exact (h sender hsender).send hframes
    · rw [(hfresh later hlater).1, (hfresh later hlater).2]
      exact .start _ _ _
  | receive honline hback hreceive =>
    rcases receive_taken hreceive later hlater with ⟨htaken, hunacked⟩ |
      ⟨sender, hsender, htaken, hunacked⟩
    · rw [htaken, hunacked]
      exact .start _ _ _
    · have hframes := receive_frames hreceive
      have hempty : bytes (frames _) = [] :=
        flatMap_eq_nil_iff.mpr fun frame hframe ↦ (hframes frame hframe).2.1
      have hbacked := h sender hsender
      rw [hback] at hbacked
      have hsent := (hbacked.credit hunacked).send fun frame hframe ↦ (hframes frame hframe).1
      rw [hempty, append_nil, length_nil, Nat.cast_zero, add_zero] at hsent
      rw [htaken]
      exact hsent

/-- The receiver's steps. -/
theorem Backlogged.rightStep (h : l.swap.Backlogged) (hsound : l.Sound)
    (hstep : LeftStep silent id l l') : l'.swap.Backlogged := by
  intro sender hsender
  cases hstep with
  | timer => exact h sender hsender
  | create honline hcreate => exact (h sender hsender).create hcreate
  | move honline hmove => exact (h sender hsender).move honline hsound.1 hmove
  | receive honline hback hreceive =>
    have hbacked : Backed _ _ l.back l.fly l.left := h sender hsender
    rw [hback] at hbacked
    exact hbacked.receive honline hreceive

end

end Link

/-- The backlog is covered in every state that two managers reach. -/
theorem Pair.backlogged_run {json : QJsonDocument} (hjson : json.Lawful) {peerIp : Side → QString}
    (hpeer : ∀ side, peerIp side ≠ "") {actions : List Action}
    (hsteady : ∀ action ∈ actions, action.steady peerIp = true) (side : Side) (id : UInt32) :
    (((start peerIp).run json actions).link side id).Backlogged := by
  refine link_run_induction hjson (session_start peerIp) hpeer hsteady
    (fun l l' hsound hstep h ↦ h.leftStep hsound hstep)
    (fun l l' hsound hstep h ↦ h.rightStep hsound hstep) ?_
  rw [link_start]
  simp [Link.Backlogged, Link.idle]

end DdeCooperation.Tunnel
