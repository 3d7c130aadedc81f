import DdeCooperation.Tunnel.Phases
import DdeCooperation.Qt.JsonText

/-!
# Bytes and credit are conserved

A byte that `pump` has read is in one of three places: it travels in a DATA
frame, it waits in the pending queue of the receiver, or it has been handed to the
receiver's socket. The credit that `pump` has used for it is either still with the
byte, until the receiver's socket reports it written, or travels back in an ACK.
Both laws hold for every direction of every stream in every state that two
managers reach with fresh ids.
-/

namespace DdeCooperation.Tunnel

open Qt Foundations List Tunnel.Frame

variable {remote : QString} {frame : Frame} {rest : List Frame}

/-! ## Bytes and credit in flight -/

/-- The data of all frames of a channel, in order. -/
def bytes (channel : List Frame) : QByteArray := channel.flatMap Frame.data

/-- The number of bytes an ACK gives back. -/
def Frame.credit : Frame → ℕ
  | tunnelAck _ consumed => consumed.toNat
  | _ => 0

def credits (channel : List Frame) : ℕ := (channel.map Frame.credit).sum

@[simp] theorem bytes_nil : bytes [] = [] := rfl

@[simp] theorem bytes_cons (frame : Frame) (channel : List Frame) :
    bytes (frame :: channel) = frame.data ++ bytes channel := rfl

@[simp] theorem bytes_append (left right : List Frame) :
    bytes (left ++ right) = bytes left ++ bytes right :=
  flatMap_append

@[simp] theorem credits_nil : credits [] = 0 := rfl

@[simp] theorem credits_cons (frame : Frame) (channel : List Frame) :
    credits (frame :: channel) = frame.credit + credits channel := by
  simp [credits]

@[simp] theorem credits_append (left right : List Frame) :
    credits (left ++ right) = credits left + credits right := by
  simp [credits]

/-- Channels that carry nothing but CLOSE frames. -/
theorem bytes_of_closes {id : UInt32} {channel : List Frame}
    (h : ∀ frame ∈ channel, frame = .tunnelClose id) : bytes channel = [] ∧ credits channel = 0 := by
  induction channel with
  | nil => exact ⟨rfl, rfl⟩
  | cons frame channel ih =>
    obtain ⟨hbytes, hcredits⟩ := ih fun other hother ↦ h other (mem_cons_of_mem _ hother)
    rw [h frame mem_cons_self, bytes_cons, credits_cons, hbytes, hcredits]
    exact ⟨rfl, rfl⟩

namespace Link

/-- The laws for the direction from left to right. -/
structure Conserves (l : Link) : Prop where
  whole : ∀ receiver ∈ l.right,
    readBytes l.leftLog = writtenBytes l.rightLog ++ receiver.pending ++ bytes l.fly
  written_inOrder : writtenBytes l.rightLog <+: readBytes l.leftLog
  credit : ∀ sender ∈ l.left, ∀ receiver ∈ l.right, sender.unacked = ((bytes l.fly).length +
    receiver.pending.length + receiver.sock.writeBuffer.length + credits l.back : ℕ)
  room : ∀ receiver ∈ l.right, (bytes l.fly).length + receiver.pending.length +
    receiver.sock.writeBuffer.length ≤ kWindowSize
  owed : ∀ sender ∈ l.left, (credits l.back : ℤ) ≤ sender.unacked

variable {l : Link} {back : List Frame} {effects : List Effect} {last : Option Stream}

/-- The sender goes on: it reads what it sends, and `unacked` follows. -/
theorem Conserves.sender (h : l.Conserves) (hread : readBytes effects = bytes (frames effects))
    (hunacked : ∀ later ∈ last, later.Sound ∧ ∃ sender ∈ l.left, later.unacked + credits l.back =
    sender.unacked + (bytes (frames effects)).length + credits back)
    (hnone : last = none → bytes (frames effects) = []) :
    ({ l with back := back }.acts effects last).Conserves := by
  have hcredit : ∀ later ∈ last, ∀ receiver ∈ l.right, later.unacked =
      ((bytes (l.fly ++ frames effects)).length + receiver.pending.length +
        receiver.sock.writeBuffer.length + credits back : ℕ) := by
    intro later hlater receiver hreceiver
    obtain ⟨-, sender, hsender, hlater⟩ := hunacked later hlater
    have hsender := h.credit sender hsender receiver hreceiver
    rw [bytes_append, length_append]
    push_cast at hsender ⊢
    omega
  refine ⟨?_, ?_, hcredit, ?_, ?_⟩
  · intro receiver hreceiver
    simp only [acts, readBytes_append, bytes_append, h.whole receiver hreceiver, hread,
      append_assoc]
  · simp only [acts, readBytes_append]
    exact h.written_inOrder.trans (prefix_append _ _)
  · intro receiver hreceiver
    cases last with
    | none =>
      simp only [acts, bytes_append, hnone rfl, append_nil]
      exact h.room receiver hreceiver
    | some later =>
      have hlater := hcredit later rfl receiver hreceiver
      have hwindow := (hunacked later rfl).1.unacked_le
      simp only [acts] at *
      omega
  · intro later hlater
    obtain ⟨-, sender, hsender, hlater⟩ := hunacked later hlater
    have howed := h.owed sender hsender
    simp only [acts]
    omega

/-- The receiver goes on: bytes move from the channel to the pending queue and on to the socket,
and what leaves the socket is given back. -/
theorem Conserves.receiver (h : l.swap.Conserves) (hpending : ∀ later ∈ last, ∃ receiver ∈ l.left,
    receiver.pending ++ bytes l.back = writtenBytes effects ++ later.pending ++ bytes back ∧
    receiver.pending.length + receiver.sock.writeBuffer.length + (bytes l.back).length =
    later.pending.length + later.sock.writeBuffer.length + (bytes back).length +
    credits (frames effects))
    (hnone : last = none → writtenBytes effects = [] ∧ credits (frames effects) = 0) :
    ({ l with back := back }.acts effects last).swap.Conserves := by
  have hwhole : ∀ later ∈ last, readBytes l.rightLog =
      writtenBytes (l.leftLog ++ effects) ++ later.pending ++ bytes back := by
    intro later hlater
    obtain ⟨receiver, hreceiver, hbytes, -⟩ := hpending later hlater
    calc readBytes l.rightLog
        = writtenBytes l.leftLog ++ receiver.pending ++ bytes l.back := h.whole receiver hreceiver
      _ = writtenBytes l.leftLog ++ (writtenBytes effects ++ later.pending ++ bytes back) := by
          rw [append_assoc, hbytes]
      _ = writtenBytes (l.leftLog ++ effects) ++ later.pending ++ bytes back := by
          simp only [writtenBytes_append, append_assoc]
  have hcredit : ∀ sender ∈ l.right, ∀ later ∈ last, sender.unacked =
      ((bytes back).length + later.pending.length + later.sock.writeBuffer.length +
        credits (l.fly ++ frames effects) : ℕ) := by
    intro sender hsender later hlater
    obtain ⟨receiver, hreceiver, -, hlength⟩ := hpending later hlater
    have hsender : sender.unacked = ((bytes l.back).length + receiver.pending.length +
      receiver.sock.writeBuffer.length + credits l.fly : ℕ) := h.credit sender hsender receiver hreceiver
    rw [credits_append]
    push_cast at hsender ⊢
    omega
  refine ⟨hwhole, ?_, hcredit, ?_, ?_⟩
  · cases last with
    | none =>
      simp only [Link.swap, acts, writtenBytes_append, (hnone rfl).1, append_nil]
      exact h.written_inOrder
    | some later =>
      simp only [Link.swap, acts]
      rw [hwhole later rfl, append_assoc]
      exact prefix_append _ _
  · intro later hlater
    obtain ⟨receiver, hreceiver, -, hlength⟩ := hpending later hlater
    have hroom : (bytes l.back).length + receiver.pending.length +
      receiver.sock.writeBuffer.length ≤ kWindowSize := h.room receiver hreceiver
    simp only [Link.swap, acts]
    omega
  · intro sender hsender
    cases last with
    | none =>
      simp only [Link.swap, acts, credits_append, (hnone rfl).2, Nat.add_zero]
      exact h.owed sender hsender
    | some later =>
      rw [hcredit sender hsender later rfl]
      simp only [Link.swap, acts]
      omega

end Link

/-! ## What moves and frames do to either end -/

section

variable {c : Context} {allow : Allowance} {id : UInt32} {first last : Option Stream}
  {effects : List Effect}

theorem move_sender (honline : c.Online) (h : Move c allow id first effects last) :
    readBytes effects = bytes (frames effects) ∧ (∀ later ∈ last, ∃ sender ∈ first,
        later.unacked = sender.unacked + (bytes (frames effects)).length) ∧
      (last = none → bytes (frames effects) = []) := by
  have hsend : c.send = true := (Bool.and_eq_true_iff.mp honline).1
  cases h with
  | signal => exact ⟨rfl, fun later hlater ↦ ⟨later, hlater, by simp [frames]⟩, fun _ ↦ rfl⟩
  | read stream =>
    simp only [Context.sends_eq honline]
    refine ⟨by simp [readBytes, frames, data], ?_, by simp⟩
    rintro _ ⟨⟩
    exact ⟨stream, rfl, by simp [frames, data, Stream.readChunk]⟩
  | close | giveUp | drop =>
    simp [Context.sends_eq honline, readBytes, frames, data]
  | arrive stream | write stream | retry stream | redial stream =>
    refine ⟨rfl, ?_, by simp⟩
    rintro _ ⟨⟩
    exact ⟨stream, rfl, by simp [frames, Stream.writeChunk]⟩
  | drain stream | connect stream =>
    simp only [Context.sends_eq honline, hsend, if_true]
    refine ⟨rfl, ?_, by simp⟩
    rintro _ ⟨⟩
    exact ⟨stream, rfl, by simp [frames, data]⟩

theorem move_receiver (honline : c.Online)
    (hsound : ∀ stream ∈ first, stream.Sound) (h : Move c allow id first effects last) :
    (∀ later ∈ last, ∃ receiver ∈ first, receiver.pending = writtenBytes effects ++ later.pending ∧
      receiver.pending.length + receiver.sock.writeBuffer.length =
        later.pending.length + later.sock.writeBuffer.length + credits (frames effects)) ∧
      (last = none → writtenBytes effects = [] ∧ credits (frames effects) = 0) := by
  have hsend : c.send = true := (Bool.and_eq_true_iff.mp honline).1
  cases h with
  | signal =>
    exact ⟨fun later hlater ↦ ⟨later, hlater, rfl, by simp [frames]⟩, fun _ ↦ ⟨rfl, rfl⟩⟩
  | close | giveUp | drop =>
    simp [Context.sends_eq honline, writtenBytes, frames, credit]
  | arrive stream | retry stream =>
    refine ⟨?_, by simp⟩
    rintro _ ⟨⟩
    exact ⟨stream, rfl, rfl, by simp [frames, QTcpSocket.arrive]⟩
  | read stream | connect stream =>
    simp only [Context.sends_eq honline, hsend, if_true]
    refine ⟨?_, by simp⟩
    rintro _ ⟨⟩
    exact ⟨stream, rfl, rfl, by
      simp [frames, credit, Stream.readChunk, QTcpSocket.read]⟩
  | write stream bytes =>
    refine ⟨?_, by simp⟩
    rintro _ ⟨⟩
    refine ⟨stream, rfl, ?_, ?_⟩
    · simp [writtenBytes, Stream.writeChunk]
    · simp only [Stream.writeChunk, QTcpSocket.write, length_append, length_take,
        length_drop, frames, filterMap_cons, filterMap_nil, credits_nil]
      omega
  | drain stream bytes hpos hmax hbuffer =>
    simp only [Context.sends_eq honline]
    refine ⟨?_, by simp⟩
    rintro _ ⟨⟩
    -- the count of an ACK fits in its field
    have hcount : (UInt32.ofNat bytes).toNat = bytes := by
      rw [UInt32.toNat_ofNat']
      exact Nat.mod_eq_of_lt (lt_of_le_of_lt hmax (by decide))
    refine ⟨stream, rfl, rfl, ?_⟩
    simp only [frames, filterMap_cons, filterMap_nil, credits_cons, credits_nil,
      credit, hcount, QTcpSocket.drain, length_drop]
    omega
  | redial stream _ hready =>
    refine ⟨?_, by simp⟩
    rintro _ ⟨⟩
    exact ⟨stream, rfl, rfl, by
      simp [frames, ((hsound stream rfl).waiting hready).2.2.2.2]⟩

theorem receive_sender (honline : c.Online) (hsound : ∀ stream ∈ first, stream.Sound)
    (howed : ∀ stream ∈ first, (frame.credit : ℤ) ≤ stream.unacked)
    (htype : frame.type ≠ .tunnelOpen) (h : Receive c remote id frame first effects last) :
    readBytes effects = [] ∧ bytes (frames effects) = [] ∧
      ∀ later ∈ last, ∃ sender ∈ first, later.unacked + frame.credit = sender.unacked := by
  cases h with
  | openIgnore | openRefuse | openDial => exact absurd rfl htype
  | ackIgnore | dataEmpty =>
    exact ⟨rfl, rfl, fun later hlater ↦ ⟨later, hlater, by simp [credit]⟩⟩
  | dataUnknown | ackUnknown | closeUnknown | ackReject | closeKnown => exact ⟨rfl, rfl, by simp⟩
  | dataOverflow => simp [Context.sends_eq honline, readBytes, frames, data]
  | ackAccept token reason stream | dataQueue data stream =>
    refine ⟨rfl, rfl, ?_⟩
    rintro _ ⟨⟩
    exact ⟨stream, rfl, by simp [credit]⟩
  | ackCredit consumed stream =>
    refine ⟨rfl, rfl, ?_⟩
    rintro _ ⟨⟩
    refine ⟨stream, rfl, ?_⟩
    have hcredit : (consumed.toNat : ℤ) ≤ stream.unacked := howed stream rfl
    have hclamp : max (stream.unacked - consumed.toNat) 0 + consumed.toNat = stream.unacked := by
      omega
    exact hclamp

theorem receive_receiver (honline : c.Online) (htype : frame.type ≠ .tunnelOpen)
    (h : Receive c remote id frame first effects last) :
    writtenBytes effects = [] ∧ credits (frames effects) = 0 ∧ ∀ later ∈ last, ∃ receiver ∈ first,
        later.pending = receiver.pending ++ frame.data ∧ later.sock = receiver.sock := by
  cases h with
  | openIgnore | openRefuse | openDial => exact absurd rfl htype
  | ackIgnore | dataEmpty =>
    exact ⟨rfl, rfl, fun later hlater ↦ ⟨later, hlater, by simp [Frame.data], rfl⟩⟩
  | dataUnknown | ackUnknown | closeUnknown | ackReject | closeKnown => exact ⟨rfl, rfl, by simp⟩
  | dataOverflow => simp [Context.sends_eq honline, writtenBytes, frames, Frame.credit]
  | ackAccept token reason stream | dataQueue data stream | ackCredit consumed stream =>
    refine ⟨rfl, rfl, ?_⟩
    rintro _ ⟨⟩
    exact ⟨stream, rfl, by simp [Frame.data], rfl⟩

end

namespace Link

/-! ## Steps -/

section

variable {silent : Prop} {id : UInt32} {l : Link} {c : Context} {effects : List Effect}
  {last : Option Stream}

variable {allow : Allowance}

theorem Conserves.move_left (h : l.Conserves) (hsound : l.Sound) (honline : c.Online)
    (hmove : Move c allow id l.left effects last) : (l.acts effects last).Conserves := by
  obtain ⟨hread, hunacked, hnone⟩ := move_sender honline hmove
  refine h.sender hread (fun later hlater ↦ ⟨Stream.Sound.move hmove hsound.1 later hlater, ?_⟩) hnone
  obtain ⟨sender, hsender, heq⟩ := hunacked later hlater
  exact ⟨sender, hsender, by rw [heq]⟩

theorem Conserves.move_right (h : l.swap.Conserves) (hsound : l.Sound) (honline : c.Online)
    (hmove : Move c allow id l.left effects last) : (l.acts effects last).swap.Conserves := by
  obtain ⟨hpending, hnone⟩ := move_receiver honline hsound.1 hmove
  refine h.receiver (fun later hlater ↦ ?_) hnone
  obtain ⟨receiver, hreceiver, hbytes, hlength⟩ := hpending later hlater
  exact ⟨receiver, hreceiver, by rw [hbytes], by omega⟩

theorem Conserves.receive_left (h : l.Conserves) (hsound : l.Sound) (honline : c.Online)
    (hback : l.back = frame :: rest) (htype : frame.type ≠ .tunnelOpen)
    (hreceive : Receive c remote id frame l.left effects last) :
    ({ l with back := rest }.acts effects last).Conserves := by
  have howed : ∀ stream ∈ l.left, (frame.credit : ℤ) ≤ stream.unacked := by
    intro stream hstream
    have hcredits := h.owed stream hstream
    rw [hback, credits_cons] at hcredits
    omega
  obtain ⟨hread, hbytes, hunacked⟩ := receive_sender honline hsound.1 howed htype hreceive
  refine h.sender (hread.trans hbytes.symm)
    (fun later hlater ↦ ⟨Stream.Sound.receive hreceive hsound.1 later hlater, ?_⟩) fun _ ↦ hbytes
  obtain ⟨sender, hsender, heq⟩ := hunacked later hlater
  refine ⟨sender, hsender, ?_⟩
  rw [hback, credits_cons, hbytes, ← heq]
  push_cast
  simp only [length_nil]
  omega

theorem Conserves.receive_right (h : l.swap.Conserves) (honline : c.Online)
    (hback : l.back = frame :: rest) (htype : frame.type ≠ .tunnelOpen)
    (hreceive : Receive c remote id frame l.left effects last) :
    ({ l with back := rest }.acts effects last).swap.Conserves := by
  obtain ⟨hwritten, hcredits, hpending⟩ := receive_receiver honline htype hreceive
  refine h.receiver (fun later hlater ↦ ?_) fun _ ↦ ⟨hwritten, hcredits⟩
  obtain ⟨receiver, hreceiver, hbytes, hsock⟩ := hpending later hlater
  refine ⟨receiver, hreceiver, ?_, ?_⟩
  · rw [hback, hwritten, hbytes, bytes_cons, nil_append, append_assoc]
  · rw [hback, hbytes, hsock, hcredits, bytes_cons, length_append, length_append]
    omega

/-- Nothing has been moved on this link. -/
structure Blank (l : Link) : Prop where
  leftStill : Still l.leftLog
  rightStill : Still l.rightLog
  fly : bytes l.fly = [] ∧ credits l.fly = 0
  back : bytes l.back = [] ∧ credits l.back = 0
  left : ∀ stream ∈ l.left, stream.unacked = 0 ∧ stream.pending = [] ∧ stream.sock.writeBuffer = []
  right : ∀ stream ∈ l.right, stream.unacked = 0 ∧ stream.pending = [] ∧
    stream.sock.writeBuffer = []

theorem Blank.conserves (h : l.Blank) : l.Conserves := by
  have hread := h.leftStill.1
  have hwritten := h.rightStill.2
  have hfly := h.fly.1
  have hback := h.back.2
  refine ⟨?_, by rw [hread, hwritten], ?_, ?_, ?_⟩
  · intro receiver hreceiver
    rw [hread, hwritten, hfly, (h.right receiver hreceiver).2.1]
    rfl
  · intro sender hsender receiver hreceiver
    obtain ⟨-, hpending, hbuffer⟩ := h.right receiver hreceiver
    rw [(h.left sender hsender).1, hfly, hback, hpending, hbuffer]
    rfl
  · intro receiver hreceiver
    obtain ⟨-, hpending, hbuffer⟩ := h.right receiver hreceiver
    rw [hfly, hpending, hbuffer]
    exact Nat.zero_le _
  · intro sender hsender
    rw [(h.left sender hsender).1, hback]
    rfl

theorem Blank.swap (h : l.Blank) : l.swap.Blank :=
  ⟨h.rightStill, h.leftStill, h.back, h.fly, h.right, h.left⟩

theorem Announced.blank (h : l.Announced id) (hsound : l.Sound) : l.Blank := by
  obtain ⟨service, token, rest, hfly, hrest⟩ := h.fly
  refine ⟨h.leftStill, h.rightStill, ?_, by simp [h.back], ?_, by simp [h.right]⟩
  · obtain ⟨hbytes, hcredits⟩ := bytes_of_closes hrest
    rw [hfly, bytes_cons, credits_cons, hbytes, hcredits]
    exact ⟨rfl, rfl⟩
  · intro stream hstream
    obtain ⟨-, hready, hpending⟩ := h.left stream hstream
    obtain ⟨-, hunacked, -, -, hbuffer⟩ := (hsound.1 stream hstream).waiting hready
    exact ⟨hunacked, hpending, hbuffer⟩

/-- The arrival of an OPEN moves nothing either. -/
theorem Announced.blank_receive
    (h : l.swap.Announced id) (hsound : l.Sound) (hback : l.back = frame :: rest)
    (hreceive : Receive c remote id frame l.left effects last) :
    ({ l with back := rest }.acts effects last).Blank := by
  have hblank := (h.blank ⟨hsound.2, hsound.1⟩).swap
  obtain ⟨⟨service, token, rfl⟩, hcloses, hnone, hempty⟩ := h.arriving hback
  rw [hnone] at hreceive
  refine ⟨hblank.leftStill.append ?_, hblank.rightStill, ?_, bytes_of_closes hcloses, ?_,
    hblank.right⟩
  · cases hreceive <;> exact ⟨rfl, rfl⟩
  · simp only [acts, hempty, nil_append]
    cases hreceive <;> exact ⟨rfl, rfl⟩
  · cases hreceive with
    | openIgnore | openRefuse => simp [acts]
    | openDial =>
      rintro _ ⟨⟩
      exact ⟨rfl, rfl, rfl⟩

/-- Both laws survive every step of the left side, in both directions. -/
theorem Conserves.leftStep {l' : Link} (hsound : l.Sound) (hphase : l.Phase id) (hfresh : l'.Fresh)
    (hstep : LeftStep silent id l l') (h : l.Conserves ∧ l.swap.Conserves) :
    l'.Conserves ∧ l'.swap.Conserves := by
  have hsound' := hsound.leftStep hstep
  cases hstep with
  | move honline hmove =>
    exact ⟨h.1.move_left hsound honline hmove, h.2.move_right hsound honline hmove⟩
  | create honline hcreate =>
    have hannounced := (hphase.untouched_of_create honline hcreate hfresh).create honline hcreate
    have hblank := hannounced.blank hsound'
    exact ⟨hblank.conserves, hblank.swap.conserves⟩
  | receive honline hback hreceive =>
    rcases hphase.of_receive hback with hannounced | ⟨htype, -⟩
    · have hblank := hannounced.blank_receive hsound hback hreceive
      exact ⟨hblank.conserves, hblank.swap.conserves⟩
    · exact ⟨h.1.receive_left hsound honline hback htype hreceive,
        h.2.receive_right honline hback htype hreceive⟩
  | timer => exact ⟨⟨h.1.whole, h.1.written_inOrder, h.1.credit, h.1.room, h.1.owed⟩,
      ⟨h.2.whole, h.2.written_inOrder, h.2.credit, h.2.room, h.2.owed⟩⟩

theorem blank_idle : idle.Blank :=
  ⟨⟨rfl, rfl⟩, ⟨rfl, rfl⟩, ⟨rfl, rfl⟩, ⟨rfl, rfl⟩, by simp [idle], by simp [idle]⟩

end

end Link

namespace Pair

/-- Both laws hold for every stream in every state reached with fresh ids. -/
theorem conserves_run {json : QJsonDocument} (hjson : json.Lawful) {peerIp : Side → QString}
    (hpeer : ∀ side, peerIp side ≠ "") {actions : List Action}
    (hsteady : ∀ action ∈ actions, action.steady peerIp = true)
    (hfresh : ((start peerIp).run json actions).FreshIds) (side : Side) (id : UInt32) :
    (((start peerIp).run json actions).link side id).Conserves := by
  refine (fresh_run_induction hjson hpeer hsteady hfresh
    (P := fun l ↦ l.Conserves ∧ l.swap.Conserves) ?_ ?_
    ⟨Link.blank_idle.conserves, Link.blank_idle.conserves⟩ side).1
  · exact fun _ _ hsound hphase hfresh' hstep ↦ Link.Conserves.leftStep hsound hphase hfresh' hstep
  · intro l l' hsound hphase hfresh' hstep h
    exact (Link.Conserves.leftStep hsound hphase hfresh' hstep h.symm).symm

/-! ## Byte-stream integrity -/

/-- What `pump` has read so far from the socket of a stream on one side. -/
def readFrom (p : Pair) (side : Side) (id : UInt32) : QByteArray :=
  readBytes (about id (p.manager side).log)

/-- What `flushPending` has handed so far to the socket of a stream on one side. -/
def handedTo (p : Pair) (side : Side) (id : UInt32) : QByteArray :=
  writtenBytes (about id (p.manager side).log)

/-- What is handed to the destination is a prefix of what was read at the source; while the
destination lives, the rest is pending there or in flight, in this order. -/
theorem handedTo_prefix_readFrom {json : QJsonDocument} (hjson : json.Lawful)
    {peerIp : Side → QString} (hpeer : ∀ side, peerIp side ≠ "") {actions : List Action}
    (hsteady : ∀ action ∈ actions, action.steady peerIp = true) {p : Pair}
    (hrun : p = (start peerIp).run json actions) (hfresh : p.FreshIds) (side : Side)
    (id : UInt32) :
    p.handedTo side.other id <+: p.readFrom side id ∧
      ∀ stream, (p.manager side.other).findStream id = some stream →
        p.readFrom side id =
          p.handedTo side.other id ++ stream.pending ++ bytes (p.inFlight side id) := by
  subst hrun
  have hconserves := conserves_run hjson hpeer hsteady hfresh side id
  exact ⟨hconserves.written_inOrder, hconserves.whole⟩

/-- Addresses under which two hosts know each other. -/
def twoHosts : Side → QString
  | .near => "192.168.0.3"
  | .far => "192.168.0.2"

theorem twoHosts_ne_empty (side : Side) : twoHosts side ≠ "" := by
  cases side <;> decide

/-- A connection to a service of the far side is accepted near, announced, dialled and answered. -/
def openingRun : List Action :=
  [.handle .far (.registerService "echo" "127.0.0.1" 7),
    .handle .near (.startLocalForward "echo" (.ok 9000)),
    .handle .near (.newConnection "echo" [⟨[5], "token"⟩]),
    .deliver .far [],
    .handle .far (.connected 5 []),
    .deliver .near []]

/-- Five bytes are sent in two frames. The first one arrives and is written in part, the second
one still travels, and one byte is acknowledged. -/
def partialRun : List Action :=
  openingRun ++
    [.handle .near (.readyRead 5 [104, 101, 108]),
      .handle .near (.readyRead 5 [108, 111]),
      .deliver .far [.accepted 2],
      .handle .far (.bytesWritten 5 1 [])]

def partialPair : Pair := (start twoHosts).run textJson partialRun

theorem handedTo_prefix_readFrom_partialPair :
    partialPair.handedTo .far 5 = [104, 101] ∧
      partialPair.readFrom .near 5 = [104, 101, 108, 108, 111] ∧
      partialPair.handedTo .far 5 <+: partialPair.readFrom .near 5 :=
  ⟨by decide +kernel, by decide +kernel,
    (handedTo_prefix_readFrom textJson_lawful twoHosts_ne_empty (by decide) rfl
      (by decide +kernel) .near 5).1⟩

/-! ## Credit -/

/-- The credit of every direction of every stream is accounted for. -/
structure CreditConserved (p : Pair) : Prop where
  conserved : ∀ side id sender receiver, (p.manager side).findStream id = some sender →
    (p.manager side.other).findStream id = some receiver →
    sender.unacked = ((bytes (p.inFlight side id)).length + receiver.pending.length +
      receiver.sock.writeBuffer.length + credits (p.inFlight side.other id) : ℕ)
  window : ∀ side id stream, (p.manager side).findStream id = some stream →
    0 ≤ stream.unacked ∧ stream.unacked ≤ kWindowSize ∧ stream.pending.length ≤ kWindowSize
  /-- The next DATA frame fits into the pending queue. -/
  no_overflow : ∀ side id data rest stream, p.travelling side.other = .tunnelData id data :: rest →
    (p.manager side).findStream id = some stream →
    stream.pending.length + data.length ≤ kMaxPending
  /-- The next ACK gives back no more than is owed. -/
  no_clamp : ∀ side id consumed rest stream,
    p.travelling side.other = .tunnelAck id consumed :: rest →
    (p.manager side).findStream id = some stream → 0 ≤ stream.unacked - consumed.toNat

theorem creditConserved_of_fresh {json : QJsonDocument} (hjson : json.Lawful)
    {peerIp : Side → QString} (hpeer : ∀ side, peerIp side ≠ "") {actions : List Action}
    (hsteady : ∀ action ∈ actions, action.steady peerIp = true) {p : Pair}
    (hrun : p = (start peerIp).run json actions) (hfresh : p.FreshIds) : p.CreditConserved := by
  subst hrun
  have hconserves := conserves_run hjson hpeer hsteady hfresh
  have hsession : ((start peerIp).run json actions).Session peerIp :=
    (session_start peerIp).run hsteady
  generalize (start peerIp).run json actions = p at hconserves hsession
  have hroom : ∀ side id stream, (p.manager side).findStream id = some stream →
      (bytes (p.inFlight side.other id)).length + stream.pending.length +
        stream.sock.writeBuffer.length ≤ kWindowSize := by
    intro side id stream hstream
    have hside := hconserves side.other id
    rw [link_other] at hside
    exact hside.room stream hstream
  refine ⟨fun side id sender receiver hsender hreceiver ↦
    (hconserves side id).credit sender hsender receiver hreceiver, ?_, ?_, ?_⟩
  · intro side id stream hstream
    have hsound := (hsession.sound side id).1 stream hstream
    have hfits := hroom side id stream hstream
    exact ⟨hsound.unacked_nonneg, hsound.unacked_le, by omega⟩
  · intro side id data rest stream htravelling hstream
    have hfits := hroom side id stream hstream
    have hflight : p.inFlight side.other id = .tunnelData id data ::
        rest.filter fun frame ↦ frame.id = id := by
      simp [inFlight, htravelling, Frame.id]
    rw [hflight, bytes_cons, List.length_append, Frame.data] at hfits
    have hlimit : kWindowSize ≤ kMaxPending := by decide
    omega
  · intro side id consumed rest stream htravelling hstream
    have howed : (credits (p.inFlight side.other id) : ℤ) ≤ stream.unacked :=
      (hconserves side id).owed stream hstream
    have hflight : p.inFlight side.other id = .tunnelAck id consumed ::
        rest.filter fun frame ↦ frame.id = id := by
      simp [inFlight, htravelling, Frame.id]
    rw [hflight, credits_cons, Frame.credit] at howed
    push_cast at howed
    omega

/-- Of five bytes that count as unacknowledged, two travel, one is pending, one waits in the write
buffer and one is acknowledged by an ACK that travels. -/
theorem creditConserved_partialPair :
    partialPair.CreditConserved ∧
      ((partialPair.manager .near).findStream 5).map (·.unacked) = some 5 ∧
      bytes (partialPair.inFlight .near 5) = [108, 111] ∧
      ((partialPair.manager .far).findStream 5).map (fun stream ↦
        (stream.pending, stream.sock.writeBuffer)) = some ([108], [101]) ∧
      credits (partialPair.inFlight .far 5) = 1 :=
  ⟨creditConserved_of_fresh textJson_lawful twoHosts_ne_empty (by decide) rfl (by decide +kernel),
    by decide +kernel, by decide +kernel, by decide +kernel, by decide +kernel⟩

end Pair

end DdeCooperation.Tunnel
