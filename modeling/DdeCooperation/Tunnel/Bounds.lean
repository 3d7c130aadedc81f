import DdeCooperation.Tunnel.Steps

/-!
# Bounds that hold whatever the peer sends

The counters of a stream stay within their limits in every run, also when the
peer is hostile. Besides the limits the invariant records how `ready`, the
connect timer and the socket go together: a stream that is not ready has moved no
bytes yet and its timer is running.
-/

namespace DdeCooperation.Tunnel

open Qt Foundations

variable {c : Context} {id : UInt32} {first last : Option Stream} {effects : List Effect}
  {m : TunnelManager}

/-- The invariant of one stream. -/
structure Stream.Sound (stream : Stream) : Prop where
  unacked_nonneg : 0 ≤ stream.unacked
  unacked_le : stream.unacked ≤ kWindowSize
  pending_le : stream.pending.length ≤ kMaxPending
  dialAttempts_le : stream.dialAttempts ≤ kDialAttempts
  accepted : stream.dialer = false → stream.sock.state = .connected
  waiting : stream.ready = false → stream.timeout = true ∧ stream.unacked = 0 ∧
    stream.sock.taken = [] ∧ stream.sock.drained = [] ∧ stream.sock.writeBuffer = []
  established : stream.ready = true → stream.timeout = false ∧ stream.sock.state = .connected

namespace Stream.Sound

variable {stream : Stream}

theorem createStream (serviceId token : QString) (dialer : Bool) {state : SocketState}
    (h : dialer = false → state = .connected) :
    (TunnelManager.createStream serviceId token dialer state).Sound where
  unacked_nonneg := le_refl 0
  unacked_le := by simp [TunnelManager.createStream]
  pending_le := Nat.zero_le _
  dialAttempts_le := Nat.zero_le _
  accepted := h
  waiting := fun _ ↦ ⟨rfl, rfl, rfl, rfl, rfl⟩
  established := by simp [TunnelManager.createStream]

theorem readChunk (h : stream.Sound) (hready : stream.ready = true)
    (hwindow : stream.unacked < kWindowSize) : stream.readChunk.2.Sound := by
  refine { h with unacked_nonneg := ?_, unacked_le := Stream.readChunk_unacked_le hwindow, waiting := fun hwaiting ↦ absurd (hready.symm.trans hwaiting) (by simp) }
  have hnonneg := h.unacked_nonneg
  simp only [Stream.readChunk]
  omega

theorem writeChunk (h : stream.Sound) (hready : stream.ready = true) (bytes : ℕ) :
    (stream.writeChunk bytes).2.Sound := by
  refine { h with pending_le := ?_, waiting := fun hwaiting ↦ absurd (hready.symm.trans hwaiting) (by simp) }
  have hpending := h.pending_le
  simp only [Stream.writeChunk, List.length_drop]
  omega

theorem move {allow : Allowance} (hmove : Move c allow id first effects last)
    (h : ∀ stream ∈ first, stream.Sound) : ∀ stream ∈ last, stream.Sound := by
  cases hmove with
  | signal => exact h
  | close | giveUp | drop => simp
  | read stream hready hwindow =>
    rintro _ ⟨⟩
    exact (h stream rfl).readChunk hready hwindow
  | write stream bytes hready =>
    rintro _ ⟨⟩
    exact (h stream rfl).writeChunk hready bytes
  | arrive stream =>
    rintro _ ⟨⟩
    have hstream := h stream rfl
    exact { hstream with }
  | drain stream bytes hpos hmax hbuffer =>
    rintro _ ⟨⟩
    have hstream := h stream rfl
    refine { hstream with waiting := ?_ }
    -- a stream that is not ready has an empty write buffer
    intro hwaiting
    have hempty := (hstream.waiting hwaiting).2.2.2.2
    rw [hempty] at hbuffer
    simp only [List.length_nil] at hbuffer
    omega
  | retry stream hready hdialer hattempts =>
    rintro _ ⟨⟩
    have hstream := h stream rfl
    refine { hstream with dialAttempts_le := hattempts, accepted := ?_, established := ?_ }
    · intro haccepted
      rw [hdialer] at haccepted
      simp at haccepted
    · intro hopen
      rw [hready] at hopen
      simp at hopen
  | redial stream service hready hservice hstate =>
    rintro _ ⟨⟩
    have hstream := h stream rfl
    refine { hstream with accepted := fun haccepted ↦ absurd (hstream.accepted haccepted) hstate, waiting := ?_, established := ?_ }
    · intro hwaiting
      exact ⟨(hstream.waiting hwaiting).1, (hstream.waiting hwaiting).2.1, rfl, rfl, rfl⟩
    · intro hopen
      rw [hready] at hopen
      simp at hopen
  | connect stream =>
    rintro _ ⟨⟩
    have hstream := h stream rfl
    exact { hstream with accepted := fun _ ↦ rfl, waiting := by simp, established := fun _ ↦ ⟨rfl, rfl⟩ }

theorem moves {allow : Allowance} (hmoves : Moves c allow id first effects last)
    (h : ∀ stream ∈ first, stream.Sound) : ∀ stream ∈ last, stream.Sound :=
  hmoves.preserves (P := fun state ↦ ∀ stream ∈ state, stream.Sound) (fun _ _ _ ↦ move) h

theorem create {serviceId : QString} (hcreate : Create c serviceId id first effects last) :
    ∀ stream ∈ last, stream.Sound := by
  cases hcreate with
  | announce token =>
    rintro _ ⟨⟩
    exact createStream serviceId token false fun _ ↦ rfl
  | abandon => simp

theorem receive {remote : QString} {frame : Frame}
    (hreceive : Receive c remote id frame first effects last)
    (h : ∀ stream ∈ first, stream.Sound) : ∀ stream ∈ last, stream.Sound := by
  cases hreceive with
  | openIgnore | openRefuse | ackIgnore | dataUnknown | dataEmpty | ackUnknown | closeUnknown =>
    exact h
  | ackReject | dataOverflow | closeKnown => simp
  | openDial serviceId token =>
    rintro _ ⟨⟩
    exact createStream serviceId token true (by simp)
  | ackAccept token reason stream hdialer =>
    rintro _ ⟨⟩
    have hstream := h stream rfl
    exact { hstream with waiting := by simp, established := fun _ ↦ ⟨rfl, hstream.accepted hdialer⟩ }
  | dataQueue data stream hfits =>
    rintro _ ⟨⟩
    have hstream := h stream rfl
    exact { hstream with pending_le := by simpa using hfits }
  | ackCredit consumed stream =>
    rintro _ ⟨⟩
    have hstream := h stream rfl
    have hnonneg := hstream.unacked_nonneg
    have hle := hstream.unacked_le
    have hclamped : max (stream.unacked - consumed.toNat) 0 ≤ kWindowSize := by omega
    refine { hstream with unacked_nonneg := le_max_right _ _, unacked_le := hclamped, waiting := ?_ }
    intro hwaiting
    obtain ⟨htimer, hzero, hbytes⟩ := hstream.waiting hwaiting
    have hstill : max (stream.unacked - consumed.toNat) 0 = 0 := by omega
    exact ⟨htimer, hstill, hbytes⟩

theorem turn {json : QJsonDocument} {event : Event}
    (hturn : Turn json m id event first effects last) (h : ∀ stream ∈ first, stream.Sound) :
    ∀ stream ∈ last, stream.Sound := by
  cases hturn with
  | moves hmoves => exact moves hmoves h
  | create _ htrace =>
    exact htrace.preserves (P := fun state ↦ ∀ stream ∈ state, stream.Sound)
      (fun _ _ _ hcreate _ ↦ create hcreate) h
  | receive _ _ _ hreceive hmoves => exact moves hmoves (receive hreceive h)

end Stream.Sound

namespace TunnelManager

theorem Served.handling {json : QJsonDocument} {m' : TunnelManager} {event : Event}
    (h : m.Served) (hhandling : Handling json m event m') : m'.Served := by
  cases hhandling with
  | setting hstreams hforwards =>
    refine h.of_origin hforwards fun id last hfind _ ↦ ⟨last, ?_, rfl, rfl⟩
    rwa [findStream, hstreams] at hfind
  | setPeer => exact h.of_origin rfl fun id last hfind _ ↦ ⟨last, hfind, rfl, rfl⟩
  | sweep _ hserved => exact hserved h
  | disconnect _ hserved =>
    exact (hserved h).of_origin rfl fun id last hfind _ ↦ ⟨last, hfind, rfl, rfl⟩
  | act hacts => exact h.acts hacts
  | ignore => exact h
  | receive _ hreceives => exact h.receives hreceives
  | @accept serviceId _ forward _ hforward hforwards hevolves =>
    obtain ⟨new, -, htrace⟩ := hevolves.each
    refine ⟨fun id stream hfind hdialer ↦ ?_, by rw [hforwards]; exact h.length_le⟩
    have hcreated := htrace id
    rw [hfind] at hcreated
    rw [hforwards]
    -- an old stream has its forward already, a new one was accepted on it
    rcases Create.origin hcreated with hold | ⟨hservice, -⟩
    · exact h.forward id stream hold hdialer
    · exact ⟨forward, by rw [hservice, hforward]⟩

/-- The limits of a manager. -/
structure Bounded (m : TunnelManager) : Prop where
  sound : ∀ id, ∀ stream ∈ m.findStream id, stream.Sound
  served : m.Served

/-- A manager with no streams and no forwards. -/
theorem bounded_of_empty (hstreams : m.streams = ∅) (hforwards : m.forwards = ∅) : m.Bounded where
  sound := by simp [findStream, hstreams]
  served := ⟨by simp [findStream, hstreams], by simp [hforwards]⟩

theorem Bounded.step (json : QJsonDocument) (h : m.Bounded) (event : Event) :
    (m.step json event).Bounded where
  sound id := Stream.Sound.turn (turn_step json m event id) (h.sound id)
  served := h.served.handling (handling_step json m event)

theorem Bounded.run (json : QJsonDocument) (h : m.Bounded) (events : List Event) :
    (m.run json events).Bounded :=
  List.foldlRecOn _ _ h fun _ hm event _ ↦ hm.step json event

/-- Whatever happens, every stream keeps to its limits and its phase. -/
theorem bounded_run (json : QJsonDocument) (events : List Event) :
    (({} : TunnelManager).run json events).Bounded :=
  (bounded_of_empty rfl rfl).run json events

end TunnelManager

end DdeCooperation.Tunnel
