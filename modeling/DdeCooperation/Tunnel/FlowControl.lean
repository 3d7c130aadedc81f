import DdeCooperation.Tunnel.Backlog

/-!
# Flow control does not get stuck

A stream is pumped when bytes arrive, when it becomes ready and when an ACK takes
the unacknowledged count below `kWindowLowWater`. Every handler therefore leaves a
ready stream with unread bytes at or above the low water mark. When nothing
travels and the receiver has written everything, the count is zero: there are no
unread bytes.
-/

namespace DdeCooperation.Tunnel

open Qt Foundations

/-- Unread bytes of a ready stream wait for an ACK that is still owed. -/
def Stream.Awake (stream : Stream) : Prop :=
  stream.ready = true → stream.sock.readBuffer ≠ [] → (kWindowLowWater : ℤ) ≤ stream.unacked

section

variable {c : Context} {allow : Allowance} {id : UInt32} {first last : Option Stream}
  {effects : List Effect}

/-- Moves that neither take bytes from the application nor make a stream ready. -/
theorem awake_move (harrive : ¬ allow.arrive) (hconnect : ¬ allow.connect)
    (h : Move c allow id first effects last) (hfirst : ∀ stream ∈ first, stream.Awake) :
    ∀ stream ∈ last, stream.Awake := by
  cases h with
  | signal => exact hfirst
  | close | giveUp | drop => simp
  | arrive _ _ h => exact absurd h harrive
  | connect _ h => exact absurd h hconnect
  | write stream | drain stream =>
    rintro _ ⟨⟩
    exact hfirst stream rfl
  | retry stream hready | redial stream _ hready =>
    rintro _ ⟨⟩ hready'
    simp [hready] at hready'
  | read stream hready =>
    rintro _ ⟨⟩ _ hunread
    have hbuffer : stream.sock.readBuffer ≠ [] := by
      intro hempty
      simp [Stream.readChunk, QTcpSocket.read, hempty] at hunread
    have hlow := hfirst stream rfl hready hbuffer
    simp only [Stream.readChunk]
    omega

theorem awake_moves (harrive : ¬ allow.arrive) (hconnect : ¬ allow.connect)
    (h : Moves c allow id first effects last) (hfirst : ∀ stream ∈ first, stream.Awake) :
    ∀ stream ∈ last, stream.Awake :=
  h.preserves (P := fun state ↦ ∀ stream ∈ state, stream.Awake)
    (fun _ _ _ hmove ↦ awake_move harrive hconnect hmove) hfirst

/-- Frames other than OPEN_ACK and ACK. -/
theorem awake_receive {remote : QString} {frame : Frame} (hopenAck : frame.type ≠ .tunnelOpenAck)
    (hack : frame.type ≠ .tunnelAck) (h : Receive c remote id frame first effects last)
    (hfirst : ∀ stream ∈ first, stream.Awake) : ∀ stream ∈ last, stream.Awake := by
  cases h with
  | openIgnore | openRefuse | dataEmpty => exact hfirst
  | openDial =>
    rintro _ ⟨⟩ hready
    simp [TunnelManager.createStream] at hready
  | ackIgnore | ackReject | ackAccept => exact absurd rfl hopenAck
  | ackUnknown | ackCredit => exact absurd rfl hack
  | dataUnknown | dataOverflow | closeUnknown | closeKnown => simp
  | dataQueue data stream =>
    rintro _ ⟨⟩
    exact hfirst stream rfl

end

namespace TunnelManager

variable {m : TunnelManager} {id : UInt32}

/-- The pump stops with a full window or an empty read buffer. -/
theorem awake_pump : ∀ stream ∈ (m.pump id).findStream id, stream.Awake := by
  unfold pump
  cases hfind : m.findStream id with
  | none => simp [hfind]
  | some stream =>
    cases hready : stream.ready with
    | false =>
      simp only [hready, Bool.not_false, if_true, hfind]
      rintro _ ⟨⟩ hready'
      simp [hready] at hready'
    | true =>
      simp only [hready, Bool.not_true, Bool.false_eq_true, if_false, findStream_setStream]
      rintro _ ⟨⟩ _ hunread
      rcases Stream.pumpLoop_exhausts _ stream (le_refl _) with hfull | hempty
      · exact le_trans (by decide) hfull
      · exact absurd (List.length_eq_zero_iff.mp hempty) hunread

theorem awake_readyRead (hfirst : ∀ stream ∈ m.findStream id, stream.Awake) (data : QByteArray) :
    ∀ stream ∈ (m.readyRead id data).findStream id, stream.Awake := by
  unfold readyRead
  split
  · exact hfirst
  · split
    · exact hfirst
    · exact awake_pump

variable {writes : List WriteResult}

theorem awake_connected (hsend : m.send = true) (hfirst : ∀ stream ∈ m.findStream id, stream.Awake) :
    ∀ stream ∈ (m.connected id writes).findStream id, stream.Awake := by
  unfold connected
  split
  · exact hfirst
  · split
    · exact hfirst
    · simp only [setStream, hsend, Bool.not_true, Bool.false_eq_true, if_false]
      exact awake_pump

variable {json : QJsonDocument} {payload : QByteArray}

theorem awake_handleOpenAck {ok : Bool}
    {token reason : QString} (hparse : parseOpenAck json payload = some (id, ok, token, reason))
    (hfirst : ∀ stream ∈ m.findStream id, stream.Awake) (remote : QString) :
    ∀ stream ∈ (m.handleOpenAck json remote payload writes).findStream id, stream.Awake := by
  unfold handleOpenAck
  rw [hparse]
  dsimp only
  split
  · exact hfirst
  · next stream hfind =>
    split
    · exact hfirst
    · split
      · exact hfirst
      · split
        · simp [destroyStream_some hfind]
        · exact awake_pump

theorem awake_handleAck {consumed : UInt32}
    (hread : readU32 payload 0 = some id) (hconsumed : readU32 payload 4 = some consumed)
    (hfirst : ∀ stream ∈ m.findStream id, stream.Awake) :
    ∀ stream ∈ (m.handleAck payload).findStream id, stream.Awake := by
  unfold handleAck
  rw [hread, hconsumed]
  dsimp only
  split
  · exact hfirst
  · split
    · exact awake_pump
    · next hlow =>
      rw [findStream_setStream]
      rintro _ ⟨⟩ _ _
      exact not_lt.mp hlow

theorem awake_onTunnelMessage {mask : ℤ} {remote : QString} {frame : Frame}
    (hadmitted : m.admitted json mask payload remote = some frame)
    (hfirst : ∀ stream ∈ m.findStream frame.id, stream.Awake) :
    ∀ stream ∈ (m.onTunnelMessage json mask payload remote writes).findStream frame.id,
      stream.Awake := by
  obtain ⟨hmask, hreads⟩ := reads_of_decode (decode_of_admitted hadmitted)
  obtain ⟨left, middle, right, -, hreceive, hmoves, -⟩ :=
    (receives_onTunnelMessage writes hadmitted).receive
  cases frame with
  | tunnelOpenAck id ok token reason =>
    rw [onTunnelMessage_of_admitted writes hadmitted, dispatch, hmask]
    exact awake_handleOpenAck hreads hfirst remote
  | tunnelAck id consumed =>
    rw [onTunnelMessage_of_admitted writes hadmitted, dispatch, hmask]
    exact awake_handleAck hreads.1 hreads.2 hfirst
  | tunnelOpen | tunnelData | tunnelClose =>
    exact awake_moves (fun h ↦ h) (fun h ↦ h) hmoves
      (awake_receive (by simp [Frame.type]) (by simp [Frame.type]) hreceive hfirst)

/-- Every event leaves every stream awake. -/
theorem awake_step (json : QJsonDocument) (hsend : m.send = true) (event : Event)
    (hfirst : ∀ stream ∈ m.findStream id, stream.Awake) :
    ∀ stream ∈ (m.step json event).findStream id, stream.Awake := by
  by_cases harrive : (m.allowance event id).arrive
  · obtain ⟨data, rfl⟩ := harrive
    exact awake_readyRead hfirst data
  by_cases hconnect : (m.allowance event id).connect
  · obtain ⟨writes, rfl⟩ := hconnect
    exact awake_connected hsend hfirst
  have hturn := m.turn_step json event id
  generalize hlast : (m.step json event).findStream id = last at hturn ⊢
  generalize about id (m.emitted json event) = effects at hturn
  cases hturn with
  | moves hmoves => exact awake_moves harrive hconnect hmoves hfirst
  | create _ htrace =>
    refine htrace.preserves (P := fun state ↦ ∀ stream ∈ state, stream.Awake) ?_ hfirst
    intro before labels after hcreate _
    cases hcreate with
    | announce =>
      rintro _ ⟨⟩ hready
      simp [createStream] at hready
    | abandon => simp
  | receive _ hadmitted hid =>
    subst hid
    rw [← hlast]
    exact awake_onTunnelMessage hadmitted hfirst

end TunnelManager

namespace Pair

/-- Both sides of a pair are awake in every state. -/
theorem awake_run (json : QJsonDocument) {peerIp : Side → QString} {actions : List Action}
    (hsteady : ∀ action ∈ actions, action.steady peerIp = true) (side : Side) (id : UInt32) :
    ∀ stream ∈ (((start peerIp).run json actions).manager side).findStream id, stream.Awake := by
  have hstart : (start peerIp).Session peerIp ∧ ∀ side id,
      ∀ stream ∈ ((start peerIp).manager side).findStream id, stream.Awake :=
    ⟨session_start peerIp, fun side id stream hstream ↦ by
      simp [start, TunnelManager.findStream] at hstream⟩
  refine (List.foldlRecOn actions (act json) (motive := fun p ↦ p.Session peerIp ∧ ∀ side id,
    ∀ stream ∈ (p.manager side).findStream id, stream.Awake) hstart ?_).2 side id
  rintro p ⟨hsession, hawake⟩ action haction
  refine ⟨hsession.act (hsteady action haction), ?_⟩
  have hupdate : ∀ side event delivered, ∀ which id, ∀ stream ∈
      ((Pair.mk (Function.update p.manager side ((p.manager side).step json event))
        delivered).manager which).findStream id, stream.Awake := by
    intro side event delivered
    refine (Function.forall_update_iff p.manager fun _ m ↦
      ∀ id, ∀ stream ∈ m.findStream id, stream.Awake).mpr ⟨fun id ↦ ?_, fun which _ ↦ hawake which⟩
    exact TunnelManager.awake_step json (hsession.online side).send event (hawake side id)
  cases action with
  | handle side event => exact hupdate side event p.delivered
  | deliver side writes =>
    unfold act
    dsimp only
    split
    · exact hawake
    · exact hupdate side _ _

/-- A stream that is ready on both sides and has nothing travelling, pending or unwritten. -/
structure Quiet (p : Pair) (id : UInt32) (stream : Side → Stream) : Prop where
  found : ∀ side, (p.manager side).findStream id = some (stream side)
  ready : ∀ side, (stream side).ready = true
  flight : ∀ side, p.inFlight side id = []
  pending : ∀ side, (stream side).pending = []
  buffer : ∀ side, (stream side).sock.writeBuffer = []

theorem no_unread_of_quiet {json : QJsonDocument} (hjson : json.Lawful) {peerIp : Side → QString}
    (hpeer : ∀ side, peerIp side ≠ "") {actions : List Action}
    (hsteady : ∀ action ∈ actions, action.steady peerIp = true) {p : Pair}
    (hrun : p = (start peerIp).run json actions) {id : UInt32} {stream : Side → Stream}
    (hquiet : p.Quiet id stream) (side : Side) : (stream side).sock.bytesAvailable = 0 := by
  subst hrun
  have hawake := awake_run json hsteady side id (stream side) (hquiet.found side)
    (hquiet.ready side)
  have hbacked := backlogged_run hjson hpeer hsteady side id (stream side) (hquiet.found side)
  simp only [link, hquiet.flight, hquiet.found] at hbacked
  have hunacked : (stream side).unacked ≤ 0 := by
    cases hbacked with
    | coming before frame after hchannel => simp at hchannel
    | gone _ hgone => simp at hgone
    | unanswered _ other hother hwaiting =>
      cases hother
      simp [hquiet.ready side.other] at hwaiting
    | kept _ other hother _ hcovered =>
      cases hother
      simpa [hquiet.pending side.other, hquiet.buffer side.other] using hcovered
  by_contra hunread
  have hlow := hawake (List.length_pos_iff.mp (Nat.pos_of_ne_zero hunread))
  simp only [kWindowLowWater] at hlow
  omega

/-- The rest of `partialRun` arrives, is written and is acknowledged. -/
def quietRun : List Action :=
  partialRun ++
    [.deliver .far [.accepted 3],
      .handle .far (.bytesWritten 5 4 []),
      .deliver .near [],
      .deliver .near []]

def quietPair : Pair := (start twoHosts).run textJson quietRun

def quietStream (side : Side) : Stream :=
  ((quietPair.manager side).findStream 5).getD
    (TunnelManager.createStream "" "" false .unconnected)

theorem quiet_quietPair : quietPair.Quiet 5 quietStream where
  found side := by cases side <;> decide +kernel
  ready side := by cases side <;> decide +kernel
  flight side := by cases side <;> decide +kernel
  pending side := by cases side <;> decide +kernel
  buffer side := by cases side <;> decide +kernel

theorem no_unread_quietPair :
    quietPair.Quiet 5 quietStream ∧ (quietStream .near).sock.taken = [104, 101, 108, 108, 111] ∧
      (quietStream .near).sock.bytesAvailable = 0 :=
  ⟨quiet_quietPair, by decide +kernel, no_unread_of_quiet textJson_lawful twoHosts_ne_empty
    (by decide) rfl quiet_quietPair .near⟩

end Pair

end DdeCooperation.Tunnel
