import DdeCooperation.Tunnel.Bounds

/-!
# Two managers and their channels

Two managers that are each other's peer, joined by two channels that lose nothing
and keep the order. The log of a manager lists every frame it has sent, so a
channel is the part of that list that has not been delivered yet. One action lets
one side handle a local event to completion, or receive the next frame of its
channel. A run is any list of actions, so all interleavings are covered.

The session stays during a run: frames come from the channel only, the send
handler is set and the peer address is not changed.
-/

namespace DdeCooperation.Tunnel

open Qt Foundations

variable {frame : Frame} {json : QJsonDocument} {m : TunnelManager} {effects : List Effect}
  {c : Context} {id : UInt32} {first last : Option Stream} {peerIp : QString}

/-! ## Frames of a log -/

/-- The payload of a DATA frame. -/
def Frame.data : Frame → QByteArray
  | tunnelData _ data => data
  | _ => []

/-- The stream that a frame announces. -/
def Frame.announces : Frame → Option UInt32
  | tunnelOpen id _ _ => some id
  | _ => none

/-- The frames of a log, in the order in which they were sent. -/
def frames (log : List Effect) : List Frame :=
  log.filterMap fun
    | .send _ frame => some frame
    | _ => none

@[simp] theorem frames_nil : frames [] = [] := rfl

@[simp] theorem frames_append (left right : List Effect) :
    frames (left ++ right) = frames left ++ frames right :=
  List.filterMap_append

theorem mem_frames {log : List Effect} :
    frame ∈ frames log ↔ ∃ target, .send target frame ∈ log := by
  constructor
  · intro hframe
    obtain ⟨effect, heffect, hsome⟩ := List.mem_filterMap.mp hframe
    cases effect with
    | send target sent =>
      cases hsome
      exact ⟨target, heffect⟩
    | _ => simp at hsome
  · rintro ⟨target, heffect⟩
    exact List.mem_filterMap.mpr ⟨_, heffect, rfl⟩

/-- The frames about a stream are the frames of the effects about it. -/
theorem frames_about (id : UInt32) (log : List Effect) :
    frames (about id log) = (frames log).filter fun frame ↦ frame.id = id := by
  induction log with
  | nil => rfl
  | cons effect log ih =>
    have hcons : effect :: log = [effect] ++ log := rfl
    rw [hcons, about_append, frames_append, frames_append, List.filter_append, ih]
    congr 1
    cases effect with
    | send target frame =>
      by_cases hid : frame.id = id <;> simp [about, frames, Effect.stream, hid]
    | _ => simp [about, frames, List.filter_cons]

/-! ## Sides, channels and actions -/

inductive Side where
  | near
  | far
  deriving DecidableEq

namespace Side

def other : Side → Side
  | near => far
  | far => near

@[simp] theorem other_other (side : Side) : side.other.other = side := by
  cases side <;> rfl

@[simp] theorem other_ne (side : Side) : side.other ≠ side := by
  cases side <;> simp [other]

theorem eq_or_eq_other (side acting : Side) : acting = side ∨ acting = side.other := by
  cases side <;> cases acting <;> simp [other]

end Side

structure Pair where
  manager : Side → TunnelManager
  /-- How many frames of the other side have been delivered to a side. -/
  delivered : Side → ℕ

inductive Action where
  | handle (side : Side) (event : Event)
  /-- The next frame of the other side arrives. -/
  | deliver (side : Side) (writes : List WriteResult)

def Action.side : Action → Side
  | handle side _ => side
  | deliver side _ => side

/-- The session stays and frames come from the channel only. -/
def Event.steady (peerIp : QString) : Event → Bool
  | setSendHandler set => set
  | setPeer new => new = peerIp
  | onPeerDisconnected => false
  | onTunnelMessage _ _ _ _ => false
  | _ => true

def Action.steady (peerIp : Side → QString) : Action → Bool
  | handle side event => event.steady (peerIp side)
  | deliver _ _ => true

namespace Pair

/-- The frames a side has sent that the other side has not received. -/
def travelling (p : Pair) (side : Side) : List Frame :=
  (frames (p.manager side).log).drop (p.delivered side.other)

/-- Those of them that are about one stream. -/
def inFlight (p : Pair) (side : Side) (id : UInt32) : List Frame :=
  (p.travelling side).filter fun frame ↦ frame.id = id

/-- Two managers that know each other and have done nothing yet. -/
def start (peerIp : Side → QString) : Pair where
  manager side := { send := true, peerIp := peerIp side }
  delivered _ := 0

/-- The managers are each other's peer: a frame arrives from the address the receiver knows. -/
def act (json : QJsonDocument) (p : Pair) : Action → Pair
  | .handle side event =>
    { p with manager := Function.update p.manager side ((p.manager side).step json event) }
  | .deliver side writes =>
    match p.travelling side.other with
    | [] => p
    | frame :: _ =>
      { manager := Function.update p.manager side ((p.manager side).step json
          (.onTunnelMessage frame.type.mask (frame.payload json) (p.manager side).peerIp writes))
        delivered := Function.update p.delivered side (p.delivered side + 1) }

def run (json : QJsonDocument) (p : Pair) (actions : List Action) : Pair :=
  actions.foldl (act json) p

theorem run_append (json : QJsonDocument) (p : Pair) (left right : List Action) :
    p.run json (left ++ right) = (p.run json left).run json right :=
  List.foldl_append

/-- The ids of all streams announced so far, by either side. -/
def announced (p : Pair) : List UInt32 :=
  (frames (p.manager .near).log ++ frames (p.manager .far).log).filterMap Frame.announces

/-- No stream id has been announced twice. -/
def FreshIds (p : Pair) : Prop := p.announced.Nodup

instance (p : Pair) : Decidable p.FreshIds := inferInstanceAs (Decidable (List.Nodup _))

end Pair

/-! ## Honest frames -/

namespace TunnelManager

/-- What a receiver reads from a frame is that frame, unless it is an OPEN or OPEN_ACK that it
cannot make sense of. -/
theorem decode_payload (hjson : json.Lawful) (frame : Frame) :
    decode json frame.type.mask (frame.payload json) = some frame ∨
      decode json frame.type.mask (frame.payload json) = none ∧
        (frame.type = .tunnelOpen ∨ frame.type = .tunnelOpenAck) := by
  unfold decode
  rw [TunnelMessageType.ofMask_mask]
  cases frame with
  | tunnelOpen id service token =>
    simp only [Frame.type, parseOpen_payload hjson]
    split <;> simp
  | tunnelOpenAck id ok token reason =>
    simp only [Frame.type, parseOpenAck_payload hjson]
    split <;> simp
  | tunnelData id data =>
    simp only [Frame.type, Frame.payload, readU32_zero_appendU32, drop_appendU32]
    exact .inl rfl
  | tunnelAck id consumed =>
    obtain ⟨hid, hconsumed⟩ := readU32_appendU32_appendU32 id consumed
    simp only [Frame.type, Frame.payload, hid, hconsumed]
    exact .inl rfl
  | tunnelClose id =>
    have hid : readU32 (appendU32 [] id) 0 = some id := readU32_zero_appendU32 [] id
    simp only [Frame.type, Frame.payload, hid]
    exact .inl rfl

/-- A frame with at most a chunk of data reaches its handler. -/
theorem receives_payload (hjson : json.Lawful)
    (hpeer : m.peerIp ≠ "") (hdata : frame.data.length ≤ kChunkSize) (writes : List WriteResult) :
    Receives m.peerIp frame m (m.step json (.onTunnelMessage frame.type.mask (frame.payload json)
      m.peerIp writes)) := by
  cases hadmitted : m.admitted json frame.type.mask (frame.payload json) m.peerIp with
  | some decoded =>
    have hdecode := decode_of_admitted hadmitted
    have hframe : decoded = frame := by
      rcases decode_payload hjson frame with hsome | ⟨hnone, -⟩
      · rwa [hsome, Option.some.injEq, eq_comm] at hdecode
      · rw [hnone] at hdecode
        simp at hdecode
    rw [hframe] at hadmitted
    exact receives_onTunnelMessage writes hadmitted
  | none =>
    have htype : frame.type = .tunnelOpen ∨ frame.type = .tunnelOpenAck := by
      rcases decode_payload hjson frame with hsome | ⟨-, htype⟩
      · have htrusts : m.trusts m.peerIp = true := by simp [trusts, peerMatches, hpeer]
        have hsize : TUNNEL_MAX_FRAME_SIZE < (frame.payload json).length := by
          by_contra hsize
          simp [admitted, hsize, hsome, htrusts, Option.filter_some] at hadmitted
        cases frame with
        | tunnelOpen => exact .inl rfl
        | tunnelOpenAck => exact .inr rfl
        | tunnelData id data =>
          simp only [Frame.data, Frame.payload, List.length_append, length_appendU32,
            List.length_nil, TUNNEL_MAX_FRAME_SIZE, kChunkSize] at hdata hsize
          omega
        | tunnelAck | tunnelClose =>
          simp [Frame.payload, length_appendU32, TUNNEL_MAX_FRAME_SIZE] at hsize
      · exact htype
    rw [step, onTunnelMessage_of_admitted_none writes hadmitted]
    cases frame with
    | tunnelOpen => exact .ignore (.openIgnore _ _ _)
    | tunnelOpenAck => exact .ignore (.ackIgnore _ _ _ _)
    | tunnelData | tunnelAck | tunnelClose => simp [Frame.type] at htype

end TunnelManager

/-! ## The session stays -/

/-- What holds of the frames of every step holds of the frames of a trace. -/
theorem forall_frames {σ : Type*} {step : σ → List Effect → σ → Prop} {first last : σ}
    {Q : Frame → Prop}
    (hstep : ∀ first labels last, step first labels last → ∀ frame ∈ frames labels, Q frame)
    (h : Trace step first effects last) : ∀ frame ∈ frames effects, Q frame := by
  refine h.preserves_history (P := fun history _ ↦ ∀ frame ∈ frames history, Q frame) ?_ [] (by simp)
  intro before labels after hlast history hhistory frame hframe
  rw [frames_append, List.mem_append] at hframe
  exact hframe.elim (hhistory frame) (hstep _ _ _ hlast frame)

theorem Move.data_le {allow : Allowance} (h : Move c allow id first effects last) :
    ∀ frame ∈ frames effects, frame.data.length ≤ kChunkSize := by
  intro frame hframe
  obtain ⟨target, heffect⟩ := mem_frames.mp hframe
  cases h with
  | read stream =>
    obtain ⟨-, -, rfl⟩ : _ ∧ _ ∧ frame = .tunnelData id stream.readChunk.1 := by
      simpa using heffect
    exact stream.readChunk_length_le
  | connect => split at heffect <;> simp_all [Frame.data]
  | _ => simp_all [Frame.data]

theorem Create.data_le {serviceId : QString} (h : Create c serviceId id first effects last) :
    ∀ frame ∈ frames effects, frame.data.length ≤ kChunkSize := by
  intro frame hframe
  obtain ⟨target, heffect⟩ := mem_frames.mp hframe
  cases h <;> simp_all [Frame.data]

theorem Receive.data_le {remote : QString} (h : Receive c remote id frame first effects last) :
    ∀ frame ∈ frames effects, frame.data.length ≤ kChunkSize := by
  intro answer hanswer
  obtain ⟨target, heffect⟩ := mem_frames.mp hanswer
  cases h <;> simp_all [Frame.data]

namespace TunnelManager

/-- No frame carries more than a chunk. -/
theorem data_le_emitted (json : QJsonDocument) (m : TunnelManager) (event : Event) :
    ∀ frame ∈ frames (m.emitted json event), frame.data.length ≤ kChunkSize := by
  intro frame hframe
  have habout : frame ∈ frames (about frame.id (m.emitted json event)) := by
    rw [frames_about]
    exact List.mem_filter.mpr ⟨hframe, by simp⟩
  have hturn := turn_step json m event frame.id
  generalize about frame.id (m.emitted json event) = effects at habout hturn
  cases hturn with
  | moves hmoves => exact forall_frames (fun _ _ _ ↦ Move.data_le) hmoves frame habout
  | create _ hcreate => exact forall_frames (fun _ _ _ ↦ Create.data_le) hcreate frame habout
  | receive heffects _ _ hreceive hmoves =>
    rw [heffects, frames_append, List.mem_append] at habout
    exact habout.elim (hreceive.data_le frame)
      (forall_frames (fun _ _ _ ↦ Move.data_le) hmoves frame)

/-- A manager in a session with the peer at `peerIp`. -/
structure Online (peerIp : QString) (m : TunnelManager) : Prop where
  send : m.send = true
  peer : m.peerIp = peerIp
  bounded : m.Bounded
  data_le : ∀ frame ∈ frames m.log, frame.data.length ≤ kChunkSize

variable {event : Event}

theorem Online.step (h : m.Online peerIp)
    (hsend : event = .setSendHandler (m.step json event).send → (m.step json event).send = true)
    (hpeer : event = .setPeer (m.step json event).peerIp → (m.step json event).peerIp = peerIp)
    (hend : event ≠ .onPeerDisconnected) : (m.step json event).Online peerIp where
  send := by
    rcases (m.handling_step json event).send with hsame | hset
    · exact hsame.trans h.send
    · exact hsend hset
  peer := by
    rcases (m.handling_step json event).peerIp with hsame | hset | ⟨hdisconnect, -⟩
    · exact hsame.trans h.peer
    · exact hpeer hset
    · exact absurd hdisconnect hend
  bounded := h.bounded.step json event
  data_le := by
    intro frame hframe
    rw [log_step, frames_append, List.mem_append] at hframe
    exact hframe.elim (h.data_le frame) (m.data_le_emitted json event frame)

theorem Online.steady (h : m.Online peerIp) (hsteady : event.steady peerIp = true) :
    (m.step json event).Online peerIp := by
  apply h.step
  · intro hset
    rw [hset] at hsteady
    exact hsteady
  · intro hset
    rw [hset] at hsteady
    simpa [Event.steady] using hsteady
  · rintro rfl
    simp [Event.steady] at hsteady

theorem Online.onTunnelMessage
    (h : m.Online peerIp) (mask : ℤ) (payload : QByteArray) (remote : QString)
    (writes : List WriteResult) :
    (m.step json (.onTunnelMessage mask payload remote writes)).Online peerIp :=
  h.step (by simp) (by simp) (by simp)

end TunnelManager

namespace Pair

/-- Both managers are in a session, and no frame is delivered before it was sent. -/
structure Session (peerIp : Side → QString) (p : Pair) : Prop where
  online : ∀ side, (p.manager side).Online (peerIp side)
  delivered_le : ∀ side, p.delivered side ≤ (frames (p.manager side.other).log).length

theorem session_start (peerIp : Side → QString) : (start peerIp).Session peerIp where
  online _ := ⟨rfl, rfl, TunnelManager.bounded_of_empty rfl rfl, by simp [start]⟩
  delivered_le _ := Nat.zero_le _

theorem length_frames_le_update (p : Pair) (json : QJsonDocument) (side : Side) (event : Event)
    (which : Side) : (frames (p.manager which).log).length ≤ (frames (Function.update p.manager side
      ((p.manager side).step json event) which).log).length := by
  by_cases hwhich : which = side
  · subst hwhich
    rw [Function.update_self, TunnelManager.log_step, frames_append, List.length_append]
    exact Nat.le_add_right _ _
  · rw [Function.update_of_ne hwhich]

variable {peerIp : Side → QString} {p : Pair}

theorem Session.act
    (h : p.Session peerIp) {action : Action} (hsteady : action.steady peerIp = true) :
    (p.act json action).Session peerIp := by
  cases action with
  | handle side event =>
    refine ⟨?_, fun which ↦ (h.delivered_le which).trans
      (p.length_frames_le_update json side event which.other)⟩
    exact (Function.forall_update_iff p.manager fun which m ↦ m.Online (peerIp which)).mpr
      ⟨(h.online side).steady hsteady, fun which _ ↦ h.online which⟩
  | deliver side writes =>
    unfold Pair.act
    dsimp only
    split
    · exact h
    · next frame rest htravelling =>
      refine ⟨?_, fun which ↦ le_trans ?_ (p.length_frames_le_update json side _ which.other)⟩
      · exact (Function.forall_update_iff p.manager fun which m ↦ m.Online (peerIp which)).mpr
          ⟨(h.online side).onTunnelMessage _ _ _ _, fun which _ ↦ h.online which⟩
      · have hlength := congrArg List.length htravelling
        rw [travelling, Side.other_other, List.length_drop, List.length_cons] at hlength
        refine (Function.forall_update_iff p.delivered fun which count ↦
          count ≤ (frames (p.manager which.other).log).length).mpr
            ⟨?_, fun which _ ↦ h.delivered_le which⟩ which
        omega

theorem Session.run (h : p.Session peerIp) {actions : List Action}
    (hsteady : ∀ action ∈ actions, action.steady peerIp = true) :
    (p.run json actions).Session peerIp :=
  List.foldlRecOn _ _ h fun _ hp action haction ↦ hp.act (hsteady action haction)

end Pair

end DdeCooperation.Tunnel
