import DdeCooperation.Tunnel.Moves

/-!
# The handlers of one stream

Every slot that serves a single stream acts by moves of that stream, and every
frame acts by one `Receive` followed by moves. These are the only results of the
development that unfold a handler.
-/

namespace DdeCooperation.Tunnel

open Qt Foundations Option Tunnel.Frame

variable {stream : Stream} {effects : List Effect} {reason remote token : QString}
  {json : QJsonDocument} {payload : QByteArray} {mask : ℤ} {frame : Frame}

namespace TunnelManager

variable {allow : Allowance} {id : UInt32} {m : TunnelManager}

/-! ## Pumping and flushing -/

/-- The effects of reading and sending a list of chunks. -/
def pumpEffects (c : Context) (id : UInt32) (chunks : List QByteArray) : List Effect :=
  chunks.flatMap fun chunk ↦ .read id chunk :: c.sends (.tunnelData id chunk)

theorem foldl_sendData (chunks : List QByteArray) :
    chunks.foldl (fun m chunk ↦ (m.emit [.read id chunk]).sendData id chunk) m =
      m.emit (pumpEffects m.context id chunks) := by
  induction chunks generalizing m with
  | nil => simp [pumpEffects]
  | cons chunk chunks ih =>
    rw [List.foldl_cons, ih, sendData, sendFrame_eq]
    simp [pumpEffects]

theorem moves_pumpLoop (c : Context) (fuel : ℕ) (stream : Stream) (hready : stream.ready = true) :
    Moves c allow id (some stream) (pumpEffects c id (stream.pumpLoop fuel).1)
      (some (stream.pumpLoop fuel).2) := by
  induction fuel generalizing stream with
  | zero => exact .refl _
  | succ fuel ih =>
    simp only [Stream.pumpLoop]
    split
    · next hloop =>
      split
      · exact .refl _
      · next hchunk =>
        exact Trace.head (.read stream hready hloop.1 hchunk) (ih stream.readChunk.2 hready)
    · exact .refl _

theorem acts_pump : Acts allow id m (m.pump id) := by
  unfold pump
  split
  · exact .refl m
  · next stream hfind =>
    split
    · exact .refl m
    · next hready =>
      dsimp only
      rw [foldl_sendData, setStream_emit]
      apply Acts.set
      rw [hfind]
      exact moves_pumpLoop _ _ stream (by simpa using hready)

theorem moves_flushLoop (c : Context) (writes : List WriteResult) (stream : Stream)
    (hready : stream.ready = true) :
    Moves c allow id (some stream) ((stream.flushLoop writes).1.map (Effect.write id))
      (some (stream.flushLoop writes).2.1) := by
  induction writes generalizing stream with
  | nil => exact .refl _
  | cons answer writes ih =>
    cases answer with
    | failed =>
      simp only [Stream.flushLoop]
      split <;> exact .refl _
    | accepted bytes =>
      simp only [Stream.flushLoop]
      split
      · exact .refl _
      · next hloop =>
        rw [not_or] at hloop
        exact Trace.head (.write stream bytes hready hloop.1 hloop.2)
          (ih (stream.writeChunk bytes).2 hready)

/-- Destroying a stream and telling the peer. -/
theorem acts_destroyStream (reason : QString) (m : TunnelManager) :
    Acts allow id m (m.destroyStream id reason true) := by
  cases hfind : m.findStream id with
  | none =>
    rw [destroyStream_none hfind]
    exact .refl m
  | some stream =>
    rw [destroyStream_some hfind]
    exact .dropMove hfind (.close stream reason)

variable {writes : List WriteResult}

theorem acts_flushPending : Acts allow id m (m.flushPending id writes) := by
  unfold flushPending
  split
  · exact .refl m
  · next stream hfind =>
    split
    · exact .refl m
    · next hready =>
      split
      · exact .refl m
      · have hflushed : Acts allow id m ((m.emit ((stream.flushLoop writes).1.map
            (Effect.write id))).setStream id (stream.flushLoop writes).2.1) := by
          rw [setStream_emit]
          apply Acts.set
          rw [hfind]
          exact moves_flushLoop _ writes stream (by simp_all)
        simp only
        split
        · exact hflushed.trans (acts_destroyStream _ _)
        · exact hflushed

/-! ## Socket and timer signals -/

theorem acts_readyRead (harrive : allow.arrive) (data : QByteArray) (m : TunnelManager) :
    Acts allow id m (m.readyRead id data) := by
  unfold readyRead
  split
  · exact .refl m
  · next stream hfind =>
    split
    · exact .refl m
    · next hstate =>
      rw [not_not] at hstate
      have harrived : Acts allow id m (m.setStream id { stream with
          sock := stream.sock.arrive data }) := by
        simpa using Acts.setMove hfind (.arrive stream data harrive hstate)
      exact harrived.trans acts_pump

theorem acts_bytesWritten (bytes : ℕ) (writes : List WriteResult) (m : TunnelManager) :
    Acts allow id m (m.bytesWritten id bytes writes) := by
  unfold bytesWritten
  split
  · exact .refl m
  · next stream hfind =>
    dsimp only
    generalize hcount : min (min bytes maxSystemWrite) stream.sock.writeBuffer.length = count
    refine Acts.trans ?_ acts_flushPending
    by_cases hpos : 0 < count
    · rw [if_pos hpos, sendAck, sendFrame_eq]
      exact .setMove hfind (.drain stream count hpos (by omega) (by omega))
    · -- nothing was drained, so the stream is stored unchanged
      have hzero : count = 0 := by omega
      rw [if_neg hpos, hzero]
      refine Acts.same rfl rfl rfl (fun _ h ↦ h) ?_ rfl
      intro other
      by_cases hother : other = id
      · subst hother
        simp [hfind, QTcpSocket.drain]
      · exact findStream_setStream_ne m _ hother

theorem acts_disconnected (m : TunnelManager) : Acts allow id m (m.disconnected id) := by
  unfold disconnected
  split
  · exact .refl m
  · split
    · exact .refl m
    · exact acts_destroyStream _ m

/-- Answering that a dial is given up and dropping the stream. -/
theorem acts_giveUp (hfind : m.findStream id = some stream)
    (hready : stream.ready = false) (hdialer : stream.dialer = true ∨ allow.stale)
    (text : QString) :
    Acts allow id m ((m.sendFrame (.tunnelOpenAck id false stream.token text)).destroyStream
      id text false) := by
  have hsent : (m.sendFrame (.tunnelOpenAck id false stream.token text)).findStream id =
      some stream := by
    rw [sendFrame_eq, findStream_emit, hfind]
  rw [destroyStream_some hsent, sendFrame_eq]
  have hmove := Acts.dropMove hfind (Move.giveUp stream text hready hdialer)
  rwa [← emit_emit] at hmove

theorem acts_errorOccurred (m : TunnelManager) : Acts allow id m (m.errorOccurred id) := by
  unfold errorOccurred
  split
  · exact .refl m
  · next stream hfind =>
    split
    · next hdial =>
      rw [Bool.and_eq_true, Bool.not_eq_true'] at hdial
      split
      · next hattempts =>
        refine Acts.scheduleRetry ?_ hfind hdial.2
        simpa using Acts.setMove hfind (.retry stream hdial.1 hdial.2 hattempts)
      · exact acts_giveUp hfind hdial.1 (.inl hdial.2) _
    · exact acts_destroyStream _ m

theorem acts_connectTimeout (m : TunnelManager) : Acts allow id m (m.connectTimeout id) := by
  unfold connectTimeout
  split
  · exact .refl m
  · next stream hfind =>
    split
    · exact .refl m
    · next htimer =>
      have hready : stream.ready = false := by simp_all
      dsimp only
      split
      · next hdialer => exact acts_giveUp hfind hready (.inl hdialer) _
      · -- an initiator says CLOSE before it drops the stream
        have hsent : (m.sendFrame (.tunnelClose id)).findStream id = some stream := by
          rw [sendFrame_eq, findStream_emit, hfind]
        rw [destroyStream_some hsent, sendFrame_eq]
        have hmove := Acts.dropMove hfind
          (Move.close (c := m.context) stream "connect timeout" : Move _ allow id _ _ _)
        rwa [← emit_emit] at hmove

/-- A retry may find a stream that was not dialled when its id was used again. -/
theorem acts_dialService
    (hstale : ∀ stream, m.findStream id = some stream → stream.dialer = true ∨ allow.stale) :
    Acts allow id m (m.dialService id) := by
  unfold dialService
  split
  · exact .refl m
  · next stream hfind =>
    split
    · exact .refl m
    · next hready =>
      rw [Bool.not_eq_true] at hready
      split
      · exact acts_giveUp hfind hready (hstale stream hfind) _
      · next service hservice =>
        split
        · exact acts_destroyStream _ m
        · next hstate => exact .setMove hfind (.redial stream service hready hservice hstate)

theorem acts_dialRetry (m : TunnelManager)
    (hstale : ∀ stream, id ∈ m.retryTimers → m.findStream id = some stream →
      stream.dialer = true ∨ allow.stale) :
    Acts allow id m (m.dialRetry id) := by
  unfold dialRetry
  split
  · next hpending =>
    have hdial : Acts allow id { m with retryTimers := m.retryTimers.erase id } _ :=
      acts_dialService fun stream hfind ↦ hstale stream hpending hfind
    refine ⟨hdial.context, hdial.forwards, hdial.peerRemote, ?_, hdial.others, hdial.moves⟩
    intro other hother
    exact (hdial.timers other hother).imp_left List.mem_of_mem_erase
  · exact .refl m

theorem acts_connected (hconnect : allow.connect) (writes : List WriteResult) (m : TunnelManager) :
    Acts allow id m (m.connected id writes) := by
  unfold connected
  split
  · exact .refl m
  · next stream hfind =>
    split
    · exact .refl m
    · next hstate =>
      rw [not_not] at hstate
      have hconnected := Acts.setMove hfind (.connect stream hconnect hstate)
      dsimp only
      split
      · next hsend =>
        have hoff : m.send = false := by simpa [setStream] using hsend
        simpa [context, hoff] using hconnected
      · next hsend =>
        have hon : m.send = true := by simpa [setStream] using hsend
        simp only [context, hon, if_true] at hconnected
        exact ((hconnected.trans acts_flushPending).trans (.signal _ _)).trans acts_pump

/-! ## Frames -/

/-- The frame that a payload of the given type reads as. -/
def decode (json : QJsonDocument) (mask : ℤ) (payload : QByteArray) : Option Frame :=
  match TunnelMessageType.ofMask mask with
  | some .tunnelOpen =>
    (parseOpen json payload).map fun (id, service, token) ↦ .tunnelOpen id service token
  | some .tunnelOpenAck =>
    (parseOpenAck json payload).map fun (id, ok, token, reason) ↦ .tunnelOpenAck id ok token reason
  | some .tunnelData => (readU32 payload 0).map fun id ↦ .tunnelData id (payload.drop 4)
  | some .tunnelAck =>
    (readU32 payload 0).bind fun id ↦ (readU32 payload 4).map fun consumed ↦ .tunnelAck id consumed
  | some .tunnelClose => (readU32 payload 0).map fun id ↦ .tunnelClose id
  | none => none

/-- The sender is the current peer and there is one. -/
def trusts (remote : QString) (m : TunnelManager) : Bool :=
  m.peerIp != "" && m.peerMatches remote

/-- The frame of an incoming message that gets past the checks of `onTunnelMessage`. -/
def admitted (json : QJsonDocument) (mask : ℤ) (payload : QByteArray) (remote : QString)
    (m : TunnelManager) : Option Frame :=
  if TUNNEL_MAX_FRAME_SIZE < payload.length then none
  else (decode json mask payload).filter fun frame ↦
    m.trusts remote || frame.type = .tunnelOpenAck

end TunnelManager

/-- `m'` is `m` after a frame from `remote` was handled: the frame is received, then the stream may
be flushed and pumped. Nothing follows on an OPEN. -/
structure Receives (remote : QString) (frame : Frame) (m m' : TunnelManager) : Prop where
  context : m'.context = m.context
  forwards : m'.forwards = m.forwards
  timers : m'.retryTimers = m.retryTimers
  peerRemote : m'.peerRemote = m.peerRemote ∨ m'.peerRemote = remote ∧ ∃ stream reason,
    m.findStream frame.id = some stream ∧ stream.dialer = false ∧
      frame = .tunnelOpenAck frame.id true stream.token reason
  others : ∀ other, other ≠ frame.id → m'.findStream other = m.findStream other
  receive : ∃ left middle right, m'.log = m.log ++ (left ++ right) ∧
    Receive m.context remote frame.id frame (m.findStream frame.id) left middle ∧
    Moves m.context .none frame.id middle right (m'.findStream frame.id) ∧
    (frame.type = .tunnelOpen → right = [] ∧ m'.findStream frame.id = middle)

namespace Receives

variable {remote : QString} {frame : Frame} {m : TunnelManager}

/-- The stream is as it was. -/
theorem emit (h : Receive m.context remote frame.id frame
    (m.findStream frame.id) effects (m.findStream frame.id)) :
    Receives remote frame m (m.emit effects) :=
  ⟨rfl, rfl, rfl, .inl rfl, fun _ _ ↦ rfl, effects, _, [], by simp, h, .refl _, fun _ ↦ ⟨rfl, rfl⟩⟩

theorem ignore (h : Receive m.context remote frame.id frame (m.findStream frame.id) []
    (m.findStream frame.id)) : Receives remote frame m m := by
  simpa using emit h

theorem set (h : Receive m.context remote frame.id frame
    (m.findStream frame.id) effects (some stream)) :
    Receives remote frame m ((m.setStream frame.id stream).emit effects) :=
  ⟨rfl, rfl, rfl, .inl rfl, fun _ hne ↦ TunnelManager.findStream_setStream_ne m stream hne,
    effects, some stream, [], by simp, h, by simpa using .refl _, by simp⟩

theorem drop (h : Receive m.context remote frame.id frame (m.findStream frame.id) effects none) :
    Receives remote frame m ((m.dropStream frame.id).emit effects) :=
  ⟨rfl, rfl, rfl, .inl rfl, fun _ hne ↦ TunnelManager.findStream_dropStream_ne m hne,
    effects, none, [], by simp, h, by simpa using .refl _, by simp⟩

/-- A positive answer sets the address the peer is known under. -/
theorem learn {m' : TunnelManager}
    (h : Receives remote frame m m') (hfind : m.findStream frame.id = some stream)
    (hdialer : stream.dialer = false)
    (hframe : frame = .tunnelOpenAck frame.id true stream.token reason) :
    Receives remote frame m { m' with peerRemote := remote } :=
  { h with peerRemote := .inr ⟨rfl, stream, reason, hfind, hdialer, hframe⟩ }

theorem acts {middle m' : TunnelManager} (h : Receives remote frame m middle)
    (hopen : frame.type ≠ .tunnelOpen) (hacts : Acts .none frame.id middle m')
    (htimers : m'.retryTimers = middle.retryTimers) : Receives remote frame m m' := by
  obtain ⟨left, stream, right, hlog, hreceive, hmoves, -⟩ := h.receive
  obtain ⟨effects, hlog', hmoves'⟩ := hacts.moves
  rw [h.context] at hmoves'
  refine ⟨hacts.context.trans h.context, hacts.forwards.trans h.forwards, htimers.trans h.timers,
    ?_, fun other hne ↦ (hacts.others other hne).trans (h.others other hne),
    left, stream, right ++ effects, ?_, hreceive, hmoves.trans hmoves', fun h ↦ absurd h hopen⟩
  · rw [hacts.peerRemote]
    exact h.peerRemote
  · rw [hlog', hlog]
    simp only [List.append_assoc]

end Receives

namespace TunnelManager

variable {id : UInt32} {m : TunnelManager}

@[simp] theorem retryTimers_emit : (m.emit effects).retryTimers = m.retryTimers := rfl

@[simp] theorem retryTimers_setStream : (m.setStream id stream).retryTimers = m.retryTimers := rfl

@[simp] theorem retryTimers_destroyStream (notify : Bool) :
    (m.destroyStream id reason notify).retryTimers = m.retryTimers := by
  cases hfind : m.findStream id with
  | none => rw [destroyStream_none hfind]
  | some stream =>
    rw [destroyStream_some hfind]
    rfl

@[simp] theorem retryTimers_pump : (m.pump id).retryTimers = m.retryTimers := by
  unfold pump
  split
  · rfl
  · split
    · rfl
    · dsimp only
      rw [foldl_sendData]
      rfl

variable {writes : List WriteResult}

@[simp] theorem retryTimers_flushPending :
    (m.flushPending id writes).retryTimers = m.retryTimers := by
  unfold flushPending
  split
  · rfl
  · split
    · rfl
    · split
      · rfl
      · dsimp only
        split <;> simp

theorem receives_handleOpen {serviceId : QString}
    (hparse : parseOpen json payload = some (id, serviceId, token)) :
    Receives remote (.tunnelOpen id serviceId token) m (m.handleOpen json remote payload) := by
  unfold handleOpen
  rw [hparse]
  dsimp only
  split
  · exact .ignore (.openIgnore ..)
  · split
    · split
      · exact .emit (.openRefuse _ _ _ _ _ (.inr rfl))
      · exact .ignore (.openIgnore ..)
    · next hpeer =>
      rw [not_or, not_not] at hpeer
      split
      · exact .emit (.openRefuse _ _ _ _ _ (.inl rfl))
      · next service hservice =>
        split
        · exact .emit (.openRefuse _ _ _ _ _ (.inl rfl))
        · next hfree =>
          apply Receives.set
          have hnone : m.findStream id = none := by simpa using hfree
          simp only [Frame.id]
          rw [hnone]
          exact .openDial serviceId token service hpeer hservice

theorem receives_handleOpenAck {ok : Bool}
    (hparse : parseOpenAck json payload = some (id, ok, token, reason)) :
    Receives remote (.tunnelOpenAck id ok token reason) m
      (m.handleOpenAck json remote payload writes) := by
  unfold handleOpenAck
  rw [hparse]
  dsimp only
  split
  · exact .ignore (.ackIgnore ..)
  · next stream hfind =>
    split
    · exact .ignore (.ackIgnore ..)
    · next hdialer =>
      rw [Bool.not_eq_true] at hdialer
      split
      · exact .ignore (.ackIgnore ..)
      · next htoken =>
        rw [not_not] at htoken
        cases ok with
        | false =>
          simp only [Bool.not_false, if_true]
          rw [destroyStream_some hfind]
          apply Receives.drop
          simp only [Frame.id, hfind]
          exact .ackReject token reason _ stream hdialer htoken
        | true =>
          simp only [Bool.not_true, Bool.false_eq_true, if_false]
          have haccept : Receives remote (.tunnelOpenAck id true token reason) m
              ((m.setStream id { stream with ready := true, timeout := false }).emit
                [.streamOpened id stream.serviceId]) := by
            apply Receives.set
            simp only [Frame.id, hfind]
            exact .ackAccept token reason stream hdialer htoken
          have hframe : Frame.tunnelOpenAck id true token reason =
              .tunnelOpenAck id true stream.token reason := by rw [htoken]
          have hlearn := haccept.learn hfind hdialer hframe
          exact (hlearn.acts (by simp [Frame.type]) acts_flushPending (by simp)).acts
            (by simp [Frame.type]) acts_pump (by simp)

variable (hread : readU32 payload 0 = some id)

include hread

theorem receives_handleData :
    Receives remote (.tunnelData id (payload.drop 4)) m (m.handleData payload writes) := by
  unfold handleData
  rw [hread]
  dsimp only
  split
  · next hfind =>
    apply Receives.ignore
    simp only [Frame.id, hfind]
    exact .dataUnknown _
  · next stream hfind =>
    split
    · next hempty =>
      rw [hempty]
      exact .ignore (.dataEmpty _)
    · split
      · next hfull =>
        rw [destroyStream_some hfind]
        apply Receives.drop
        simp only [Frame.id, hfind]
        exact .dataOverflow _ stream _ hfull
      · next hfits =>
        have hqueue : Receives remote (.tunnelData id (payload.drop 4)) m
            ((m.setStream id { stream with pending := stream.pending ++ payload.drop 4 }).emit
              []) := by
          apply Receives.set
          simp only [Frame.id, hfind]
          exact .dataQueue _ stream (not_lt.mp hfits)
        rw [emit_nil] at hqueue
        exact hqueue.acts (by simp [Frame.type]) acts_flushPending (by simp)

theorem receives_handleAck {consumed : UInt32} (hconsumed : readU32 payload 4 = some consumed) :
    Receives remote (.tunnelAck id consumed) m (m.handleAck payload) := by
  unfold handleAck
  rw [hread, hconsumed]
  dsimp only
  split
  · next hfind =>
    apply Receives.ignore
    simp only [Frame.id, hfind]
    exact .ackUnknown consumed
  · next stream hfind =>
    have hcredit : Receives remote (.tunnelAck id consumed) m
        ((m.setStream id { stream with
          unacked := max (stream.unacked - consumed.toNat) 0 }).emit []) := by
      apply Receives.set
      simp only [Frame.id, hfind]
      exact .ackCredit consumed stream
    rw [emit_nil] at hcredit
    split
    · exact hcredit.acts (by simp [Frame.type]) acts_pump (by simp)
    · exact hcredit

theorem receives_handleClose : Receives remote (.tunnelClose id) m (m.handleClose payload) := by
  unfold handleClose
  rw [hread]
  dsimp only
  cases hfind : m.findStream id with
  | none =>
    rw [destroyStream_none hfind]
    apply Receives.ignore
    simp only [Frame.id, hfind]
    exact .closeUnknown
  | some stream =>
    rw [destroyStream_some hfind]
    apply Receives.drop
    simp only [Frame.id, hfind]
    exact .closeKnown stream _

omit hread

/-- The `switch` of `onTunnelMessage`. -/
def dispatch (json : QJsonDocument) (mask : ℤ) (payload : QByteArray) (remote : QString)
    (writes : List WriteResult) (m : TunnelManager) : TunnelManager :=
  match TunnelMessageType.ofMask mask with
  | some .tunnelOpen => m.handleOpen json remote payload
  | some .tunnelOpenAck => m.handleOpenAck json remote payload writes
  | some .tunnelData => m.handleData payload writes
  | some .tunnelAck => m.handleAck payload
  | some .tunnelClose => m.handleClose payload
  | none => m

theorem onTunnelMessage_eq_dispatch (hsize : payload.length ≤ TUNNEL_MAX_FRAME_SIZE) :
    m.onTunnelMessage json mask payload remote writes =
      if m.trusts remote || TunnelMessageType.ofMask mask = some .tunnelOpenAck then
        m.dispatch json mask payload remote writes
      else m := by
  have htrusts : (m.peerIp = "" || !m.peerMatches remote) = !m.trusts remote := by
    simp [trusts, bne, beq_eq_decide]
  unfold onTunnelMessage dispatch
  rw [if_neg (not_lt.mpr hsize), htrusts]
  cases m.trusts remote with
  | true => rfl
  | false =>
    by_cases hmask : TunnelMessageType.ofMask mask = some .tunnelOpenAck
    · simp [hmask]
    · simp [hmask]

/-- A payload that does not read as a frame changes nothing. -/
theorem dispatch_of_decode_none (h : decode json mask payload = none) :
    m.dispatch json mask payload remote writes = m := by
  unfold decode at h
  unfold dispatch
  cases hmask : TunnelMessageType.ofMask mask with
  | none => rfl
  | some type =>
    rw [hmask] at h
    cases type with
    | tunnelOpen => simp_all [handleOpen]
    | tunnelOpenAck => simp_all [handleOpenAck]
    | tunnelData => simp_all [handleData]
    | tunnelClose => simp_all [handleClose]
    | tunnelAck =>
      simp only [handleAck]
      cases hid : readU32 payload 0 with
      | none => rfl
      | some id =>
        cases hconsumed : readU32 payload 4 with
        | none => rfl
        | some consumed => simp [hid, hconsumed] at h

/-- What a handler has read of the payload of a frame. -/
def Reads (json : QJsonDocument) (payload : QByteArray) : Frame → Prop
  | .tunnelOpen id service token => parseOpen json payload = some (id, service, token)
  | .tunnelOpenAck id ok token reason => parseOpenAck json payload = some (id, ok, token, reason)
  | .tunnelData id data => readU32 payload 0 = some id ∧ data = payload.drop 4
  | .tunnelAck id consumed => readU32 payload 0 = some id ∧ readU32 payload 4 = some consumed
  | .tunnelClose id => readU32 payload 0 = some id

theorem reads_of_decode (h : decode json mask payload = some frame) :
    TunnelMessageType.ofMask mask = some frame.type ∧ Reads json payload frame := by
  unfold decode at h
  cases hmask : TunnelMessageType.ofMask mask with
  | none => simp [hmask] at h
  | some type =>
    rw [hmask] at h
    cases type with
    | tunnelAck =>
      obtain ⟨id, hread, hrest⟩ := bind_eq_some_iff.mp h
      obtain ⟨consumed, hconsumed, rfl⟩ := map_eq_some_iff.mp hrest
      exact ⟨rfl, hread, hconsumed⟩
    | tunnelData =>
      obtain ⟨id, hread, rfl⟩ := map_eq_some_iff.mp h
      exact ⟨rfl, hread, rfl⟩
    | _ =>
      obtain ⟨parsed, hread, rfl⟩ := map_eq_some_iff.mp h
      exact ⟨rfl, hread⟩

theorem receives_dispatch (h : decode json mask payload = some frame) :
    Receives remote frame m (m.dispatch json mask payload remote writes) := by
  obtain ⟨hmask, hreads⟩ := reads_of_decode h
  rw [dispatch, hmask]
  cases frame with
  | tunnelOpen id service token => exact receives_handleOpen hreads
  | tunnelOpenAck id ok token reason => exact receives_handleOpenAck hreads
  | tunnelData id data =>
    obtain ⟨hread, rfl⟩ := hreads
    exact receives_handleData hread
  | tunnelAck id consumed => exact receives_handleAck hreads.1 hreads.2
  | tunnelClose id => exact receives_handleClose hreads

theorem decode_of_admitted (h : m.admitted json mask payload remote = some frame) :
    decode json mask payload = some frame := by
  unfold admitted at h
  split at h
  · simp at h
  · exact (filter_eq_some_iff.mp h).1

/-- Apart from OPEN_ACK, only frames of the peer are admitted. -/
theorem trusts_of_admitted (h : m.admitted json mask payload remote = some frame)
    (htype : frame.type ≠ .tunnelOpenAck) : m.trusts remote = true := by
  unfold admitted at h
  split at h
  · simp at h
  · simpa [htype] using (filter_eq_some_iff.mp h).2

/-- A message that is not admitted changes nothing. -/
theorem onTunnelMessage_of_admitted_none (writes : List WriteResult)
    (h : m.admitted json mask payload remote = none) :
    m.onTunnelMessage json mask payload remote writes = m := by
  by_cases hsize : payload.length ≤ TUNNEL_MAX_FRAME_SIZE
  · rw [onTunnelMessage_eq_dispatch hsize]
    rw [admitted, if_neg (not_lt.mpr hsize)] at h
    cases hdecode : decode json mask payload with
    | none => simp [dispatch_of_decode_none hdecode]
    | some frame =>
      rw [(reads_of_decode hdecode).1]
      rw [hdecode, filter_some] at h
      simp_all
  · unfold onTunnelMessage
    rw [if_pos (not_le.mp hsize)]

/-- A message that is admitted reaches its handler. -/
theorem onTunnelMessage_of_admitted (writes : List WriteResult)
    (h : m.admitted json mask payload remote = some frame) :
    m.onTunnelMessage json mask payload remote writes =
      m.dispatch json mask payload remote writes := by
  unfold admitted at h
  split at h
  · simp at h
  · next hsize =>
    obtain ⟨hdecode, hpasses⟩ := filter_eq_some_iff.mp h
    rw [onTunnelMessage_eq_dispatch (not_lt.mp hsize),
      (reads_of_decode hdecode).1, if_pos (by simpa using hpasses)]

theorem receives_onTunnelMessage (writes : List WriteResult)
    (h : m.admitted json mask payload remote = some frame) :
    Receives remote frame m (m.onTunnelMessage json mask payload remote writes) := by
  rw [onTunnelMessage_of_admitted writes h]
  exact receives_dispatch (decode_of_admitted h)

end TunnelManager

end DdeCooperation.Tunnel
