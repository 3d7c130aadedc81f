import DdeCooperation.Tunnel.Forwards

/-!
# One event, seen from one stream

`Handling` lists the ways in which an event is handled and `Turn` what this means
for one stream: it moves, it is created, or it receives a frame. `handling_step`
and `turn_step` cover every event in every state. The invariants of the following
modules are proved by cases on these two.
-/

namespace DdeCooperation.Tunnel

open Qt Foundations TunnelManager

variable {json : QJsonDocument} {m m' : TunnelManager} {event : Event}

namespace TunnelManager

/-- What the handling of an event may do to a stream beyond the moves open to all. -/
def allowance (m : TunnelManager) (event : Event) (id : UInt32) : Allowance where
  silent := event = .onPeerDisconnected ∨ event = .stopAll ∧ ∃ stream,
    m.findStream id = some stream ∧
      (stream.dialer = true ∨ m.forwards.lookup stream.serviceId = none)
  stale := id ∈ m.retryTimers
  arrive := ∃ data, event = .readyRead id data
  connect := ∃ writes, event = .connected id writes

end TunnelManager

/-- The ways in which an event is handled: a setting changes, streams are swept while forwards
start or stop, one stream acts, local connections are accepted, or a message is ignored or
received. -/
inductive Handling (json : QJsonDocument) (m : TunnelManager) : Event → TunnelManager → Prop
  | setting {event : Event} {m' : TunnelManager} (hstreams : m'.streams = m.streams)
      (hforwards : m'.forwards = m.forwards) (htimers : m'.retryTimers = m.retryTimers)
      (hlog : m'.log = m.log) (hpeer : m'.peerIp = m.peerIp)
      (hremote : m'.peerRemote = m.peerRemote)
      (hsend : m'.send = m.send ∨ event = .setSendHandler m'.send) : Handling json m event m'
  | setPeer (peerIp : QString) : Handling json m (.setPeer peerIp) (m.setPeer peerIp)
  | sweep {event : Event} {m' : TunnelManager} (hsweeps : Sweeps (m.allowance event) m m')
      (hserved : m.Served → m'.Served) : Handling json m event m'
  | disconnect {m' : TunnelManager} (hsweeps : Sweeps (m.allowance .onPeerDisconnected) m m')
      (hserved : m.Served → m'.Served) :
      Handling json m .onPeerDisconnected { m' with peerIp := "", peerRemote := "" }
  | act {event : Event} {id : UInt32} {m' : TunnelManager}
      (hacts : Acts (m.allowance event id) id m m') : Handling json m event m'
  | accept {serviceId : QString} {connections : List Incoming} {forward : Forward}
      {m' : TunnelManager} (hforward : m.forwards.lookup serviceId = some forward)
      (hforwards : m'.forwards = m.forwards)
      (hevolves : Evolves (Create m.context serviceId) m m') :
      Handling json m (.newConnection serviceId connections) m'
  | ignore {mask : ℤ} {payload : QByteArray} {remote : QString} {writes : List WriteResult}
      (hadmitted : m.admitted json mask payload remote = none) :
      Handling json m (.onTunnelMessage mask payload remote writes) m
  | receive {mask : ℤ} {payload : QByteArray} {remote : QString} {writes : List WriteResult}
      {frame : Frame} {m' : TunnelManager}
      (hadmitted : m.admitted json mask payload remote = some frame)
      (hreceives : Receives remote frame m m') :
      Handling json m (.onTunnelMessage mask payload remote writes) m'

namespace TunnelManager

/-- Every event is handled in one of these ways. -/
theorem handling_step (json : QJsonDocument) (m : TunnelManager) (event : Event) :
    Handling json m event (m.step json event) := by
  cases event with
  | setSendHandler => exact .setting rfl rfl rfl rfl rfl rfl (.inr rfl)
  | unregisterService | clearServices => exact .setting rfl rfl rfl rfl rfl rfl (.inl rfl)
  | setPeer peerIp => exact .setPeer peerIp
  | registerService serviceId host port =>
    simp only [step, registerService]
    split <;> exact .setting rfl rfl rfl rfl rfl rfl (.inl rfl)
  | startLocalForward serviceId listen =>
    exact .sweep (sweeps_startLocalForward serviceId listen m) (·.startLocalForward serviceId listen)
  | stopLocalForward serviceId =>
    exact .sweep (sweeps_stopLocalForward serviceId m) (·.stopLocalForward serviceId)
  | stopLocalForwards => exact .sweep (sweeps_stopLocalForwards m) (·.stopLocalForwards)
  | stopAll =>
    exact .sweep (sweeps_stopAll m fun id stream hfind hleft ↦ Or.inr ⟨rfl, stream, hfind, hleft⟩)
      (·.stopAll)
  | onPeerDisconnected =>
    have hstreams : Sweeps (m.allowance .onPeerDisconnected) m
        (m.destroyStreams m.streams.keys "peer disconnected") :=
      sweeps_destroyStreams _ _ m fun _ _ _ ↦ Or.inl rfl
    have hforwards : Sweeps (m.allowance .onPeerDisconnected) _ _ :=
      sweeps_stopLocalForwards (m.destroyStreams m.streams.keys "peer disconnected")
    rw [Sweeps, hstreams.context] at hforwards
    exact .disconnect (hstreams.trans hforwards) fun hserved ↦
      (hserved.destroyStreams _ _).stopLocalForwards
  | newConnection serviceId connections =>
    cases hforward : m.forwards.lookup serviceId with
    | none =>
      simp only [step, acceptLocalConnection, hforward]
      exact .setting rfl rfl rfl rfl rfl rfl (.inl rfl)
    | some forward =>
      refine .accept hforward ?_ (evolves_acceptLocalConnection serviceId connections m)
      simp only [step, acceptLocalConnection, hforward]
      exact forwards_foldl_acceptConnection serviceId connections m
  | readyRead id data =>
    have harrive : (m.allowance (.readyRead id data) id).arrive := ⟨data, rfl⟩
    exact .act (acts_readyRead harrive data m)
  | bytesWritten id bytes writes => exact .act (acts_bytesWritten bytes writes m)
  | disconnected id => exact .act (acts_disconnected m)
  | errorOccurred id => exact .act (acts_errorOccurred m)
  | connectTimeout id => exact .act (acts_connectTimeout m)
  | dialRetry id => exact .act (acts_dialRetry m fun stream hpending _ ↦ .inr hpending)
  | connected id writes =>
    have hconnect : (m.allowance (.connected id writes) id).connect := ⟨writes, rfl⟩
    exact .act (acts_connected hconnect writes m)
  | onTunnelMessage mask payload remote writes =>
    cases hadmitted : m.admitted json mask payload remote with
    | none =>
      rw [step, onTunnelMessage_of_admitted_none writes hadmitted]
      exact .ignore hadmitted
    | some frame => exact .receive hadmitted (receives_onTunnelMessage writes hadmitted)

end TunnelManager

/-- What the handling of an event does to the stream `id`. -/
inductive Turn (json : QJsonDocument) (m : TunnelManager) (id : UInt32) :
    Event → Option Stream → List Effect → Option Stream → Prop
  | moves {event : Event} {first last : Option Stream} {effects : List Effect}
      (h : Moves m.context (m.allowance event id) id first effects last) :
      Turn json m id event first effects last
  | create {serviceId : QString} {connections : List Incoming}
      {first last : Option Stream} {effects : List Effect} {forward : Forward}
      (hforward : m.forwards.lookup serviceId = some forward)
      (h : Trace (Create m.context serviceId id) first effects last) :
      Turn json m id (.newConnection serviceId connections) first effects last
  | receive {mask : ℤ} {payload : QByteArray} {remote : QString} {writes : List WriteResult}
      {frame : Frame} {first middle last : Option Stream} {left right effects : List Effect}
      (heffects : effects = left ++ right)
      (hadmitted : m.admitted json mask payload remote = some frame) (hid : frame.id = id)
      (hreceive : Receive m.context remote id frame first left middle)
      (hmoves : Moves m.context .none id middle right last)
      (hopen : frame.type = .tunnelOpen → right = [] ∧ last = middle) :
      Turn json m id (.onTunnelMessage mask payload remote writes) first effects last

variable (h : Handling json m event m')

include h

/-- However an event is handled, every stream has its turn. -/
theorem Handling.turns : ∃ new, m'.log = m.log ++ new ∧
      ∀ id, Turn json m id event (m.findStream id) (about id new) (m'.findStream id) := by
  cases h with
  | setPeer => exact ⟨[], by simp [TunnelManager.setPeer], fun id ↦ .moves (.refl _)⟩
  | setting hstreams _ _ hlog =>
    refine ⟨[], by simp [hlog], fun id ↦ .moves ?_⟩
    rw [findStream, findStream, hstreams]
    exact .refl _
  | sweep hsweeps | disconnect hsweeps =>
    obtain ⟨new, hlog, hmoves⟩ := hsweeps.each
    exact ⟨new, hlog, fun id ↦ .moves (hmoves id)⟩
  | @act _ id _ hacts =>
    obtain ⟨new, hlog, hmoves⟩ := hacts.moves
    refine ⟨new, hlog, fun other ↦ .moves ?_⟩
    by_cases hother : other = id
    · subst hother
      rwa [about_eq_self hmoves.stream_eq]
    · rw [about_eq_nil hother hmoves.stream_eq, hacts.others other hother]
      exact .refl _
  | accept hforward _ hevolves =>
    obtain ⟨new, hlog, htrace⟩ := hevolves.each
    exact ⟨new, hlog, fun id ↦ .create hforward (htrace id)⟩
  | ignore => exact ⟨[], by simp, fun id ↦ .moves (.refl _)⟩
  | @receive _ _ _ _ frame _ hadmitted hreceives =>
    obtain ⟨left, middle, right, hlog, hreceive, hmoves, hopen⟩ := hreceives.receive
    have hstream : ∀ effect ∈ left ++ right, effect.stream = some frame.id :=
      List.forall_mem_append.mpr ⟨hreceive.stream_eq, hmoves.stream_eq⟩
    refine ⟨left ++ right, hlog, fun id ↦ ?_⟩
    by_cases hid : id = frame.id
    · subst hid
      rw [about_eq_self hstream]
      exact .receive rfl hadmitted rfl hreceive hmoves hopen
    · rw [about_eq_nil hid hstream, hreceives.others id hid]
      exact .moves (.refl _)

/-- A dial retry is only ever scheduled for a stream that was dialled. -/
theorem Handling.timers {id : UInt32} (hid : id ∈ m'.retryTimers) :
    id ∈ m.retryTimers ∨ ∃ stream, m.findStream id = some stream ∧ stream.dialer = true := by
  cases h with
  | setting _ _ htimers => exact .inl (htimers ▸ hid)
  | setPeer => exact .inl hid
  | sweep hsweeps | disconnect hsweeps => exact .inl (hsweeps.timers ▸ hid)
  | accept _ _ hevolves => exact .inl (hevolves.timers ▸ hid)
  | ignore => exact .inl hid
  | receive _ hreceives => exact .inl (hreceives.timers ▸ hid)
  | act hacts =>
    rcases hacts.timers id hid with hold | ⟨rfl, hstream⟩
    · exact .inl hold
    · exact .inr hstream

/-- Only the call that sets it changes whether frames can be sent. -/
theorem Handling.send : m'.send = m.send ∨ event = .setSendHandler m'.send := by
  cases h with
  | setting _ _ _ _ _ _ hsend => exact hsend
  | setPeer | ignore => exact .inl rfl
  | sweep hsweeps | disconnect hsweeps => exact .inl (congrArg Context.send hsweeps.context)
  | act hacts => exact .inl (congrArg Context.send hacts.context)
  | accept _ _ hevolves => exact .inl (congrArg Context.send hevolves.context)
  | receive _ hreceives => exact .inl (congrArg Context.send hreceives.context)

/-- The peer address only changes by `setPeer` and by the end of the session. -/
theorem Handling.peerIp : m'.peerIp = m.peerIp ∨ event = .setPeer m'.peerIp ∨
      event = .onPeerDisconnected ∧ m'.peerIp = "" := by
  cases h with
  | setting _ _ _ _ hpeer => exact .inl hpeer
  | setPeer => exact .inr (.inl rfl)
  | disconnect => exact .inr (.inr ⟨rfl, rfl⟩)
  | ignore => exact .inl rfl
  | sweep hsweeps => exact .inl (congrArg Context.peerIp hsweeps.context)
  | act hacts => exact .inl (congrArg Context.peerIp hacts.context)
  | accept _ _ hevolves => exact .inl (congrArg Context.peerIp hevolves.context)
  | receive _ hreceives => exact .inl (congrArg Context.peerIp hreceives.context)

omit h

namespace TunnelManager

/-- The effects that the handling of an event adds to the log. -/
def emitted (json : QJsonDocument) (m : TunnelManager) (event : Event) : List Effect :=
  (m.step json event).log.drop m.log.length

theorem log_step (json : QJsonDocument) (m : TunnelManager) (event : Event) :
    (m.step json event).log = m.log ++ m.emitted json event := by
  obtain ⟨new, hlog, -⟩ := (handling_step json m event).turns
  rw [emitted, hlog, List.drop_left]

theorem turn_step (json : QJsonDocument) (m : TunnelManager) (event : Event) (id : UInt32) :
    Turn json m id event (m.findStream id) (about id (m.emitted json event))
      ((m.step json event).findStream id) := by
  obtain ⟨new, hlog, hturn⟩ := (handling_step json m event).turns
  rw [emitted, hlog, List.drop_left]
  exact hturn id

end TunnelManager

end DdeCooperation.Tunnel
