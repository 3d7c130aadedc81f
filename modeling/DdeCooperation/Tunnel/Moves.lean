import DdeCooperation.Foundations.Trace
import DdeCooperation.Tunnel.Manager

/-!
# What a handler can do to one stream

A manager serves many streams, but a handler changes each of them only in a few
ways. `Move` lists the changes that do not come from a frame, `Receive` those
that a frame causes, and `Create` the one that makes a local connection a stream.
Each entry says what happens to the stream and which effects about it are logged.

The rest of the module shows that every handler is made of these entries.
Later modules argue about the entries only and never open a handler again.
-/

namespace DdeCooperation.Tunnel

open Qt Foundations List TunnelManager

variable {id other : UInt32} {effects : List Effect} {frame : Frame} {first last : Option Stream}

/-- The stream an effect is about. -/
def Effect.stream : Effect → Option UInt32
  | send _ frame => some frame.id
  | connectToHost id _ _ => some id
  | read id _ => some id
  | write id _ => some id
  | localForwardReady _ _ => none
  | localForwardFailed _ _ => none
  | streamOpened id _ => some id
  | streamClosed id _ => some id

/-- The effects of a log that are about one stream. -/
def about (id : UInt32) (effects : List Effect) : List Effect :=
  effects.filter fun effect ↦ effect.stream = some id

@[simp] theorem about_nil : about id [] = [] := rfl

@[simp] theorem about_append (id : UInt32) (left right : List Effect) :
    about id (left ++ right) = about id left ++ about id right :=
  filter_append left right

theorem about_eq_self (h : ∀ effect ∈ effects, effect.stream = some id) : about id effects = effects :=
  filter_eq_self.mpr fun effect heffect ↦ by simpa using h effect heffect

theorem about_eq_nil (hne : other ≠ id) (h : ∀ effect ∈ effects, effect.stream = some id) :
    about other effects = [] := by
  apply filter_eq_nil_iff.mpr
  intro effect heffect
  simp [h effect heffect, Ne.symm hne]

/-- What the handlers of a stream read and only API calls change. -/
structure Context where
  send : Bool
  peerIp : QString
  services : QHash QString Service

namespace Context

/-- The effect of offering a frame to the peer. -/
def sends (c : Context) (frame : Frame) : List Effect :=
  if c.send && c.peerIp != "" then [.send c.peerIp frame] else []

/-- What is offered to the peer is sent. -/
abbrev Online (c : Context) : Prop := (c.send && c.peerIp != "") = true

variable {c : Context} {effect : Effect}

@[simp] theorem mem_sends :
    effect ∈ c.sends frame ↔ (c.send && c.peerIp != "") = true ∧ effect = .send c.peerIp frame := by
  unfold sends
  split <;> simp_all

theorem eq_of_mem_sends (h : effect ∈ c.sends frame) : effect = .send c.peerIp frame :=
  (mem_sends.mp h).2

end Context

def TunnelManager.context (m : TunnelManager) : Context :=
  ⟨m.send, m.peerIp, m.services⟩

/-- Moves that are not open to every handler: dropping a stream without a word to the peer, giving
up on a dial for a stream that was not dialled, taking bytes from the local application, and
becoming ready. -/
structure Allowance where
  silent : Prop
  stale : Prop
  arrive : Prop
  connect : Prop

def Allowance.none : Allowance := ⟨False, False, False, False⟩

/-- One change of the stream `id` that no frame causes. -/
inductive Move (c : Context) (allow : Allowance) (id : UInt32) :
    Option Stream → List Effect → Option Stream → Prop
  | arrive (stream : Stream) (data : QByteArray) (harrive : allow.arrive)
      (hstate : stream.sock.state = .connected) :
      Move c allow id (some stream) [] (some { stream with sock := stream.sock.arrive data })
  | read (stream : Stream) (hready : stream.ready = true) (hwindow : stream.unacked < kWindowSize)
      (hchunk : stream.readChunk.1 ≠ []) :
      Move c allow id (some stream)
        (.read id stream.readChunk.1 :: c.sends (.tunnelData id stream.readChunk.1))
        (some stream.readChunk.2)
  | write (stream : Stream) (bytes : ℕ) (hready : stream.ready = true)
      (hpending : stream.pending ≠ []) (hbytes : bytes ≠ 0) :
      Move c allow id (some stream) [.write id (stream.writeChunk bytes).1]
        (some (stream.writeChunk bytes).2)
  | drain (stream : Stream) (bytes : ℕ) (hpos : 0 < bytes) (hmax : bytes ≤ maxSystemWrite)
      (hbuffer : bytes ≤ stream.sock.writeBuffer.length) :
      Move c allow id (some stream) (c.sends (.tunnelAck id (UInt32.ofNat bytes)))
        (some { stream with sock := stream.sock.drain bytes })
  | retry (stream : Stream) (hready : stream.ready = false) (hdialer : stream.dialer = true)
      (hattempts : stream.dialAttempts < kDialAttempts) :
      Move c allow id (some stream) [] (some { stream with
        dialAttempts := stream.dialAttempts + 1
        sock := { stream.sock with state := .unconnected } })
  | redial (stream : Stream) (service : Service) (hready : stream.ready = false)
      (hservice : c.services.lookup stream.serviceId = some service)
      (hstate : stream.sock.state ≠ .connected) :
      Move c allow id (some stream) [.connectToHost id service.host service.port]
        (some { stream with sock := { state := .connecting } })
  | connect (stream : Stream) (hconnect : allow.connect) (hstate : stream.sock.state = .connecting) :
      Move c allow id (some stream)
        (if c.send then [.send c.peerIp (.tunnelOpenAck id true stream.token "")] else [])
        (some { stream with
          ready := true, timeout := false, sock := { stream.sock with state := .connected } })
  | signal (stream : Option Stream) (serviceId : QString) :
      Move c allow id stream [.streamOpened id serviceId] stream
  | close (stream : Stream) (reason : QString) :
      Move c allow id (some stream) (c.sends (.tunnelClose id) ++ [.streamClosed id reason]) none
  | giveUp (stream : Stream) (text : QString) (hready : stream.ready = false)
      (hdialer : stream.dialer = true ∨ allow.stale) :
      Move c allow id (some stream)
        (c.sends (.tunnelOpenAck id false stream.token text) ++ [.streamClosed id text]) none
  | drop (stream : Stream) (reason : QString) (hsilent : allow.silent) :
      Move c allow id (some stream) [.streamClosed id reason] none

/-- Finitely many moves, with their effects in order. -/
abbrev Moves (c : Context) (allow : Allowance) (id : UInt32) :
    Option Stream → List Effect → Option Stream → Prop :=
  Trace (Move c allow id)

/-- A local connection becomes a stream: it is announced, or dropped at once when there is
nobody to announce it to. -/
inductive Create (c : Context) (serviceId : QString) (id : UInt32) :
    Option Stream → List Effect → Option Stream → Prop
  | announce (token : QString) (hid : id ≠ 0) (honline : (c.send && c.peerIp != "") = true) :
      Create c serviceId id none [.send c.peerIp (.tunnelOpen id serviceId token)]
        (some (createStream serviceId token false .connected))
  | abandon (honline : (c.send && c.peerIp != "") = false) :
      Create c serviceId id none [.streamClosed id "no session"] none

/-- What a frame from `remote` does to the stream it names, before pumping and flushing. -/
inductive Receive (c : Context) (remote : QString) (id : UInt32) :
    Frame → Option Stream → List Effect → Option Stream → Prop
  | openIgnore (service token : QString) (stream : Option Stream) :
      Receive c remote id (.tunnelOpen id service token) stream [] stream
  | openRefuse (service token reason target : QString) (stream : Option Stream)
      (htarget : target = c.peerIp ∨ target = remote) :
      Receive c remote id (.tunnelOpen id service token) stream
        [.send target (.tunnelOpenAck id false token reason)] stream
  | openDial (serviceId token : QString) (service : Service)
      (hpeer : c.peerIp ≠ "" ∧ remote = c.peerIp)
      (hservice : c.services.lookup serviceId = some service) :
      Receive c remote id (.tunnelOpen id serviceId token) none
        [.connectToHost id service.host service.port]
        (some (createStream serviceId token true .connecting))
  | ackIgnore (ok : Bool) (token reason : QString) (stream : Option Stream) :
      Receive c remote id (.tunnelOpenAck id ok token reason) stream [] stream
  | ackReject (token reason text : QString) (stream : Stream) (hdialer : stream.dialer = false)
      (htoken : token = stream.token) :
      Receive c remote id (.tunnelOpenAck id false token reason) (some stream)
        [.streamClosed id text] none
  | ackAccept (token reason : QString) (stream : Stream) (hdialer : stream.dialer = false)
      (htoken : token = stream.token) :
      Receive c remote id (.tunnelOpenAck id true token reason) (some stream)
        [.streamOpened id stream.serviceId] (some { stream with ready := true, timeout := false })
  | dataUnknown (data : QByteArray) :
      Receive c remote id (.tunnelData id data) none [] none
  | dataEmpty (stream : Option Stream) :
      Receive c remote id (.tunnelData id []) stream [] stream
  | dataOverflow (data : QByteArray) (stream : Stream) (reason : QString)
      (hfull : kMaxPending < stream.pending.length + data.length) :
      Receive c remote id (.tunnelData id data) (some stream)
        (c.sends (.tunnelClose id) ++ [.streamClosed id reason]) none
  | dataQueue (data : QByteArray) (stream : Stream)
      (hfits : stream.pending.length + data.length ≤ kMaxPending) :
      Receive c remote id (.tunnelData id data) (some stream) []
        (some { stream with pending := stream.pending ++ data })
  | ackUnknown (consumed : UInt32) :
      Receive c remote id (.tunnelAck id consumed) none [] none
  | ackCredit (consumed : UInt32) (stream : Stream) :
      Receive c remote id (.tunnelAck id consumed) (some stream) []
        (some { stream with unacked := max (stream.unacked - consumed.toNat) 0 })
  | closeUnknown : Receive c remote id (.tunnelClose id) none [] none
  | closeKnown (stream : Stream) (reason : QString) :
      Receive c remote id (.tunnelClose id) (some stream) [.streamClosed id reason] none

/-! ## Handlers as moves -/

namespace TunnelManager

@[simp] theorem emit_nil (m : TunnelManager) : m.emit [] = m := by simp [emit]

@[simp] theorem emit_emit (m : TunnelManager) (left right : List Effect) :
    (m.emit left).emit right = m.emit (left ++ right) := by simp [emit]

variable {m : TunnelManager}

@[simp] theorem log_emit : (m.emit effects).log = m.log ++ effects := rfl

@[simp] theorem log_setStream (stream : Stream) : (m.setStream id stream).log = m.log := rfl

@[simp] theorem context_emit : (m.emit effects).context = m.context := rfl

@[simp] theorem context_setStream (stream : Stream) :
    (m.setStream id stream).context = m.context := rfl

@[simp] theorem findStream_emit (m : TunnelManager) (effects : List Effect) (id : UInt32) :
    (m.emit effects).findStream id = m.findStream id := rfl

@[simp] theorem findStream_setStream (m : TunnelManager) (id : UInt32) (stream : Stream) :
    (m.setStream id stream).findStream id = some stream := AList.lookup_insert _

theorem findStream_setStream_ne (m : TunnelManager) (stream : Stream) (h : other ≠ id) :
    (m.setStream id stream).findStream other = m.findStream other :=
  AList.lookup_insert_ne h

theorem setStream_emit (m : TunnelManager) (effects : List Effect) (id : UInt32) (stream : Stream) :
    (m.emit effects).setStream id stream = (m.setStream id stream).emit effects := rfl

theorem sendFrame_eq (m : TunnelManager) (frame : Frame) :
    m.sendFrame frame = m.emit (m.context.sends frame) := by
  unfold sendFrame canSend Context.sends context
  split <;> simp_all

/-- Take the stream `id` out of the table. -/
def dropStream (id : UInt32) (m : TunnelManager) : TunnelManager :=
  { m with streams := m.streams.erase id }

@[simp] theorem findStream_dropStream (m : TunnelManager) (id : UInt32) :
    (m.dropStream id).findStream id = none := AList.lookup_erase _ _

@[simp] theorem log_dropStream : (m.dropStream id).log = m.log := rfl

theorem findStream_dropStream_ne (m : TunnelManager) (h : other ≠ id) :
    (m.dropStream id).findStream other = m.findStream other := AList.lookup_erase_ne h

variable {m : TunnelManager}

theorem destroyStream_none (h : m.findStream id = none) (reason : QString) (notifyPeer : Bool) :
    m.destroyStream id reason notifyPeer = m := by
  simp [destroyStream, h]

theorem destroyStream_some {stream : Stream}
    (h : m.findStream id = some stream) (reason : QString) (notifyPeer : Bool) :
    m.destroyStream id reason notifyPeer = (m.dropStream id).emit
      ((if notifyPeer then m.context.sends (.tunnelClose id) else []) ++
        [.streamClosed id reason]) := by
  unfold destroyStream sendClose
  rw [h]
  cases notifyPeer with
  | false => rfl
  | true =>
    simp only [Bool.true_and, if_true, sendFrame_eq]
    by_cases honline : (m.send && m.peerIp != "") = true
    · simp [canSend, context, dropStream, emit, honline]
    · rw [Bool.not_eq_true] at honline
      simp [canSend, Context.sends, context, dropStream, emit, honline]

end TunnelManager

variable {c : Context} {allow : Allowance}

theorem Move.stream_eq (h : Move c allow id first effects last) :
    ∀ effect ∈ effects, effect.stream = some id := by
  intro effect heffect
  cases h with
  | arrive | retry => simp at heffect
  | read stream =>
    rcases mem_cons.mp heffect with rfl | hsend
    · rfl
    · rw [Context.eq_of_mem_sends hsend]
      rfl
  | drain =>
    rw [Context.eq_of_mem_sends heffect]
    rfl
  | write | redial | signal | drop =>
    rw [mem_singleton.mp heffect]
    rfl
  | connect stream =>
    split at heffect
    · rw [mem_singleton.mp heffect]
      rfl
    · simp at heffect
  | close | giveUp =>
    rcases mem_append.mp heffect with hsend | hclosed
    · rw [Context.eq_of_mem_sends hsend]
      rfl
    · rw [mem_singleton.mp hclosed]
      rfl

theorem Moves.stream_eq (h : Moves c allow id first effects last) :
    ∀ effect ∈ effects, effect.stream = some id :=
  h.forall_mem (P := fun _ ↦ True) (fun _ _ _ _ _ ↦ trivial) (fun _ _ _ hmove _ ↦ hmove.stream_eq)
    trivial

/-- The streams that `last` may hold come from `first`: for the same service, with the same token
and on the same side. -/
def Descends (first last : Option Stream) : Prop :=
  ∀ stream, last = some stream → ∃ origin, first = some origin ∧
    origin.serviceId = stream.serviceId ∧ origin.token = stream.token ∧
    origin.dialer = stream.dialer

theorem Descends.refl (first : Option Stream) : Descends first first :=
  fun stream hstream ↦ ⟨stream, hstream, rfl, rfl, rfl⟩

theorem Descends.trans {middle : Option Stream} (hleft : Descends first middle)
    (hright : Descends middle last) : Descends first last := by
  intro stream hstream
  obtain ⟨between, hbetween, hservice, htoken, hdialer⟩ := hright stream hstream
  obtain ⟨origin, horigin, hservice₀, htoken₀, hdialer₀⟩ := hleft between hbetween
  exact ⟨origin, horigin, hservice₀.trans hservice, htoken₀.trans htoken, hdialer₀.trans hdialer⟩

theorem Move.descends (h : Move c allow id first effects last) : Descends first last := by
  intro later hlater
  cases h with
  | signal => exact ⟨later, hlater, rfl, rfl, rfl⟩
  | close | giveUp | drop => simp at hlater
  | arrive stream | read stream | write stream | drain stream | retry stream | redial stream
  | connect stream =>
    cases hlater
    exact ⟨stream, rfl, rfl, rfl, rfl⟩

theorem Moves.descends (h : Moves c allow id first effects last) : Descends first last :=
  h.preserves (P := Descends first) (fun _ _ _ hmove hfirst ↦ hfirst.trans hmove.descends)
    (.refl first)

variable {remote : QString}

theorem Receive.stream_eq (h : Receive c remote id frame first effects last) :
    ∀ effect ∈ effects, effect.stream = some id := by
  intro effect heffect
  cases h with
  | openIgnore | ackIgnore | dataUnknown | dataEmpty | dataQueue | ackUnknown | ackCredit
  | closeUnknown => simp at heffect
  | openRefuse | openDial | ackReject | ackAccept | closeKnown =>
    rw [mem_singleton.mp heffect]
    rfl
  | dataOverflow =>
    rcases mem_append.mp heffect with hsend | hclosed
    · rw [Context.eq_of_mem_sends hsend]
      rfl
    · rw [mem_singleton.mp hclosed]
      rfl

/-- A stream that is there after a frame was there before, or it was dialled for that frame. -/
theorem Receive.origin (h : Receive c remote id frame first effects last) :
    Descends first last ∨ ∃ serviceId token service, first = none ∧
      last = some (createStream serviceId token true .connecting) ∧
      frame = .tunnelOpen id serviceId token ∧ c.peerIp ≠ "" ∧ remote = c.peerIp ∧
      c.services.lookup serviceId = some service := by
  cases h with
  | openIgnore | openRefuse | ackIgnore | dataEmpty | dataUnknown | ackUnknown | closeUnknown =>
    exact .inl (.refl _)
  | openDial serviceId token service hpeer hservice =>
    exact .inr ⟨serviceId, token, service, rfl, rfl, rfl, hpeer.1, hpeer.2, hservice⟩
  | ackReject | dataOverflow | closeKnown => exact .inl (by simp [Descends])
  | ackAccept token reason stream | dataQueue data stream | ackCredit consumed stream =>
    refine .inl fun later hlater ↦ ?_
    cases hlater
    exact ⟨stream, rfl, rfl, rfl, rfl⟩

theorem Create.origin {serviceId : QString} {last : Stream}
    (h : Trace (Create c serviceId id) first effects (some last)) :
    first = some last ∨ last.serviceId = serviceId ∧ last.dialer = false ∧ c.peerIp ≠ "" := by
  have horigin : ∀ later, some last = some later → first = some later ∨
      later.serviceId = serviceId ∧ later.dialer = false ∧ c.peerIp ≠ "" := by
    refine h.preserves (P := fun state ↦ ∀ later : Stream, state = some later →
      first = some later ∨ later.serviceId = serviceId ∧ later.dialer = false ∧ c.peerIp ≠ "") ?_
      fun later hlater ↦ .inl hlater
    intro before effects after hcreate _ later hlater
    cases hcreate with
    | announce token hid honline =>
      cases hlater
      exact .inr ⟨rfl, rfl, bne_iff_ne.mp (Bool.and_eq_true_iff.mp honline).2⟩
    | abandon => simp at hlater
  exact horigin last rfl

/-- `m'` is `m` after some moves of the stream `id`, and nothing else has changed. The only timers
that may have been added are dial retries of that stream. -/
structure Acts (allow : Allowance) (id : UInt32) (m m' : TunnelManager) : Prop where
  context : m'.context = m.context
  forwards : m'.forwards = m.forwards
  peerRemote : m'.peerRemote = m.peerRemote
  timers : ∀ other ∈ m'.retryTimers, other ∈ m.retryTimers ∨
    other = id ∧ ∃ stream, m.findStream id = some stream ∧ stream.dialer = true
  others : ∀ other, other ≠ id → m'.findStream other = m.findStream other
  moves : ∃ effects, m'.log = m.log ++ effects ∧
    Moves m.context allow id (m.findStream id) effects (m'.findStream id)

namespace Acts

variable {allow : Allowance} {id : UInt32} {m : TunnelManager}

variable {m' : TunnelManager}

/-- Storing the table in another order is no move at all. -/
theorem same (hcontext : m'.context = m.context)
    (hforwards : m'.forwards = m.forwards) (hremote : m'.peerRemote = m.peerRemote)
    (htimers : ∀ other ∈ m'.retryTimers, other ∈ m.retryTimers)
    (hstreams : ∀ other, m'.findStream other = m.findStream other) (hlog : m'.log = m.log) :
    Acts allow id m m' :=
  ⟨hcontext, hforwards, hremote, fun other hother ↦ .inl (htimers other hother),
    fun other _ ↦ hstreams other, [], by simp [hlog], by rw [hstreams]; exact .refl _⟩

theorem refl (m : TunnelManager) : Acts allow id m m :=
  same rfl rfl rfl (fun _ h ↦ h) (fun _ ↦ rfl) rfl

theorem trans {first middle last : TunnelManager} (hleft : Acts allow id first middle)
    (hright : Acts allow id middle last) : Acts allow id first last := by
  obtain ⟨left, hlogLeft, hmovesLeft⟩ := hleft.moves
  obtain ⟨right, hlogRight, hmovesRight⟩ := hright.moves
  rw [hleft.context] at hmovesRight
  refine ⟨hright.context.trans hleft.context, hright.forwards.trans hleft.forwards,
    hright.peerRemote.trans hleft.peerRemote, ?_,
    fun other hne ↦ (hright.others other hne).trans (hleft.others other hne),
    left ++ right, by rw [hlogRight, hlogLeft, append_assoc], hmovesLeft.trans hmovesRight⟩
  intro other hother
  rcases hright.timers other hother with hmiddle | ⟨hid, stream, hfind, hdialer⟩
  · exact hleft.timers other hmiddle
  · obtain ⟨stream₀, hfirst, -, -, hsame⟩ := Moves.descends hmovesLeft stream hfind
    exact .inr ⟨hid, stream₀, hfirst, hsame.trans hdialer⟩

variable {stream : Stream}

/-- Moves that keep the stream. -/
theorem set (h : Moves m.context allow id (m.findStream id) effects (some stream)) :
    Acts allow id m ((m.setStream id stream).emit effects) :=
  ⟨rfl, rfl, rfl, fun _ h ↦ .inl h,
    fun _ hne ↦ findStream_setStream_ne m stream hne, effects, rfl, by simpa using h⟩

/-- Moves that remove the stream. -/
theorem drop (h : Moves m.context allow id (m.findStream id) effects none) :
    Acts allow id m ((m.dropStream id).emit effects) :=
  ⟨rfl, rfl, rfl, fun _ h ↦ .inl h, fun _ hne ↦ findStream_dropStream_ne m hne,
    effects, rfl, by simpa using h⟩

theorem setMove {next : Stream} (hfind : m.findStream id = some stream)
    (h : Move m.context allow id (some stream) effects (some next)) :
    Acts allow id m ((m.setStream id next).emit effects) :=
  set (by rw [hfind]; exact .single h)

theorem dropMove (hfind : m.findStream id = some stream)
    (h : Move m.context allow id (some stream) effects none) :
    Acts allow id m ((m.dropStream id).emit effects) :=
  drop (by rw [hfind]; exact .single h)

theorem signal (m : TunnelManager) (serviceId : QString) :
    Acts allow id m (m.emit [.streamOpened id serviceId]) :=
  ⟨rfl, rfl, rfl, fun _ h ↦ .inl h, fun _ _ ↦ rfl, [.streamOpened id serviceId], rfl,
    .single (.signal _ serviceId)⟩

/-- A dial retry is scheduled for a dialled stream. -/
theorem scheduleRetry (h : Acts allow id m m')
    (hfind : m.findStream id = some stream) (hdialer : stream.dialer = true) :
    Acts allow id m { m' with retryTimers := id :: m'.retryTimers } := by
  refine ⟨h.context, h.forwards, h.peerRemote, ?_, h.others, h.moves⟩
  intro other hother
  rcases mem_cons.mp hother with rfl | hold
  · exact .inr ⟨rfl, stream, hfind, hdialer⟩
  · exact h.timers other hold

end Acts

end DdeCooperation.Tunnel
