import DdeCooperation.Qt.JsonText
import DdeCooperation.Tunnel.Bounds

/-!
# Dials and answers to OPEN

What a hostile peer can make a manager do outwards is dial a service and answer
an OPEN. A dial only goes to the address that is registered at that moment for
the service that an OPEN of the current peer has asked for. Answers are counted
against the OPEN frames handled: a dialled stream that is not ready still owes
one answer, every other stream owes none.

The count is only right while no local connection is given an id for which a
dial retry is pending. The timer of a retry is not cancelled when its stream
goes, and when it fires it finds a stream that was never dialled.
-/

namespace DdeCooperation.Tunnel

open Qt Foundations List

variable {c : Context} {frame : Frame} {allow : Allowance} {first last : Option Stream}
  {effects : List Effect} {serviceId remote host : QString} {m : TunnelManager} {event : Event}
  {id : UInt32} {port : UInt16}

/-! ## The OPEN frames handled in a run -/

/-- An OPEN frame that reached `handleOpen`, with its sender and the peer of that moment. -/
structure HandledOpen where
  peerIp : QString
  remote : QString
  id : UInt32
  serviceId : QString
  token : QString
  deriving DecidableEq

namespace TunnelManager

def handledOpens (json : QJsonDocument) (m : TunnelManager) : Event → List HandledOpen
  | .onTunnelMessage mask payload remote _ =>
    match m.admitted json mask payload remote with
    | some (.tunnelOpen id serviceId token) => [⟨m.peerIp, remote, id, serviceId, token⟩]
    | _ => []
  | _ => []

/-- All OPEN frames handled in a run, oldest first. -/
def openHistory (json : QJsonDocument) : TunnelManager → List Event → List HandledOpen
  | _, [] => []
  | m, event :: events =>
    m.handledOpens json event ++ openHistory json (m.step json event) events

theorem openHistory_append (json : QJsonDocument) (before after : List Event) :
    m.openHistory json (before ++ after) =
      m.openHistory json before ++ (m.run json before).openHistory json after := by
  induction before generalizing m with
  | nil => rfl
  | cons event before ih =>
    rw [cons_append, openHistory, ih, openHistory, append_assoc]
    rfl

end TunnelManager

/-! ## Counting answers -/

/-- An OPEN_ACK for the given stream and token. -/
def Effect.answers (id : UInt32) (token : QString) : Effect → Bool
  | send _ (.tunnelOpenAck other _ secret _) => other = id && secret = token
  | _ => false

def answers (id : UInt32) (token : QString) (effects : List Effect) : ℕ :=
  effects.countP (Effect.answers id token)

/-- The answers a stream still owes. -/
def awaiting (token : QString) : Option Stream → ℕ
  | none => 0
  | some stream =>
    if stream.dialer = true ∧ stream.ready = false ∧ stream.token = token then 1 else 0

def requests (id : UInt32) (token : QString) (history : List HandledOpen) : ℕ :=
  history.countP fun request ↦ request.id = id && request.token = token

section

variable {id : UInt32} {token : QString}

@[simp] theorem answers_nil : answers id token [] = 0 := rfl

@[simp] theorem answers_append (left right : List Effect) :
    answers id token (left ++ right) = answers id token left + answers id token right :=
  countP_append

@[simp] theorem answers_cons (effect : Effect) :
    answers id token (effect :: effects) =
      (if effect.answers id token then 1 else 0) + answers id token effects := by
  rw [answers, answers, countP_cons, Nat.add_comm]

theorem answers_about : answers id token (about id effects) = answers id token effects := by
  unfold answers about
  rw [countP_filter]
  congr 1
  funext effect
  cases effect with
  | send target frame =>
    cases frame with
    | tunnelOpenAck other ok secret reason =>
      by_cases hid : other = id <;> simp [Effect.answers, Effect.stream, Frame.id, hid]
    | _ => rfl
  | _ => rfl

theorem answers_sends_of_not (h : ∀ target, (Effect.send target frame).answers id token = false) :
    answers id token (c.sends frame) = 0 := by
  unfold Context.sends answers
  split <;> simp [h]

theorem answers_sends_le (ok : Bool) (secret reason : QString) :
    answers id token (c.sends (.tunnelOpenAck id ok secret reason)) ≤
      if secret = token then 1 else 0 := by
  unfold Context.sends answers
  split <;> by_cases htoken : secret = token <;> simp [Effect.answers, htoken]

variable (token)

/-- An answer is only sent in a move that no longer owes it. -/
theorem answers_move (hmove : Move c allow id first effects last)
    (hsound : ∀ stream ∈ first, stream.Sound)
    (hstale : allow.stale → ∀ stream ∈ first, stream.dialer = true) :
    answers id token effects + awaiting token last ≤ awaiting token first := by
  cases hmove with
  | arrive stream | retry stream => simp [awaiting]
  | read stream hready =>
    rw [answers_cons, answers_sends_of_not fun _ ↦ rfl]
    simp [Effect.answers, awaiting, hready, Stream.readChunk]
  | write stream bytes hready => simp [Effect.answers, awaiting, hready, Stream.writeChunk]
  | drain stream bytes =>
    rw [answers_sends_of_not fun _ ↦ rfl]
    simp [awaiting]
  | redial stream => simp [Effect.answers, awaiting]
  | signal => simp [Effect.answers]
  | drop => simp [Effect.answers, awaiting]
  | close stream =>
    rw [answers_append, answers_sends_of_not fun _ ↦ rfl]
    simp [Effect.answers, awaiting]
  | connect stream hconnect hstate =>
    -- a connecting socket belongs to a dialled stream that is not ready
    have hstream := hsound stream rfl
    have hdialer : stream.dialer = true := by
      by_contra haccepted
      rw [hstream.accepted (by simpa using haccepted)] at hstate
      simp at hstate
    have hready : stream.ready = false := by
      by_contra hopen
      rw [(hstream.established (by simpa using hopen)).2] at hstate
      simp at hstate
    split <;> by_cases htoken : stream.token = token <;>
      simp [Effect.answers, awaiting, hdialer, hready, htoken]
  | giveUp stream text hready hdialer =>
    have hdialled : stream.dialer = true := hdialer.elim (fun h ↦ h) fun h ↦ hstale h stream rfl
    have hle : answers id token (c.sends (.tunnelOpenAck id false stream.token text)) ≤ _ :=
      answers_sends_le false stream.token text
    simpa [Effect.answers, awaiting, hdialled, hready] using hle

theorem answers_moves (hmoves : Moves c allow id first effects last)
    (hsound : ∀ stream ∈ first, stream.Sound)
    (hstale : allow.stale → ∀ stream ∈ first, stream.dialer = true) :
    answers id token effects + awaiting token last ≤ awaiting token first := by
  have hhistory := hmoves.preserves_history (P := fun history state ↦
    answers id token history + awaiting token state ≤ awaiting token first ∧
      (∀ stream ∈ state, stream.Sound) ∧
      (allow.stale → ∀ stream ∈ state, stream.dialer = true)) ?_ [] ⟨by simp, hsound, hstale⟩
  · simpa using hhistory.1
  · rintro before new after hmove history ⟨hle, hbefore, hdialer⟩
    refine ⟨?_, Stream.Sound.move hmove hbefore, fun h stream hstream ↦ ?_⟩
    · have hstep := answers_move token hmove hbefore hdialer
      rw [answers_append]
      omega
    · obtain ⟨origin, horigin, -, -, hsame⟩ := hmove.descends stream hstream
      exact hsame.symm.trans (hdialer h origin horigin)

theorem answers_create (hcreate : Trace (Create c serviceId id) first effects last) :
    answers id token effects + awaiting token last ≤ awaiting token first := by
  have hhistory := hcreate.preserves_history (P := fun history state ↦
    answers id token history + awaiting token state ≤ awaiting token first) ?_ [] (by simp)
  · simpa using hhistory
  · intro before new after hstep history hle
    cases hstep with
    | announce => simpa [Effect.answers, awaiting, TunnelManager.createStream] using hle
    | abandon => simpa [Effect.answers, awaiting] using hle

/-- The OPEN frames for the given stream and token among one frame. -/
def Frame.requests (id : UInt32) (token : QString) : Frame → ℕ
  | .tunnelOpen other _ secret => if other = id ∧ secret = token then 1 else 0
  | _ => 0

theorem answers_receive (h : Receive c remote id frame first effects last) :
    answers id token effects + awaiting token last ≤
      awaiting token first + frame.requests id token := by
  cases h with
  | openIgnore | ackIgnore | dataUnknown | dataEmpty | ackUnknown | closeUnknown => simp
  | openRefuse service secret =>
    by_cases htoken : secret = token
    · simp [Effect.answers, Frame.requests, htoken, Nat.add_comm]
    · simp [Effect.answers, Frame.requests, htoken]
  | openDial serviceId secret =>
    by_cases htoken : secret = token <;>
      simp [Effect.answers, Frame.requests, awaiting, TunnelManager.createStream, htoken]
  | ackReject | closeKnown | ackAccept => simp [Effect.answers, awaiting]
  | dataOverflow =>
    rw [answers_append, answers_sends_of_not fun _ ↦ rfl]
    simp [Effect.answers, awaiting]
  | dataQueue | ackCredit => simp [awaiting]

variable {json : QJsonDocument}

theorem requests_handledOpens {mask : ℤ} {payload : QByteArray} {writes : List WriteResult}
    (hadmitted : m.admitted json mask payload remote = some frame) :
    requests id token (m.handledOpens json (.onTunnelMessage mask payload remote writes)) =
      frame.requests id token := by
  simp only [TunnelManager.handledOpens, hadmitted]
  cases frame with
  | tunnelOpen other service secret =>
    by_cases hother : other = id <;> by_cases hsecret : secret = token <;>
      simp [requests, Frame.requests, hother, hsecret]
  | _ => rfl

/-- In a turn, a stream sends no more answers than it owed and was asked for. -/
theorem answers_turn
    (hturn : Turn json m id event first effects last) (hsound : ∀ stream ∈ first, stream.Sound)
    (hstale : id ∈ m.retryTimers → ∀ stream ∈ first, stream.dialer = true) :
    answers id token effects + awaiting token last ≤
      awaiting token first + requests id token (m.handledOpens json event) := by
  cases hturn with
  | moves hmoves => exact (answers_moves token hmoves hsound hstale).trans (Nat.le_add_right _ _)
  | create _ hcreate => exact (answers_create token hcreate).trans (Nat.le_add_right _ _)
  | receive heffects hadmitted hid hreceive hmoves =>
    have hreceived := answers_receive token hreceive
    have hmoved := answers_moves token hmoves
      (Stream.Sound.receive hreceive hsound) (fun h ↦ h.elim)
    rw [requests_handledOpens token hadmitted, heffects, answers_append]
    omega

end

namespace TunnelManager

/-! ## Ids of pending retries -/

/-- The ids that a list of accepted connections is given. -/
def assignedIds (serviceId : QString) : List Incoming → TunnelManager → List UInt32
  | [], _ => []
  | incoming :: connections, m =>
    (m.nextStreamId incoming.draws).toList ++
      assignedIds serviceId connections (m.acceptConnection serviceId incoming)

/-- No accepted connection is given an id for which a dial retry is pending. -/
def SparesRetries (m : TunnelManager) : Event → Prop
  | .newConnection serviceId connections =>
    ∀ id ∈ m.assignedIds serviceId connections, id ∉ m.retryTimers
  | _ => True

instance (m : TunnelManager) (event : Event) : Decidable (m.SparesRetries event) := by
  cases event
  case newConnection serviceId connections =>
    exact List.decidableBAll (fun id ↦ id ∉ m.retryTimers) (m.assignedIds serviceId connections)
  all_goals exact inferInstanceAs (Decidable True)

/-- Every event of a run spares the ids of pending retries. -/
def RunSparesRetries (json : QJsonDocument) : TunnelManager → List Event → Prop
  | _, [] => True
  | m, event :: events => m.SparesRetries event ∧ RunSparesRetries json (m.step json event) events

instance (json : QJsonDocument) : ∀ m events, Decidable (RunSparesRetries json m events)
  | _, [] => inferInstanceAs (Decidable True)
  | m, event :: events =>
    have := instDecidableRunSparesRetries json (m.step json event) events
    inferInstanceAs (Decidable (m.SparesRetries event ∧ _))

variable {stream : Stream}

theorem findStream_acceptConnection {incoming : Incoming}
    (h : (m.acceptConnection serviceId incoming).findStream id = some stream) :
    m.findStream id = some stream ∨ m.nextStreamId incoming.draws = some id := by
  unfold acceptConnection at h
  split at h
  · exact .inl h
  · next chosen hnext =>
    by_cases hid : id = chosen
    · exact .inr (by rw [hnext, hid])
    · dsimp only at h
      split at h
      · rw [findStream_destroyStream, if_neg hid, findStream_setStream_ne m _ hid] at h
        exact .inl h
      · rw [findStream_emit, findStream_setStream_ne m _ hid] at h
        exact .inl h

theorem findStream_acceptLocalConnection {connections : List Incoming}
    (h : (connections.foldl (acceptConnection serviceId) m).findStream id = some stream) :
    m.findStream id = some stream ∨ id ∈ m.assignedIds serviceId connections := by
  induction connections generalizing m with
  | nil => exact .inl h
  | cons incoming connections ih =>
    simp only [assignedIds, mem_append, Option.mem_toList]
    rcases ih h with hold | hnew
    · rcases findStream_acceptConnection hold with hfirst | hnext
      · exact .inl hfirst
      · exact .inr (.inl hnext)
    · exact .inr (.inr hnew)

/-- A stream that is there after an event was there before, was accepted on a forward, or was
dialled for the OPEN that the peer has just sent. -/
theorem origin_step (hstream : (m.step json event).findStream id = some stream) :
    (∃ origin, m.findStream id = some origin ∧ origin.serviceId = stream.serviceId ∧
      origin.dialer = stream.dialer) ∨
    m.peerIp ≠ "" ∧
      ((∃ serviceId connections forward, event = .newConnection serviceId connections ∧
        m.forwards.lookup serviceId = some forward ∧ stream.dialer = false) ∨
      ∃ request ∈ m.handledOpens json event, request.remote = request.peerIp ∧ request.id = id ∧
        request.serviceId = stream.serviceId ∧ stream.dialer = true) := by
  have hturn := turn_step json m event id
  rw [hstream] at hturn
  cases hturn with
  | moves hmoves =>
    obtain ⟨origin, horigin, hservice, -, hsame⟩ := Moves.descends hmoves stream rfl
    exact .inl ⟨origin, horigin, hservice, hsame⟩
  | create hforward hcreate =>
    rcases Create.origin hcreate with hfirst | ⟨-, haccepted, honline⟩
    · exact .inl ⟨stream, hfirst, rfl, rfl⟩
    · exact .inr ⟨honline, .inl ⟨_, _, _, rfl, hforward, haccepted⟩⟩
  | @receive mask payload remote writes _ _ _ _ _ _ _ _ hadmitted _ hreceive hmoves =>
    rcases hreceive.origin with hdescends | ⟨serviceId, token, service, -, rfl, rfl, honline,
      hremote, -⟩
    · obtain ⟨origin, horigin, hservice, -, hsame⟩ :=
        hdescends.trans (Moves.descends hmoves) stream rfl
      exact .inl ⟨origin, horigin, hservice, hsame⟩
    · obtain ⟨_, ⟨⟩, hservice, -, hsame⟩ := Moves.descends hmoves stream rfl
      refine .inr ⟨honline, .inr ⟨⟨m.peerIp, remote, id, serviceId, token⟩, ?_, hremote, rfl,
        hservice, hsame.symm⟩⟩
      simp [handledOpens, hadmitted]

/-- Pending dial retries are for dialled streams, or for streams that are gone. -/
def RetriesDialled (m : TunnelManager) : Prop :=
  ∀ id ∈ m.retryTimers, ∀ stream ∈ m.findStream id, stream.dialer = true

theorem RetriesDialled.step (json : QJsonDocument) (h : m.RetriesDialled)
    (hspares : m.SparesRetries event) : (m.step json event).RetriesDialled := by
  intro id hid stream hstream
  have hold : ∀ origin, m.findStream id = some origin → origin.dialer = true := by
    intro origin horigin
    rcases (handling_step json m event).timers hid with htimer | ⟨dialled, hdialled, hdialer⟩
    · exact h id htimer origin horigin
    · rw [hdialled, Option.some.injEq] at horigin
      exact horigin ▸ hdialer
  rcases origin_step hstream with ⟨origin, horigin, -, hsame⟩ |
    ⟨-, ⟨serviceId, connections, forward, rfl, hforward, -⟩ | ⟨-, -, -, -, -, hdialer⟩⟩
  · exact hsame ▸ hold origin horigin
  · have htimers := (evolves_acceptLocalConnection serviceId connections m).timers
    simp only [TunnelManager.step] at hid hstream
    rw [htimers] at hid
    simp only [acceptLocalConnection, hforward] at hstream
    rcases findStream_acceptLocalConnection hstream with hfirst | hassigned
    · exact hold stream hfirst
    · exact absurd hid (hspares id hassigned)
  · exact hdialer

/-! ## The run -/

/-- Every dialled stream goes back to an OPEN that its peer of that time sent. -/
def Dialled (history : List HandledOpen) (m : TunnelManager) : Prop :=
  ∀ id stream, m.findStream id = some stream → stream.dialer = true →
    ∃ request ∈ history, request.remote = request.peerIp ∧ request.id = id ∧
      request.serviceId = stream.serviceId

variable {history : List HandledOpen}

theorem Dialled.step (json : QJsonDocument) (h : Dialled history m) (event : Event) :
    Dialled (history ++ m.handledOpens json event) (m.step json event) := by
  intro id stream hstream hdialer
  rcases origin_step hstream with ⟨origin, horigin, hservice, hsame⟩ |
    ⟨-, ⟨-, -, -, -, -, haccepted⟩ | ⟨request, hmem, hremote, hid, hservice, -⟩⟩
  · obtain ⟨request, hmem, hremote, hid, hrequest⟩ := h id origin horigin (hsame.trans hdialer)
    exact ⟨request, mem_append_left _ hmem, hremote, hid, hrequest.trans hservice⟩
  · rw [haccepted] at hdialer
    cases hdialer
  · exact ⟨request, mem_append_right _ hmem, hremote, hid, hservice⟩

/-- A move that dials serves a stream that was dialled before, at the registered address. -/
theorem connectToHost_of_moves
    (hmoves : Moves c allow id first effects last) (hsound : ∀ stream ∈ first, stream.Sound)
    (heffect : .connectToHost id host port ∈ effects) :
    ∃ stream, first = some stream ∧ stream.dialer = true ∧
      c.services.lookup stream.serviceId = some ⟨host, port⟩ := by
  refine hmoves.forall_mem
    (P := fun state ↦ (∀ stream ∈ state, stream.Sound) ∧ Descends first state)
    (Q := fun effect ↦ effect = .connectToHost id host port → ∃ stream, first = some stream ∧
      stream.dialer = true ∧ c.services.lookup stream.serviceId = some ⟨host, port⟩)
    (fun _ _ _ hmove h ↦ ⟨Stream.Sound.move hmove h.1, h.2.trans hmove.descends⟩) ?_
    ⟨hsound, .refl first⟩ _ heffect rfl
  rintro before new after hmove ⟨hbefore, hdescends⟩ effect hmem rfl
  cases hmove with
  | arrive | retry | write | signal | drop | read | drain | close | giveUp => simp at hmem
  | connect => split at hmem <;> simp at hmem
  | redial stream service hready hservice hstate =>
    simp only [mem_singleton, Effect.connectToHost.injEq, true_and] at hmem
    obtain ⟨origin, horigin, hsame, -, hdialer⟩ := hdescends stream rfl
    have hdialled : stream.dialer = true := by
      by_contra haccepted
      exact hstate ((hbefore stream rfl).accepted (by simpa using haccepted))
    refine ⟨origin, horigin, hdialer.trans hdialled, ?_⟩
    rw [hsame, hservice, hmem.1, hmem.2]

/-- The only frame that makes a manager dial at once is an OPEN of its current peer. -/
theorem connectToHost_of_receive (hreceive : Receive c remote id frame first effects last)
    (heffect : .connectToHost id host port ∈ effects) :
    ∃ serviceId token, frame = .tunnelOpen id serviceId token ∧ remote = c.peerIp ∧
      c.services.lookup serviceId = some ⟨host, port⟩ := by
  cases hreceive with
  | openDial serviceId token service hpeer hservice =>
    simp only [mem_singleton, Effect.connectToHost.injEq, true_and] at heffect
    rw [heffect.1, heffect.2]
    exact ⟨serviceId, token, rfl, hpeer.2, hservice⟩
  | _ => simp at heffect

variable {json : QJsonDocument}

theorem connectToHost_step (hdialled : Dialled history m) (hbounded : m.Bounded)
    (heffect : .connectToHost id host port ∈ m.emitted json event) :
    ∃ request ∈ history ++ m.handledOpens json event, request.remote = request.peerIp ∧
      request.id = id ∧ m.services.lookup request.serviceId = some ⟨host, port⟩ := by
  have habout : .connectToHost id host port ∈ about id (m.emitted json event) :=
    mem_filter.mpr ⟨heffect, by simp [Effect.stream]⟩
  have hmoved : ∀ stream, m.findStream id = some stream → stream.dialer = true →
      m.services.lookup stream.serviceId = some ⟨host, port⟩ →
      ∃ request ∈ history ++ m.handledOpens json event, request.remote = request.peerIp ∧
        request.id = id ∧ m.services.lookup request.serviceId = some ⟨host, port⟩ := by
    intro stream hfind hdialer hservice
    obtain ⟨request, hmem, hremote, hid, hrequest⟩ := hdialled id stream hfind hdialer
    exact ⟨request, mem_append_left _ hmem, hremote, hid, by rw [hrequest, hservice]⟩
  have hturn := turn_step json m event id
  generalize about id (m.emitted json event) = effects at habout hturn
  cases hturn with
  | moves hmoves =>
    obtain ⟨stream, hfind, hdialer, hservice⟩ :=
      connectToHost_of_moves hmoves (hbounded.sound id) habout
    exact hmoved stream hfind hdialer hservice
  | create _ hcreate =>
    have hnone := hcreate.forall_mem (P := fun _ ↦ True)
      (Q := fun effect ↦ effect ≠ .connectToHost id host port) (fun _ _ _ _ _ ↦ trivial)
      (fun _ _ _ hstep _ effect hmem ↦ by cases hstep <;> simp_all) trivial
    exact absurd rfl (hnone _ habout)
  | @receive mask payload remote writes frame _ _ _ left right _ heffects hadmitted hid hreceive
      hmoves =>
    rw [heffects] at habout
    have hsound := Stream.Sound.receive hreceive (hbounded.sound id)
    -- a dial for a stream that this very OPEN has made
    have hrequest : ∀ serviceId token, frame = .tunnelOpen id serviceId token →
        remote = m.peerIp → m.services.lookup serviceId = some ⟨host, port⟩ →
        ∃ request ∈ history ++ m.handledOpens json (.onTunnelMessage mask payload remote writes),
          request.remote = request.peerIp ∧ request.id = id ∧
            m.services.lookup request.serviceId = some ⟨host, port⟩ := by
      intro serviceId token hframe hremote hservice
      refine ⟨⟨m.peerIp, remote, id, serviceId, token⟩, mem_append_right _ ?_, hremote, rfl,
        hservice⟩
      simp [handledOpens, hadmitted, hframe]
    rcases mem_append.mp habout with hleft | hright
    · obtain ⟨serviceId, token, hframe, hremote, hservice⟩ := connectToHost_of_receive hreceive hleft
      exact hrequest serviceId token hframe hremote hservice
    · obtain ⟨stream, hmiddle, hdialer, hservice⟩ := connectToHost_of_moves hmoves hsound hright
      rcases hreceive.origin with hdescends | ⟨serviceId, token, service, -, hdialled, hframe, -,
        hremote, -⟩
      · obtain ⟨origin, horigin, hsame, -, hside⟩ := hdescends stream hmiddle
        exact hmoved origin horigin (hside.trans hdialer) (by rw [hsame]; exact hservice)
      · rw [hdialled, Option.some.injEq] at hmiddle
        rw [← hmiddle] at hservice
        exact hrequest serviceId token hframe hremote hservice

/-- A positive answer is only sent when the dialled socket of the stream connects. -/
theorem positive_step (hbounded : m.Bounded) {target token reason : QString}
    (heffect : .send target (.tunnelOpenAck id true token reason) ∈ m.emitted json event) :
    ∃ writes stream, event = .connected id writes ∧ m.findStream id = some stream ∧
      stream.dialer = true ∧ stream.token = token := by
  have habout : .send target (.tunnelOpenAck id true token reason) ∈
      about id (m.emitted json event) :=
    mem_filter.mpr ⟨heffect, by simp [Effect.stream, Frame.id]⟩
  have hmoves : ∀ {allow first effects last}, Moves m.context allow id first effects last →
      (∀ stream ∈ first, stream.Sound) →
      .send target (.tunnelOpenAck id true token reason) ∈ effects →
      allow.connect ∧ ∃ stream, first = some stream ∧ stream.dialer = true ∧
        stream.token = token := by
    intro allow first effects last hmoves hsound hmem
    refine hmoves.forall_mem
      (P := fun state ↦ (∀ stream ∈ state, stream.Sound) ∧ Descends first state)
      (Q := fun effect ↦ effect = .send target (.tunnelOpenAck id true token reason) →
        allow.connect ∧ ∃ stream, first = some stream ∧ stream.dialer = true ∧ stream.token = token)
      (fun _ _ _ hmove h ↦ ⟨Stream.Sound.move hmove h.1, h.2.trans hmove.descends⟩) ?_
      ⟨hsound, .refl first⟩ _ hmem rfl
    rintro before new after hmove ⟨hbefore, hdescends⟩ effect hnew rfl
    cases hmove with
    | connect stream hconnect hstate =>
      obtain ⟨origin, horigin, -, htoken, hdialer⟩ := hdescends stream rfl
      have hdialled : stream.dialer = true := by
        by_contra haccepted
        rw [(hbefore stream rfl).accepted (by simpa using haccepted)] at hstate
        simp at hstate
      split at hnew
      · simp only [mem_singleton, Effect.send.injEq, Frame.tunnelOpenAck.injEq, true_and]
          at hnew
        exact ⟨hconnect, origin, horigin, hdialer.trans hdialled, htoken.trans hnew.2.1.symm⟩
      · simp at hnew
    | _ => simp at hnew
  have hturn := turn_step json m event id
  generalize about id (m.emitted json event) = effects at habout hturn
  cases hturn with
  | moves h =>
    obtain ⟨⟨writes, hevent⟩, stream, hfind, hdialer, htoken⟩ := hmoves h (hbounded.sound id) habout
    exact ⟨writes, stream, hevent, hfind, hdialer, htoken⟩
  | create _ hcreate =>
    have hnone := hcreate.forall_mem (P := fun _ ↦ True)
      (Q := fun effect ↦ effect ≠ .send target (.tunnelOpenAck id true token reason))
      (fun _ _ _ _ _ ↦ trivial) (fun _ _ _ hstep _ effect hmem ↦ by cases hstep <;> simp_all)
      trivial
    exact absurd rfl (hnone _ habout)
  | receive heffects _ _ hreceive hrest =>
    rw [heffects] at habout
    rcases mem_append.mp habout with hleft | hright
    · generalize m.findStream id = first at hreceive
      cases hreceive <;> simp at hleft
    · exact (hmoves hrest (Stream.Sound.receive hreceive (hbounded.sound id)) hright).1.elim

/-- Every stream owes or has sent no more answers than it was asked for. -/
def Answered (history : List HandledOpen) (m : TunnelManager) : Prop :=
  ∀ id token, answers id token m.log + awaiting token (m.findStream id) ≤
    requests id token history

theorem Answered.step (json : QJsonDocument)
    (h : Answered history m) (hbounded : m.Bounded) (hretries : m.RetriesDialled) (event : Event) :
    Answered (history ++ m.handledOpens json event) (m.step json event) := by
  intro id token
  have hold := h id token
  have hturn := answers_turn token (turn_step json m event id) (hbounded.sound id) (hretries id)
  rw [answers_about] at hturn
  have hrequests : requests id token (history ++ m.handledOpens json event) =
      requests id token history + requests id token (m.handledOpens json event) :=
    countP_append
  rw [log_step, answers_append, hrequests]
  omega

theorem Dialled.run (json : QJsonDocument) (h : Dialled history m) (events : List Event) :
    Dialled (history ++ m.openHistory json events) (m.run json events) := by
  induction events generalizing history m with
  | nil =>
    rw [openHistory, append_nil]
    exact h
  | cons event events ih =>
    rw [openHistory, ← append_assoc]
    exact ih (h.step json event)

theorem Answered.run (json : QJsonDocument)
    (h : Answered history m) (hbounded : m.Bounded) (hretries : m.RetriesDialled)
    {events : List Event} (hspares : m.RunSparesRetries json events) :
    Answered (history ++ m.openHistory json events) (m.run json events) := by
  induction events generalizing history m with
  | nil =>
    rw [openHistory, append_nil]
    exact h
  | cons event events ih =>
    rw [openHistory, ← append_assoc]
    exact ih (h.step json hbounded hretries event) (hbounded.step json event)
      (hretries.step json hspares.1) hspares.2

/-- What a run of a manager that starts empty keeps to, whatever calls and frames it is made of. -/
structure Confined (json : QJsonDocument) (events : List Event) : Prop where
  /-- Every dial goes to the address registered at that moment for the service of an OPEN that came
  from the peer of its time. -/
  dials : ∀ before event after, events = before ++ event :: after → ∀ id host port,
    .connectToHost id host port ∈ (run json {} before).emitted json event →
      ∃ request ∈ openHistory json {} (before ++ [event]), request.remote = request.peerIp ∧
        request.id = id ∧
        (run json {} before).services.lookup request.serviceId = some ⟨host, port⟩
  limits : ∀ id stream, (run json {} events).findStream id = some stream →
    0 ≤ stream.unacked ∧ stream.unacked ≤ kWindowSize ∧ stream.pending.length ≤ kMaxPending ∧
      stream.dialAttempts ≤ kDialAttempts
  forwards_le : (run json {} events).forwards.keys.length ≤ kMaxForwards
  served : ∀ id stream, (run json {} events).findStream id = some stream →
    stream.dialer = false →
      ∃ forward, (run json {} events).forwards.lookup stream.serviceId = some forward
  /-- No more OPEN_ACK frames than OPEN frames handled, for every stream id and token. -/
  answered : ∀ id token, answers id token (run json {} events).log ≤
    requests id token (openHistory json {} events)
  positive : ∀ before event after, events = before ++ event :: after →
    ∀ target id token reason, .send target (.tunnelOpenAck id true token reason) ∈
        (run json {} before).emitted json event →
      ∃ writes stream, event = .connected id writes ∧
        (run json {} before).findStream id = some stream ∧ stream.dialer = true ∧
        stream.token = token

theorem confined_of_sparesRetries (json : QJsonDocument) (events : List Event)
    (hspares : RunSparesRetries json {} events) : Confined json events := by
  have hempty : ({} : TunnelManager).Bounded := bounded_of_empty rfl rfl
  have hbounded := hempty.run json events
  refine ⟨?_, fun id stream hfind ↦ ?_, hbounded.served.length_le, hbounded.served.forward, ?_, ?_⟩
  · rintro before event after rfl id host port heffect
    have hdialled : Dialled ([] ++ openHistory json {} before) (run json {} before) :=
      Dialled.run json (by simp [Dialled, findStream]) before
    have hdial := connectToHost_step hdialled (hempty.run json before) heffect
    rw [openHistory_append]
    simpa [openHistory] using hdial
  · have hsound := hbounded.sound id stream hfind
    exact ⟨hsound.unacked_nonneg, hsound.unacked_le, hsound.pending_le, hsound.dialAttempts_le⟩
  · have hanswered : Answered ([] ++ openHistory json {} events) (run json {} events) :=
      Answered.run json (by simp [Answered, findStream, awaiting]) hempty
        (by simp [RetriesDialled]) hspares
    exact fun id token ↦ (Nat.le_add_right _ _).trans (hanswered id token)
  · rintro before event after rfl target id token reason heffect
    exact positive_step (hempty.run json before) heffect

/-- A dial fails, its stream times out while the retry is still pending, and then a local
connection of another service is given the same id. -/
def staleRetryRun (id : UInt32) : List Event :=
  [.setSendHandler true, .setPeer "192.168.0.2", .registerService "http" "127.0.0.1" 80,
    .onTunnelMessage TunnelMessageType.tunnelOpen.mask
      ((Frame.tunnelOpen 5 "http" "a1").payload textJson) "192.168.0.2" [],
    .errorOccurred 5, .connectTimeout 5, .startLocalForward "barrier" (.ok 40000),
    .newConnection "barrier" [⟨[id], "b2"⟩], .dialRetry 5]

theorem confined_staleRetryRun_seven :
    RunSparesRetries textJson {} (staleRetryRun 7) ∧ Confined textJson (staleRetryRun 7) := by
  have hspares : RunSparesRetries textJson {} (staleRetryRun 7) := by decide +kernel
  exact ⟨hspares, confined_of_sparesRetries textJson (staleRetryRun 7) hspares⟩

/-- With the id of the pending retry, the retry answers an OPEN that was never received. -/
theorem not_confined_staleRetryRun_five : ¬ Confined textJson (staleRetryRun 5) := by
  intro h
  have hanswers : answers 5 "b2" (run textJson {} (staleRetryRun 5)).log = 1 := by decide +kernel
  have hrequests : requests 5 "b2" (openHistory textJson {} (staleRetryRun 5)) = 0 := by
    decide +kernel
  have hle := h.answered 5 "b2"
  exact absurd hle (by decide)

end TunnelManager

end DdeCooperation.Tunnel
