import DdeCooperation.Tunnel.Dialling
import DdeCooperation.Tunnel.Strangers

/-!
# Streams and the peer they were created for

A stream does not record its peer: whatever it sends goes to the address that is
current at that moment. The streams of a run therefore stay with the peer they
were created for as long as the address is only changed while no stream is live.
The callers differ in this. `ensureTunnelPeer` never replaces a peer, and a
session is ended by stopping all streams before the address is cleared.
`connectToDevice` sets the new address without looking at the streams.
-/

namespace DdeCooperation.Tunnel

open Qt Foundations List

variable {json : QJsonDocument} {m : TunnelManager} {event : Event} {events : List Event}
  {id : UInt32} {target : QString} {frame : Frame}

namespace TunnelManager

/-! ## The condition -/

/-- The peer address is changed only while there are no streams. -/
def KeepsPeer (m : TunnelManager) : Event → Prop
  | .setPeer peerIp => peerIp = m.peerIp ∨ m.streams.keys = []
  | _ => True

instance (m : TunnelManager) (event : Event) : Decidable (m.KeepsPeer event) := by
  apply @Event.casesOn _ event <;> intros <;> unfold KeepsPeer <;> infer_instance

/-- Every event of a run keeps the peer of the live streams. -/
def RunKeepsPeer (json : QJsonDocument) : TunnelManager → List Event → Prop
  | _, [] => True
  | m, event :: events => m.KeepsPeer event ∧ RunKeepsPeer json (m.step json event) events

instance (json : QJsonDocument) : ∀ m events, Decidable (RunKeepsPeer json m events)
  | _, [] => inferInstanceAs (Decidable True)
  | m, event :: events =>
    have := instDecidableRunKeepsPeer json (m.step json event) events
    inferInstanceAs (Decidable (m.KeepsPeer event ∧ _))

theorem runKeepsPeer_append {left right : List Event} :
    RunKeepsPeer json m (left ++ right) ↔
      RunKeepsPeer json m left ∧ RunKeepsPeer json (run json m left) right := by
  induction left generalizing m with
  | nil => simp [RunKeepsPeer, run]
  | cons event left ih => simp only [cons_append, RunKeepsPeer, ih, and_assoc]; rfl

/-! ## The peer at birth -/

/-- The peers of the streams after an event: a new stream gets the peer of the moment. -/
def recordBirths (json : QJsonDocument) (m : TunnelManager) (event : Event)
    (births : UInt32 → QString) (id : UInt32) : QString :=
  if (m.findStream id).isNone && ((m.step json event).findStream id).isSome then m.peerIp
  else births id

/-- For every id, the peer address that was current when its last stream was created. -/
def birthPeers (json : QJsonDocument) :
    TunnelManager → (UInt32 → QString) → List Event → UInt32 → QString
  | _, births, [] => births
  | m, births, event :: events =>
    birthPeers json (m.step json event) (recordBirths json m event births) events

/-- Every live stream was created for the current peer. -/
def BoundTo (births : UInt32 → QString) (m : TunnelManager) : Prop :=
  ∀ id stream, m.findStream id = some stream → births id = m.peerIp

theorem findStream_of_keys_nil (h : m.streams.keys = []) : m.findStream id = none := by
  cases hfind : m.findStream id with
  | none => rfl
  | some stream => exact absurd (mem_keys_of_findStream hfind) (by simp [h])

theorem findStream_onPeerDisconnected : m.onPeerDisconnected.findStream id = none := by
  have hsweeps : Sweeps (fun _ ↦ .none) _ _ :=
    sweeps_stopLocalForwards (m.destroyStreams m.streams.keys "peer disconnected")
  cases hfind : m.onPeerDisconnected.findStream id with
  | none => rfl
  | some stream =>
    obtain ⟨origin, horigin, -⟩ := hsweeps.descends id stream hfind
    rw [findStream_destroyStreams_keys] at horigin
    simp at horigin

/-- When the peer changes under the condition, no stream is left. -/
theorem peerIp_step (hkeeps : m.KeepsPeer event) : (m.step json event).peerIp = m.peerIp ∨
      ∀ id, (m.step json event).findStream id = none := by
  rcases (handling_step json m event).peerIp with hsame | hset | ⟨rfl, -⟩
  · exact .inl hsame
  · generalize (m.step json event).peerIp = peerIp at hset
    subst hset
    rcases hkeeps with hsame | hidle
    · exact .inl hsame
    · exact .inr fun id ↦ findStream_of_keys_nil hidle
  · exact .inr fun id ↦ findStream_onPeerDisconnected

variable {births : UInt32 → QString}

theorem BoundTo.step (json : QJsonDocument) (h : BoundTo births m) (hkeeps : m.KeepsPeer event) :
    BoundTo (recordBirths json m event births) (m.step json event) := by
  intro id stream hfind
  rcases peerIp_step hkeeps with hsame | hidle
  · rw [hsame, recordBirths]
    split
    · rfl
    · next hold =>
      cases hfirst : m.findStream id with
      | none => simp [hfirst, hfind] at hold
      | some first => exact h id first hfirst
  · rw [hidle id] at hfind
    simp at hfind

theorem BoundTo.run (json : QJsonDocument)
    (h : BoundTo births m) (hkeeps : RunKeepsPeer json m events) :
    BoundTo (birthPeers json m births events) (m.run json events) := by
  induction events generalizing births m with
  | nil => exact h
  | cons event events ih => exact ih (h.step json hkeeps.1) hkeeps.2

/-! ## What is sent and what is honoured -/

variable {c : Context} {first last : Option Stream} {effects : List Effect}

/-- Whatever a moving stream sends goes to the current peer. -/
theorem send_of_moves {allow : Allowance} (hmoves : Moves c allow id first effects last)
    (heffect : .send target frame ∈ effects) : target = c.peerIp ∧ first.isSome = true := by
  refine hmoves.forall_mem (P := Descends first)
    (Q := fun effect ↦ effect = .send target frame → target = c.peerIp ∧ first.isSome = true)
    (fun _ _ _ hmove h ↦ h.trans hmove.descends) ?_ (.refl first) _ heffect rfl
  rintro before new after hmove hdescends effect hmem rfl
  have hsome : ∀ stream, before = some stream → first.isSome = true := by
    intro stream hstream
    obtain ⟨origin, horigin, -⟩ := hdescends stream hstream
    simp [horigin]
  cases hmove with
  | arrive | retry | write | redial | signal | drop => simp at hmem
  | read stream | drain stream | close stream | giveUp stream =>
    simp only [mem_cons, mem_append, not_mem_nil, reduceCtorEq, or_false, false_or,
      Context.mem_sends, Effect.send.injEq] at hmem
    exact ⟨hmem.2.1, hsome stream rfl⟩
  | connect stream =>
    split at hmem
    · simp only [mem_singleton, Effect.send.injEq] at hmem
      exact ⟨hmem.1, hsome stream rfl⟩
    · simp at hmem

theorem send_of_receive {remote : QString} {received : Frame}
    (h : Receive c remote id received first effects last)
    (heffect : .send target frame ∈ effects) :
    target = c.peerIp ∧ first.isSome = true ∨
      ∃ serviceId token reason, received = .tunnelOpen id serviceId token ∧
        frame = .tunnelOpenAck id false token reason := by
  cases h with
  | openRefuse service token reason =>
    simp only [mem_singleton, Effect.send.injEq] at heffect
    exact .inr ⟨service, token, reason, rfl, heffect.2⟩
  | dataOverflow =>
    simp only [mem_cons, mem_append, not_mem_nil, reduceCtorEq, or_false,
      Context.mem_sends, Effect.send.injEq] at heffect
    exact .inl ⟨heffect.2.1, rfl⟩
  | _ => simp at heffect

/-- Apart from OPEN frames, everything is sent to the current peer about a live stream, or refuses
an OPEN that was just received. -/
theorem send_step (heffect : .send target frame ∈ m.emitted json event)
    (htype : frame.type ≠ .tunnelOpen) :
    target = m.peerIp ∧ (m.findStream frame.id).isSome = true ∨
      ∃ request ∈ m.handledOpens json event, ∃ reason,
        frame = .tunnelOpenAck request.id false request.token reason := by
  have habout : .send target frame ∈ about frame.id (m.emitted json event) :=
    mem_filter.mpr ⟨heffect, by simp [Effect.stream]⟩
  have hturn := turn_step json m event frame.id
  generalize about frame.id (m.emitted json event) = effects at habout hturn
  cases hturn with
  | moves hmoves => exact .inl (send_of_moves hmoves habout)
  | create _ hcreate =>
    have hopen := hcreate.forall_mem (P := fun _ ↦ True)
      (Q := fun effect ↦ effect = .send target frame → frame.type = .tunnelOpen)
      (fun _ _ _ _ _ ↦ trivial) ?_ trivial _ habout rfl
    · exact absurd hopen htype
    · rintro before new after hstep - effect hmem rfl
      cases hstep with
      | announce =>
        simp only [mem_singleton, Effect.send.injEq] at hmem
        rw [hmem.2]
        rfl
      | abandon => simp at hmem
  | @receive _ _ remote _ received _ middle _ left right _ heffects hadmitted hid hreceive hmoves
      hopen =>
    rw [heffects] at habout
    rcases mem_append.mp habout with hleft | hright
    · rcases send_of_receive hreceive hleft with hlive | ⟨serviceId, token, reason, hrequest, hframe⟩
      · exact .inl hlive
      · refine .inr ⟨⟨m.peerIp, remote, frame.id, serviceId, token⟩, ?_, reason, hframe⟩
        rw [hrequest] at hadmitted
        simp [handledOpens, hadmitted]
    · have hmiddle := send_of_moves hmoves hright
      refine .inl ⟨hmiddle.1, ?_⟩
      rcases hreceive.origin with hdescends | ⟨serviceId, token, service, -, -, hframe, -⟩
      · obtain ⟨stream, hstream⟩ := Option.isSome_iff_exists.mp hmiddle.2
        obtain ⟨origin, horigin, -⟩ := hdescends stream hstream
        simp [horigin]
      · -- nothing is sent after an OPEN was taken
        rw [(hopen (by rw [hframe]; rfl)).1] at hright
        simp at hright

/-- The streams of a run stay with the peer they were created for. -/
structure PeerBound (json : QJsonDocument) (events : List Event) : Prop where
  /-- Every frame about a stream goes to the peer of its birth. What is left are OPEN frames and
  refusals of an OPEN that was just received, which has made no stream. -/
  sent : ∀ before event after, events = before ++ event :: after → ∀ target frame,
    .send target frame ∈ (run json {} before).emitted json event → frame.type ≠ .tunnelOpen →
      ((run json {} before).findStream frame.id).isSome = true ∧
          target = birthPeers json {} (fun _ ↦ "") before frame.id ∨
        ∃ request ∈ (run json {} before).handledOpens json event, ∃ reason,
          frame = .tunnelOpenAck request.id false request.token reason
  /-- A DATA, ACK or CLOSE frame for a live stream that has any effect comes from the peer of its
  birth, or from the address learned for that peer. -/
  honoured : ∀ before mask payload remote writes after frame,
    events = before ++ .onTunnelMessage mask payload remote writes :: after →
    decode json mask payload = some frame →
    frame.type = .tunnelData ∨ frame.type = .tunnelAck ∨ frame.type = .tunnelClose →
    ((run json {} before).findStream frame.id).isSome = true →
    (run json {} before).step json (.onTunnelMessage mask payload remote writes) ≠
      run json {} before →
      remote = birthPeers json {} (fun _ ↦ "") before frame.id ∨
        Learned json before remote ∧
          (run json {} before).peerIp = birthPeers json {} (fun _ ↦ "") before frame.id

theorem peerBound_of_keepsPeer (json : QJsonDocument) (events : List Event)
    (hkeeps : RunKeepsPeer json {} events) : PeerBound json events := by
  have hbound : ∀ before rest, events = before ++ rest →
      BoundTo (birthPeers json {} (fun _ ↦ "") before) (run json {} before) := by
    rintro before rest rfl
    exact BoundTo.run json (by simp [BoundTo, findStream]) (runKeepsPeer_append.mp hkeeps).1
  refine ⟨?_, ?_⟩
  · intro before event after hevents target frame heffect htype
    rcases send_step heffect htype with ⟨htarget, hlive⟩ | hrefusal
    · obtain ⟨stream, hstream⟩ := Option.isSome_iff_exists.mp hlive
      exact .inl ⟨hlive, by rw [hbound before _ hevents frame.id stream hstream, htarget]⟩
    · exact .inr hrefusal
  · intro before mask payload remote writes after frame hevents hdecode htype hlive hchange
    obtain ⟨stream, hstream⟩ := Option.isSome_iff_exists.mp hlive
    have hbirth := hbound before _ hevents frame.id stream hstream
    rw [hbirth]
    cases hadmitted : (run json {} before).admitted json mask payload remote with
    | none => exact absurd (onTunnelMessage_of_admitted_none writes hadmitted) hchange
    | some admitted =>
      have hsame := hdecode.symm.trans (decode_of_admitted hadmitted)
      rw [Option.some.injEq] at hsame
      subst hsame
      have htrusts := trusts_of_admitted hadmitted (by rcases htype with h | h | h <;> simp [h])
      simp only [trusts, peerMatches, Bool.and_eq_true, Bool.or_eq_true, decide_eq_true_eq,
        bne_iff_ne] at htrusts
      rcases htrusts.2 with hpeer | ⟨hlearned, hremote⟩
      · exact .inl hpeer
      · rw [hremote]
        exact .inr ⟨(peerRemote_learned json before).resolve_left hlearned, rfl⟩

/-! ## The callers -/

/-- `NetworkUtil::setTunnelPeer`. -/
def setTunnelPeer (ip : QString) : List Event := [.setPeer ip]

/-- `NetworkUtil::stopTunnels`. -/
def stopTunnels : List Event := [.stopAll]

/-- `NetworkUtilPrivate::ensureTunnelPeer`: a peer is selected, never replaced. -/
def ensureTunnelPeer (ip : QString) (m : TunnelManager) : List Event :=
  if ip = "" then [] else if m.peerIp = "" then setTunnelPeer ip else []

/-- `ShareHelper::connectToDevice`. `connected` says that the target device of the helper is
connected; file transfers use the tunnel without one. -/
def connectToDevice (connected : Bool) (ip : QString) : List Event :=
  if connected then [] else setTunnelPeer ip

/-- `ShareHelper::disconnectToDevice`. The ends of a session in `cancelShareApply`,
`stopCooperation` and `notifyConnectRequest` make the same two calls. -/
def disconnectToDevice : List Event := stopTunnels ++ setTunnelPeer ""

/-- Ending a session stops the streams before the peer is cleared. -/
theorem runKeepsPeer_disconnectToDevice : RunKeepsPeer json m disconnectToDevice := by
  refine ⟨trivial, .inr ?_, trivial⟩
  simp [step, stopAll]

/-- Without a peer no stream is made. -/
theorem findStream_step_of_no_peer (hpeer : m.peerIp = "") (hnone : m.findStream id = none) :
    (m.step json event).findStream id = none := by
  cases hlast : (m.step json event).findStream id with
  | none => rfl
  | some stream =>
    rcases origin_step hlast with ⟨origin, horigin, -⟩ | ⟨honline, -⟩
    · simp [hnone] at horigin
    · exact absurd hpeer honline

/-- Without a peer there are no streams. -/
theorem findStream_of_no_peer
    (hkeeps : RunKeepsPeer json {} events) (hpeer : (run json {} events).peerIp = "")
    (id : UInt32) : (run json {} events).findStream id = none := by
  induction events using reverseRecOn generalizing id with
  | nil => simp [run, findStream]
  | append_singleton events event ih =>
    obtain ⟨hbefore, hevent, -⟩ := runKeepsPeer_append.mp hkeeps
    rw [run_concat] at hpeer ⊢
    rcases peerIp_step hevent with hsame | hidle
    · rw [hsame] at hpeer
      exact findStream_step_of_no_peer hpeer (ih hbefore hpeer id)
    · exact hidle id

/-- Selecting a peer where there is none replaces nobody. -/
theorem runKeepsPeer_ensureTunnelPeer (hkeeps : RunKeepsPeer json {} events) (ip : QString) :
    RunKeepsPeer json {} (events ++ ensureTunnelPeer ip (run json {} events)) := by
  refine runKeepsPeer_append.mpr ⟨hkeeps, ?_⟩
  unfold ensureTunnelPeer
  split
  · trivial
  · split
    · next hpeer =>
      refine ⟨.inr (eq_nil_iff_forall_not_mem.mpr fun id hid ↦ ?_), trivial⟩
      have hfind := findStream_of_no_peer hkeeps hpeer id
      exact absurd (AList.mem_keys.mpr hid) (AList.lookup_eq_none.mp hfind)
    · trivial

/-- What the callers do, apart from selecting the device of a share. -/
inductive Call where
  | ensureTunnelPeer (ip : QString)
  | disconnectToDevice
  | handle (event : Event) (h : ∀ ip, event ≠ .setPeer ip)

/-- The events of a sequence of calls. -/
def called (json : QJsonDocument) (calls : List Call) : List Event :=
  calls.foldl (fun events call ↦ events ++ match call with
    | .ensureTunnelPeer ip => ensureTunnelPeer ip (run json {} events)
    | .disconnectToDevice => disconnectToDevice
    | .handle event _ => [event]) []

/-- Whatever the others do, all live streams were created for the current peer. -/
theorem boundTo_called (json : QJsonDocument) (calls : List Call) :
    BoundTo (birthPeers json {} (fun _ ↦ "") (called json calls))
      (run json {} (called json calls)) := by
  apply BoundTo.run json (by simp [BoundTo, findStream])
  refine foldlRecOn (motive := RunKeepsPeer json {}) _ _ trivial fun events hkeeps call _ ↦ ?_
  cases call with
  | ensureTunnelPeer ip => exact runKeepsPeer_ensureTunnelPeer hkeeps ip
  | disconnectToDevice => exact runKeepsPeer_append.mpr ⟨hkeeps, runKeepsPeer_disconnectToDevice⟩
  | handle event h =>
    refine runKeepsPeer_append.mpr ⟨hkeeps, ?_, trivial⟩
    cases event with
    | setPeer ip => exact absurd rfl (h ip)
    | _ => trivial

/-- A transfer tunnel to one device is in use when the user connects to another device. -/
def secondDevice (connected : Bool) : List Event :=
  [.setSendHandler true] ++ ensureTunnelPeer "192.168.0.2" {} ++
    [.startLocalForward "transfer" (.ok 40000), .newConnection "transfer" [⟨[5], "a1"⟩],
      .onTunnelMessage TunnelMessageType.tunnelOpenAck.mask
        ((Frame.tunnelOpenAck 5 true "a1" "").payload textJson) "192.168.0.2" []] ++
    connectToDevice connected "192.168.0.3"

/-- After that the local application writes two more bytes. -/
def secondDeviceRun (connected : Bool) : List Event :=
  secondDevice connected ++ [.readyRead 5 [104, 105]]

theorem peerBound_secondDeviceRun_connected :
    RunKeepsPeer textJson {} (secondDeviceRun true) ∧
      PeerBound textJson (secondDeviceRun true) := by
  have hkeeps : RunKeepsPeer textJson {} (secondDeviceRun true) := by decide +kernel
  exact ⟨hkeeps, peerBound_of_keepsPeer textJson (secondDeviceRun true) hkeeps⟩

/-- The bytes for the first device are sent to the second one. -/
theorem not_peerBound_secondDeviceRun : ¬ PeerBound textJson (secondDeviceRun false) := by
  intro h
  have hsent : .send "192.168.0.3" (.tunnelData 5 [104, 105]) ∈
      (run textJson {} (secondDevice false)).emitted textJson
        (.readyRead 5 [104, 105]) := by decide +kernel
  have hbirth : birthPeers textJson {} (fun _ ↦ "") (secondDevice false) 5 =
      "192.168.0.2" := by decide +kernel
  rcases h.sent _ _ [] rfl _ _ hsent (by decide) with ⟨-, htarget⟩ | ⟨request, -, reason, hframe⟩
  · rw [Frame.id, hbirth] at htarget
    exact absurd htarget (by decide)
  · simp at hframe

end TunnelManager

end DdeCooperation.Tunnel
