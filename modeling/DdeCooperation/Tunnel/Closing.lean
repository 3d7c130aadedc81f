import DdeCooperation.Tunnel.FlowControl

/-!
# What a close delivers

When a local application closes its socket the stream is removed at once and a
CLOSE is sent; when the CLOSE arrives the other stream is removed at once. Nothing
is drained on either side, so a close can lose bytes. This module says which ones:
at the moment the CLOSE arrives, whatever the application wrote has left the write
buffer of the other socket, except for what the closing socket had not been read
for, what is pending and what waits in the write buffer.
-/

namespace DdeCooperation.Tunnel

open Qt Foundations List TunnelManager

namespace Link

variable {silent : Prop} {id : UInt32} {l l' : Link} {sent : QByteArray} {earlier : List Frame}

/-- The left side has sent a CLOSE after the frames `earlier`. As long as it has not arrived, what
the closed stream had sent is covered by the frames before it. -/
def Closing (id : UInt32) (sent : QByteArray) (earlier : List Frame) (l : Link) : Prop :=
  ∃ later, frames l.leftLog = earlier ++ .tunnelClose id :: later ∧
    (l.fly.length ≤ later.length ∨ ∃ before, l.fly = before ++ .tunnelClose id :: later ∧
      Backed sent 0 before l.back l.right)

theorem Closing.leftStep (h : l.Closing id sent earlier) (hstep : LeftStep silent id l l') :
    l'.Closing id sent earlier := by
  obtain ⟨later, hlog, hfly⟩ := h
  have hacts : ∀ {back : List Frame} {effects : List Effect} {last : Option Stream},
      (∀ before, Backed sent 0 before l.back l.right → Backed sent 0 before back l.right) →
      ({ l with back := back }.acts effects last).Closing id sent earlier := by
    intro back effects last hback
    refine ⟨later ++ frames effects, by simp [acts, hlog], ?_⟩
    rcases hfly with harrived | ⟨before, hfly, hbacked⟩
    · exact .inl (by simpa [acts] using harrived)
    · exact .inr ⟨before, by simp [acts, hfly], hback before hbacked⟩
  cases hstep with
  | timer => exact ⟨later, hlog, hfly⟩
  | move | create => exact hacts fun _ hbacked ↦ hbacked
  | receive _ hback =>
    refine hacts fun before hbacked ↦ ?_
    rw [hback] at hbacked
    exact hbacked.credit (le_max_right _ _)

theorem Closing.rightStep (h : l.swap.Closing id sent earlier) (hsound : l.Sound)
    (hstep : LeftStep silent id l l') : l'.swap.Closing id sent earlier := by
  obtain ⟨later, hlog, hfly⟩ := h
  refine ⟨later, ?_, ?_⟩
  · cases hstep <;> exact hlog
  · cases hstep with
    | timer => exact hfly
    | move honline hmove =>
      rcases hfly with harrived | ⟨before, hfly, hbacked⟩
      · exact .inl harrived
      · exact .inr ⟨before, hfly, hbacked.move honline hsound.1 hmove⟩
    | create honline hcreate =>
      rcases hfly with harrived | ⟨before, hfly, hbacked⟩
      · exact .inl harrived
      · exact .inr ⟨before, hfly, hbacked.create hcreate⟩
    | receive honline hback hreceive =>
      simp only [Link.swap, hback] at hfly
      rcases hfly with harrived | ⟨before, hfly, hbacked⟩
      · exact .inl (Nat.le_of_succ_le harrived)
      · cases before with
        | nil =>
          obtain ⟨-, rfl⟩ := cons.inj hfly
          exact .inl (le_refl _)
        | cons first before =>
          obtain ⟨rfl, hrest⟩ := cons.inj hfly
          exact .inr ⟨before, hrest, hbacked.receive honline hreceive⟩

end Link

namespace Pair

/-- The application on one side has closed the socket of a ready stream, and the resulting CLOSE is
the next frame to arrive at the other side, which still has the stream. -/
structure CloseArrives (json : QJsonDocument) (peerIp : Side → QString) (before after : List Action)
    (side : Side) (id : UInt32) (closing remaining : Stream) : Prop where
  steady : ∀ action ∈ before ++ after, action.steady peerIp = true
  found : (((start peerIp).run json before).manager side).findStream id = some closing
  ready : closing.ready = true
  arrives : ((start peerIp).run json (before ++ .handle side (.disconnected id) ::
    after)).delivered side.other =
      (frames (((start peerIp).run json before).manager side).log).length
  remains : (((start peerIp).run json (before ++ .handle side (.disconnected id) ::
    after)).manager side.other).findStream id = some remaining
  /-- The remaining stream does not wait for the answer to an OPEN of its own. -/
  partner : remaining.ready = true ∨ remaining.dialer = true

/-- Logs only grow. -/
theorem log_prefix_run (json : QJsonDocument) (p : Pair) (actions : List Action) (side : Side) :
    (p.manager side).log <+: ((p.run json actions).manager side).log := by
  refine foldlRecOn actions (act json)
    (motive := fun q ↦ (p.manager side).log <+: (q.manager side).log) (prefix_refl _) ?_
  intro q hq action _
  refine hq.trans ?_
  have hupdate : ∀ acting event, (q.manager side).log <+: (Function.update q.manager acting
      ((q.manager acting).step json event) side).log := by
    intro acting event
    by_cases hside : side = acting
    · subst hside
      rw [Function.update_self, log_step]
      exact prefix_append _ _
    · rw [Function.update_of_ne hside]
  cases action with
  | handle acting event => exact hupdate acting event
  | deliver acting writes =>
    unfold act
    dsimp only
    split
    · exact prefix_refl _
    · exact hupdate acting _

section

variable {json : QJsonDocument} {peerIp : Side → QString} {before after : List Action} {side : Side}
  {id : UInt32} {closing remaining : Stream}

variable (json) in
/-- A ready stream whose socket is closed sends a CLOSE and is gone. -/
theorem link_disconnected {p : Pair} (h : p.Session peerIp) (hpeer : ∀ side, peerIp side ≠ "")
    (hfind : (p.manager side).findStream id = some closing) (hready : closing.ready = true) :
    ((p.manager side).step json (.disconnected id)).log = (p.manager side).log ++
        [.send (peerIp side) (.tunnelClose id), .streamClosed id "socket closed"] ∧
      (p.act json (.handle side (.disconnected id))).link side id =
        (p.link side id).acts [.send (peerIp side) (.tunnelClose id),
          .streamClosed id "socket closed"] none := by
  have hstate := (((h.sound side id).1 closing hfind).established hready).2
  have honline : (p.manager side).context.sends (.tunnelClose id) =
      [.send (peerIp side) (.tunnelClose id)] := by
    rw [Context.sends_eq]
    · simp [context, (h.online side).peer]
    · simp [context, (h.online side).send, (h.online side).peer, hpeer side]
  have hstep : (p.manager side).step json (.disconnected id) = ((p.manager side).dropStream id).emit
        [.send (peerIp side) (.tunnelClose id), .streamClosed id "socket closed"] := by
    simp only [step, disconnected, hfind, hstate, destroyStream_some hfind, honline]
    rfl
  have hlog : ((p.manager side).step json (.disconnected id)).log = (p.manager side).log ++
      [.send (peerIp side) (.tunnelClose id), .streamClosed id "socket closed"] := by
    rw [hstep]
    rfl
  refine ⟨hlog, ?_⟩
  rw [act, link_update id hlog (by simpa using h.delivered_le side.other) rfl, ← back_link, hstep]
  have habout : about id [.send (peerIp side) (.tunnelClose id), .streamClosed id "socket closed"] =
      [.send (peerIp side) (.tunnelClose id), .streamClosed id "socket closed"] :=
    about_eq_self (by simp [Effect.stream, Frame.id])
  rw [habout, findStream_emit, findStream_dropStream]
  rfl

/-- A CLOSE that arrives removes the stream. -/
theorem findStream_deliver_close (hjson : json.Lawful) {p : Pair} (h : p.Session peerIp)
    (hpeer : ∀ side, peerIp side ≠ "") {rest : List Frame}
    (htravelling : p.travelling side = .tunnelClose id :: rest) (writes : List WriteResult) :
    ((p.act json (.deliver side.other writes)).manager side.other).findStream id = none := by
  have hdata : (Frame.tunnelClose id).data.length ≤ kChunkSize := Nat.zero_le _
  have hreceives := receives_payload hjson
    ((h.online side.other).peer ▸ hpeer side.other) hdata writes
  obtain ⟨left, middle, right, -, hreceive, hmoves, -⟩ := hreceives.receive
  have hmiddle : middle = none := by
    generalize (p.manager side.other).findStream _ = first at hreceive
    cases hreceive <;> rfl
  rw [hmiddle] at hmoves
  unfold act
  simp only [Side.other_other, htravelling, Function.update_self]
  refine Option.eq_none_iff_forall_ne_some.mpr fun stream hstream ↦ ?_
  obtain ⟨_, ⟨⟩, -⟩ := hmoves.descends stream hstream

/-- After the close, the link remembers what the closed stream had sent. -/
theorem closing_run (hjson : json.Lawful) (hpeer : ∀ side, peerIp side ≠ "")
    (h : CloseArrives json peerIp before after side id closing remaining) :
    (((start peerIp).run json (before ++ .handle side (.disconnected id) :: after)).link side
      id).Closing id closing.sock.taken
        (frames (((start peerIp).run json before).link side id).leftLog) := by
  have hbefore : ∀ action ∈ before, action.steady peerIp = true :=
    fun action haction ↦ h.steady action (mem_append_left _ haction)
  have hafter : ∀ action ∈ after, action.steady peerIp = true :=
    fun action haction ↦ h.steady action (mem_append_right _ haction)
  have hsession : ((start peerIp).run json before).Session peerIp :=
    (session_start peerIp).run hbefore
  have hbacked := backlogged_run hjson hpeer hbefore side id closing h.found
  have hnonneg := ((hsession.sound side id).1 closing h.found).unacked_nonneg
  obtain ⟨-, hlink⟩ := link_disconnected json hsession hpeer h.found h.ready
  rw [run_append]
  refine link_run_induction hjson (hsession.act rfl) hpeer hafter
    (fun l l' _ hstep hclosing ↦ hclosing.leftStep hstep)
    (fun l l' hsound hstep hclosing ↦ hclosing.rightStep hsound hstep) ?_
  rw [hlink]
  exact ⟨[], by simp [Link.acts, frames], .inr ⟨_, rfl, hbacked.mono hnonneg⟩⟩

/-- The frames of the closing side, split at the CLOSE. -/
theorem frames_closeArrives (hpeer : ∀ side, peerIp side ≠ "")
    (h : CloseArrives json peerIp before after side id closing remaining) :
    ∃ later, frames (((start peerIp).run json (before ++ .handle side (.disconnected id) ::
      after)).manager side).log = frames (((start peerIp).run json before).manager side).log ++
        .tunnelClose id :: later := by
  have hsession : ((start peerIp).run json before).Session peerIp :=
    (session_start peerIp).run fun action haction ↦ h.steady action (mem_append_left _ haction)
  obtain ⟨hlog, -⟩ := link_disconnected json hsession hpeer h.found h.ready
  obtain ⟨rest, hrest⟩ := log_prefix_run json
    (((start peerIp).run json before).act json (.handle side (.disconnected id))) after side
  refine ⟨frames rest, ?_⟩
  rw [run_append]
  change frames (((((start peerIp).run json before).act json
    (.handle side (.disconnected id))).run json after).manager side).log = _
  rw [← hrest, act]
  dsimp only
  rw [Function.update_self, hlog, frames_append, frames_append, append_assoc]
  rfl

/-- When the CLOSE arrives the other stream is removed, and what the application had written is
there, in its write buffer, pending, or still unread in the socket that was closed. -/
theorem received_suffix_of_closeArrives (hjson : json.Lawful) (hpeer : ∀ side, peerIp side ≠ "")
    (h : CloseArrives json peerIp before after side id closing remaining)
    (writes : List WriteResult) :
    ((((start peerIp).run json (before ++ .handle side (.disconnected id) :: after)).act json
        (.deliver side.other writes)).manager side.other).findStream id = none ∧
      closing.sock.received <:+ remaining.sock.drained ++ remaining.sock.writeBuffer ++
        remaining.pending ++ closing.sock.readBuffer := by
  obtain ⟨later, hframes⟩ := frames_closeArrives hpeer h
  obtain ⟨rest, hlog, hfly⟩ := closing_run hjson hpeer h
  have harrives := h.arrives
  have hremains := h.remains
  have hsession : ((start peerIp).run json (before ++ .handle side (.disconnected id) ::
      after)).Session peerIp := by
    refine (session_start peerIp).run fun action haction ↦ ?_
    rcases mem_append.mp haction with hbefore | hrest
    · exact h.steady action (mem_append_left _ hbefore)
    · rcases mem_cons.mp hrest with rfl | hafter
      · rfl
      · exact h.steady action (mem_append_right _ hafter)
  generalize (start peerIp).run json (before ++ .handle side (.disconnected id) :: after) = q at *
  have htravelling : q.travelling side = .tunnelClose id :: later := by
    rw [travelling, harrives, hframes, drop_left]
  constructor
  · exact findStream_deliver_close hjson hsession hpeer htravelling writes
  · have hrest : rest = later.filter fun frame ↦ frame.id = id := by
      have hsplit : frames (q.link side id).leftLog =
          frames (((start peerIp).run json before).link side id).leftLog ++
            .tunnelClose id :: later.filter fun frame ↦ frame.id = id := by
        simp [link, frames_about, hframes, Frame.id]
      rw [hsplit] at hlog
      exact (cons.inj (append_cancel_left hlog)).2.symm
    have hchannel : (q.link side id).fly = .tunnelClose id :: rest := by
      simp [link, inFlight, htravelling, hrest, Frame.id]
    rcases hfly with harrived | ⟨segment, hsegment, hbacked⟩
    · rw [hchannel, length_cons] at harrived
      omega
    · have hempty : segment = [] := by
        have hlength := congrArg length (hchannel.symm.trans hsegment)
        simp only [length_append, length_cons] at hlength
        exact length_eq_zero_iff.mp (by omega)
      have hright : (q.link side id).right = some remaining := hremains
      rw [hempty, hright] at hbacked
      cases hbacked with
      | coming _ _ _ hnone => simp at hnone
      | gone _ hgone => simp at hgone
      | unanswered _ stream hstream hready hdialer =>
        cases hstream
        simpa [hready, hdialer] using h.partner
      | kept _ stream hstream hsent =>
        cases hstream
        obtain ⟨missing, hmissing⟩ := hsent
        refine ⟨missing, ?_⟩
        rw [QTcpSocket.received, ← append_assoc, hmissing, bytes_nil, append_nil]
        rfl

end

/-- The near stream of `partialRun`, whose socket is closed next. -/
def closingStream : Stream :=
  ((partialPair.manager .near).findStream 5).getD
    (createStream "" "" false .unconnected)

/-- The far stream when the CLOSE arrives. -/
def remainingStream : Stream :=
  ((((start twoHosts).run textJson (partialRun ++ [.handle .near (.disconnected 5),
    .deliver .far []])).manager .far).findStream 5).getD
      (createStream "" "" false .unconnected)

theorem closeArrives_partialRun : CloseArrives textJson twoHosts partialRun [.deliver .far []] .near
    5 closingStream remainingStream where
  steady := by decide
  found := by decide +kernel
  ready := by decide +kernel
  arrives := by decide +kernel
  remains := by decide +kernel
  partner := by decide +kernel

theorem received_suffix_partialRun :
    remainingStream.sock.drained = [104] ∧ remainingStream.sock.writeBuffer = [101] ∧
      remainingStream.pending = [108, 108, 111] ∧
      closingStream.sock.received <:+ remainingStream.sock.drained ++
        remainingStream.sock.writeBuffer ++ remainingStream.pending ++
        closingStream.sock.readBuffer :=
  ⟨by decide +kernel, by decide +kernel, by decide +kernel,
    (received_suffix_of_closeArrives textJson_lawful twoHosts_ne_empty closeArrives_partialRun
      []).2⟩

/-- Of five bytes that were written before the close, only one has left the write buffer when the
CLOSE arrives and removes the stream. -/
theorem not_received_suffix_drained :
    CloseArrives textJson twoHosts partialRun [.deliver .far []] .near 5 closingStream
        remainingStream ∧
      ((((start twoHosts).run textJson (partialRun ++ [.handle .near (.disconnected 5),
        .deliver .far []])).act textJson (.deliver .far [])).manager .far).findStream 5 = none ∧
      ¬ closingStream.sock.received <:+ remainingStream.sock.drained :=
  ⟨closeArrives_partialRun, by decide +kernel, by decide +kernel⟩

end Pair

end DdeCooperation.Tunnel
