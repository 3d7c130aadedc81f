import DdeCooperation.Qt.JsonText
import DdeCooperation.Tunnel.Handlers

/-!
# What the handlers read

A handler reads back every field of a frame that a manager has built. What it cannot read
it drops: the manager, and with it the log of what was sent, stays as it was.
-/

namespace DdeCooperation.Tunnel

open Qt QJsonValue

variable {json : QJsonDocument} {object : QJsonObject} {id : UInt32}

/-- An object that names a stream: an integer from 1 to 2 ^ 32 - 1. -/
def HasStreamId (object : QJsonObject) : Prop :=
  ∃ id : ℤ, 1 ≤ id ∧ id < 2 ^ 32 ∧ object.lookup "stream" = some (.double (some (id : ℚ)))

/-- The zero that stands for a missing field is refused. -/
theorem hasStreamId_of_parseStreamId (h : parseStreamId object = some id) : HasStreamId object := by
  unfold parseStreamId at h
  split at h
  · simp at h
  · next value hvalue =>
    split at h
    · simp at h
    · next hrange =>
      simp only [gt_iff_lt, not_or, not_lt, ne_eq, not_not] at hrange
      obtain ⟨hlow, hhigh, hfloor⟩ := hrange
      generalize ⌊value⌋ = whole at hfloor
      subst hfloor
      have hle : whole ≤ 4294967295 := by exact_mod_cast hhigh
      refine ⟨whole, by exact_mod_cast hlow, by omega, ?_⟩
      unfold toDouble at hvalue
      split at hvalue
      · next hlookup => rw [hlookup, hvalue]
      · rw [← Option.some.inj hvalue] at hlow
        exact absurd hlow (by norm_num)

namespace TunnelManager

/-- What a manager does with the fields of a frame. -/
def handle (remote : QString) (writes : List WriteResult) (m : TunnelManager) : Frame → TunnelManager
  | .tunnelOpen id serviceId token =>
    if !m.send then m
    else if m.peerIp ≠ "" ∧ remote = m.peerIp then
      match m.services.lookup serviceId with
      | none => m.emit [.send remote (.tunnelOpenAck id false token "unknown service")]
      | some service =>
        if (m.findStream id).isSome then
          m.emit [.send remote (.tunnelOpenAck id false token "duplicate stream")]
        else
          (m.setStream id (createStream serviceId token true .connecting)).emit
            [.connectToHost id service.host service.port]
    else if remote = "" then m
    else m.emit [.send remote (.tunnelOpenAck id false token "unexpected peer")]
  | .tunnelOpenAck id ok token reason =>
    (m.findStream id).elim m fun stream ↦
      if stream.dialer ∨ token ≠ stream.token then m
      else if ok then
        ((({ m with peerRemote := remote }.setStream id
          { stream with ready := true, timeout := false }).emit
            [.streamOpened id stream.serviceId]).flushPending id writes).pump id
      else m.destroyStream id (if reason = "" then "rejected" else reason) false
  | .tunnelData id data =>
    (m.findStream id).elim m fun stream ↦
      if data = [] then m
      else if kMaxPending < stream.pending.length + data.length then
        m.destroyStream id "pending overflow" true
      else (m.setStream id { stream with pending := stream.pending ++ data }).flushPending id writes
  | .tunnelAck id consumed =>
    (m.findStream id).elim m fun stream ↦
      let unacked := max (stream.unacked - consumed.toNat) 0
      let m := m.setStream id { stream with unacked }
      if unacked < kWindowLowWater then m.pump id else m
  | .tunnelClose id => m.destroyStream id "peer closed" false

variable {remote : QString} {writes : List WriteResult} {m : TunnelManager}

theorem handleOpen_payload (hjson : json.Lawful) (hid : id ≠ 0) {service token : QString}
    (hservice : service ≠ "") (htoken : token ≠ "") :
    handleOpen json remote ((Frame.tunnelOpen id service token).payload json) m =
      m.handle remote writes (.tunnelOpen id service token) := by
  rw [handleOpen, parseOpen_payload hjson, if_pos ⟨hid, hservice, htoken⟩]
  simp only [handle]
  split_ifs <;> grind

theorem handleOpenAck_payload (hjson : json.Lawful) (hid : id ≠ 0) (ok : Bool)
    (token reason : QString) :
    handleOpenAck json remote ((Frame.tunnelOpenAck id ok token reason).payload json) writes m =
      m.handle remote writes (.tunnelOpenAck id ok token reason) := by
  rw [handleOpenAck, parseOpenAck_payload hjson, if_pos hid]
  simp only [handle]
  cases m.findStream id with
  | none => rfl
  | some stream => cases ok <;> grind

theorem handleData_payload (data : QByteArray) :
    handleData ((Frame.tunnelData id data).payload json) writes m =
      m.handle remote writes (.tunnelData id data) := by
  rw [handleData, Frame.payload, readU32_zero_appendU32, drop_appendU32, handle]
  dsimp only
  cases m.findStream id <;> rfl

theorem handleAck_payload (consumed : UInt32) :
    handleAck ((Frame.tunnelAck id consumed).payload json) m =
      m.handle remote writes (.tunnelAck id consumed) := by
  obtain ⟨hid, hconsumed⟩ := readU32_appendU32_appendU32 id consumed
  rw [handleAck, Frame.payload, hid, hconsumed, handle]
  dsimp only
  cases m.findStream id <;> rfl

/-- The handlers recover the fields of a frame, and drop what is too short or names no stream. -/
theorem handle_payload (hjson : json.Lawful) (m : TunnelManager) (remote : QString)
    (writes : List WriteResult) :
    (∀ id : UInt32, id ≠ 0 →
      (∀ service token, service ≠ "" → token ≠ "" →
        handleOpen json remote ((Frame.tunnelOpen id service token).payload json) m =
          m.handle remote writes (.tunnelOpen id service token)) ∧
      (∀ ok token reason,
        handleOpenAck json remote ((Frame.tunnelOpenAck id ok token reason).payload json) writes m =
          m.handle remote writes (.tunnelOpenAck id ok token reason)) ∧
      (∀ data, handleData ((Frame.tunnelData id data).payload json) writes m =
        m.handle remote writes (.tunnelData id data)) ∧
      (∀ consumed, handleAck ((Frame.tunnelAck id consumed).payload json) m =
        m.handle remote writes (.tunnelAck id consumed)) ∧
      handleClose ((Frame.tunnelClose id).payload json) m =
        m.handle remote writes (.tunnelClose id)) ∧
    ∀ payload,
      ((∀ object, json.fromJson payload = some object → ¬ HasStreamId object) →
        handleOpen json remote payload m = m ∧
          handleOpenAck json remote payload writes m = m) ∧
      (payload.length < 4 → handleData payload writes m = m ∧ handleClose payload m = m) ∧
      (payload.length < 8 → handleAck payload m = m) := by
  refine ⟨fun id hid ↦ ⟨fun service token ↦ handleOpen_payload hjson hid,
    handleOpenAck_payload hjson hid, handleData_payload, handleAck_payload, ?_⟩,
    fun payload ↦ ⟨fun h ↦ ?_, fun h ↦ ?_, fun h ↦ ?_⟩⟩
  · have hread : readU32 (appendU32 [] id) 0 = some id := readU32_zero_appendU32 [] id
    rw [handleClose, Frame.payload, hread, handle]
  · unfold handleOpen handleOpenAck parseOpen parseOpenAck
    cases hobject : json.fromJson payload with
    | none => exact ⟨rfl, rfl⟩
    | some object =>
      cases hid : parseStreamId object with
      | none => simp [hid]
      | some id => exact absurd (hasStreamId_of_parseStreamId hid) (h object hobject)
  · rw [handleData, handleClose, readU32_of_short 0 h]
    exact ⟨rfl, rfl⟩
  · rw [handleAck, readU32_of_short 4 h]
    cases readU32 payload 0 <;> rfl

/-- A text that ends after its first brace is no JSON. -/
theorem handle_payload_text :
    (handleOpen textJson "10.0.0.2" ((Frame.tunnelOpen 7 "web" "t").payload textJson) {} =
        handle "10.0.0.2" [] {} (.tunnelOpen 7 "web" "t")) ∧
      handleOpen textJson "10.0.0.2" [123] {} = {} := by
  have h := handle_payload textJson_lawful {} "10.0.0.2" []
  exact ⟨(h.1 7 (by decide)).1 _ _ (by decide) (by decide),
    ((h.2 [123]).1 (fun object hobject ↦ by cases hobject)).1⟩

end TunnelManager

end DdeCooperation.Tunnel
