import DdeCooperation.Qt.Values

/-!
# Tunnel frames and their wire format

Five kinds of frames share one session. OPEN and OPEN_ACK carry a JSON object,
DATA, ACK and CLOSE start with a big-endian stream id. `Frame` is what a sender
means, `Frame.payload` the bytes it sends, and the parsers are those of the
receiving handlers. The round-trip results say what an honest receiver makes of
an honest frame; the parsers themselves accept arbitrary bytes.
-/

namespace DdeCooperation.Tunnel

open Qt AList QJsonValue

inductive TunnelMessageType where
  | tunnelOpen
  | tunnelOpenAck
  | tunnelData
  | tunnelAck
  | tunnelClose
  deriving DecidableEq

namespace TunnelMessageType

def mask : TunnelMessageType → ℤ
  | tunnelOpen => 1100
  | tunnelOpenAck => 1101
  | tunnelData => 1102
  | tunnelAck => 1103
  | tunnelClose => 1104

/-- The `switch` over an arbitrary message number. -/
def ofMask (mask : ℤ) : Option TunnelMessageType :=
  if mask = 1100 then some tunnelOpen
  else if mask = 1101 then some tunnelOpenAck
  else if mask = 1102 then some tunnelData
  else if mask = 1103 then some tunnelAck
  else if mask = 1104 then some tunnelClose
  else none

@[simp] theorem ofMask_mask (type : TunnelMessageType) : ofMask type.mask = some type := by
  cases type <;> rfl

end TunnelMessageType

/-- Larger frames are dropped before they are looked at. -/
def TUNNEL_MAX_FRAME_SIZE : ℕ := 64 * 1024

inductive Frame where
  | tunnelOpen (id : UInt32) (service token : QString)
  | tunnelOpenAck (id : UInt32) (ok : Bool) (token reason : QString)
  | tunnelData (id : UInt32) (data : QByteArray)
  | tunnelAck (id consumed : UInt32)
  | tunnelClose (id : UInt32)
  deriving DecidableEq

namespace Frame

/-- The stream a frame is about. -/
def id : Frame → UInt32
  | tunnelOpen id _ _ => id
  | tunnelOpenAck id _ _ _ => id
  | tunnelData id _ => id
  | tunnelAck id _ => id
  | tunnelClose id => id

def type : Frame → TunnelMessageType
  | tunnelOpen _ _ _ => .tunnelOpen
  | tunnelOpenAck _ _ _ _ => .tunnelOpenAck
  | tunnelData _ _ => .tunnelData
  | tunnelAck _ _ => .tunnelAck
  | tunnelClose _ => .tunnelClose

end Frame

/-! ## Binary fields -/

/-- Four bytes, most significant first. -/
def appendU32 (out : QByteArray) (value : UInt32) : QByteArray :=
  out ++ [UInt8.ofNat (value.toNat / 2 ^ 24), UInt8.ofNat (value.toNat / 2 ^ 16),
    UInt8.ofNat (value.toNat / 2 ^ 8), UInt8.ofNat value.toNat]

def readU32 (data : QByteArray) (offset : ℕ) : Option UInt32 :=
  match data.drop offset with
  | b₃ :: b₂ :: b₁ :: b₀ :: _ =>
    some (UInt32.ofNat (b₃.toNat * 2 ^ 24 + b₂.toNat * 2 ^ 16 + b₁.toNat * 2 ^ 8 + b₀.toNat))
  | _ => none

theorem length_appendU32 (out : QByteArray) (value : UInt32) :
    (appendU32 out value).length = out.length + 4 := by
  simp [appendU32]

/-- A written field is read back at the place where it was appended. -/
theorem readU32_appendU32 (out rest : QByteArray) (value : UInt32) :
    readU32 (appendU32 out value ++ rest) out.length = some value := by
  have hdrop : (appendU32 out value ++ rest).drop out.length =
      [UInt8.ofNat (value.toNat / 2 ^ 24), UInt8.ofNat (value.toNat / 2 ^ 16),
        UInt8.ofNat (value.toNat / 2 ^ 8), UInt8.ofNat value.toNat] ++ rest := by
    rw [appendU32, List.append_assoc, List.drop_left]
  have hlt : value.toNat < 2 ^ 32 := value.toNat_lt
  simp only [readU32, hdrop, List.cons_append, UInt8.toNat_ofNat', Option.some.injEq]
  apply UInt32.toNat_inj.mp
  rw [UInt32.toNat_ofNat']
  omega

theorem readU32_zero_appendU32 (rest : QByteArray) (value : UInt32) :
    readU32 (appendU32 [] value ++ rest) 0 = some value :=
  readU32_appendU32 [] rest value

theorem drop_appendU32 (id : UInt32) (data : QByteArray) :
    (appendU32 [] id ++ data).drop 4 = data := by
  simp [appendU32]

theorem readU32_appendU32_appendU32 (id consumed : UInt32) :
    readU32 (appendU32 (appendU32 [] id) consumed) 0 = some id ∧
      readU32 (appendU32 (appendU32 [] id) consumed) 4 = some consumed := by
  refine ⟨readU32_zero_appendU32 _ id, ?_⟩
  simpa [length_appendU32] using readU32_appendU32 (appendU32 [] id) [] consumed

theorem readU32_of_short {data : QByteArray} (offset : ℕ) (h : data.length < offset + 4) :
    readU32 data offset = none := by
  unfold readU32
  split
  · next hdrop =>
    have hlength := congrArg List.length hdrop
    simp only [List.length_drop, List.length_cons] at hlength
    omega
  · rfl

/-! ## JSON fields -/

def makeOpen (id : UInt32) (service token : QString) : QJsonObject :=
  (((∅ : QJsonObject).insert "stream" (.double (some (id.toNat : ℚ)))).insert
    "service" (.string service)).insert "token" (.string token)

/-- An empty reason is not written. -/
def makeOpenAck (id : UInt32) (ok : Bool) (token reason : QString) : QJsonObject :=
  let object := (((∅ : QJsonObject).insert "stream" (.double (some (id.toNat : ℚ)))).insert
    "ok" (.bool ok)).insert "token" (.string token)
  if reason = "" then object else object.insert "reason" (.string reason)

/-- Zero, fractions and values out of range are rejected before the cast. -/
def parseStreamId (object : QJsonObject) : Option UInt32 :=
  match toDouble (object.lookup "stream") with
  | none => none
  | some value =>
    if value < 1 ∨ value > 4294967295 ∨ value ≠ ⌊value⌋ then none
    else some (UInt32.ofNat ⌊value⌋.toNat)

def parseOpen (json : QJsonDocument) (payload : QByteArray) : Option (UInt32 × QString × QString) :=
  match json.fromJson payload with
  | none => none
  | some object =>
    match parseStreamId object with
    | none => none
    | some id =>
      let service := asString (object.lookup "service")
      let token := asString (object.lookup "token")
      if service ≠ "" ∧ token ≠ "" then some (id, service, token) else none

def parseOpenAck (json : QJsonDocument) (payload : QByteArray) :
    Option (UInt32 × Bool × QString × QString) :=
  match json.fromJson payload with
  | none => none
  | some object =>
    match parseStreamId object with
    | none => none
    | some id =>
      some (id, QJsonValue.toBool (object.lookup "ok"), QJsonValue.asString (object.lookup "token"),
        asString (object.lookup "reason"))

/-- The bytes handed to the session for a frame. -/
def Frame.payload (json : QJsonDocument) : Frame → QByteArray
  | .tunnelOpen id service token => json.toJson (makeOpen id service token)
  | .tunnelOpenAck id ok token reason => json.toJson (makeOpenAck id ok token reason)
  | .tunnelData id data => appendU32 [] id ++ data
  | .tunnelAck id consumed => appendU32 (appendU32 [] id) consumed
  | .tunnelClose id => appendU32 [] id

/-! ## Round trips -/

variable {object : QJsonObject}

/-- A stream id survives the detour through a double, except for the id zero. -/
theorem parseStreamId_of_lookup {id : UInt32}
    (h : object.lookup "stream" = some (.double (some (id.toNat : ℚ)))) :
    parseStreamId object = if id = 0 then none else some id := by
  have hlt : id.toNat < 2 ^ 32 := id.toNat_lt
  simp only [parseStreamId, h, toDouble]
  by_cases hzero : id = 0
  · simp [hzero]
  · have hpos : 1 ≤ id.toNat := by
      rcases Nat.eq_zero_or_pos id.toNat with hid | hid
      · exact absurd (UInt32.toNat_inj.mp (by simpa using hid)) hzero
      · exact hid
    have hlow : ¬ (id.toNat : ℚ) < 1 := by
      rw [not_lt]
      exact_mod_cast hpos
    have hhigh : ¬ (id.toNat : ℚ) > 4294967295 := by
      rw [gt_iff_lt, not_lt]
      exact_mod_cast (by omega : id.toNat ≤ 4294967295)
    simp [hlow, hhigh, hzero]

/-- Writing one more plain field keeps an object plain. -/
theorem plain_insert {name : QString} {new : QJsonValue}
    (hobject : ∀ key value, object.lookup key = some value → value.Plain) (hnew : new.Plain)
    (key : QString) (value : QJsonValue) (h : (object.insert name new).lookup key = some value) :
    value.Plain := by
  by_cases hkey : key = name
  · subst hkey
    rw [lookup_insert, Option.some.injEq] at h
    exact h ▸ hnew
  · exact hobject key value (by rwa [lookup_insert_ne hkey] at h)

theorem makeOpen_plain (id : UInt32) (service token : QString) :
    ∀ key value, (makeOpen id service token).lookup key = some value → value.Plain := by
  apply plain_insert _ (plain_string token)
  apply plain_insert _ (plain_string service)
  exact plain_insert (by simp) (plain_double id)

variable {json : QJsonDocument}

/-- What `handleOpen` reads from an honest OPEN frame. -/
theorem parseOpen_payload (hjson : json.Lawful) (id : UInt32) (service token : QString) :
    parseOpen json ((Frame.tunnelOpen id service token).payload json) =
      if id ≠ 0 ∧ service ≠ "" ∧ token ≠ "" then some (id, service, token) else none := by
  obtain ⟨parsed, hparsed, hlookup⟩ := hjson (makeOpen id service token)
    (makeOpen_plain id service token)
  have hstream : parsed.lookup "stream" = some (.double (some (id.toNat : ℚ))) := by
    rw [hlookup, makeOpen, lookup_insert_ne (by decide), lookup_insert_ne (by decide),
      lookup_insert]
  have hservice : parsed.lookup "service" = some (.string service) := by
    rw [hlookup, makeOpen, lookup_insert_ne (by decide), lookup_insert]
  have htoken : parsed.lookup "token" = some (.string token) := by
    rw [hlookup, makeOpen, lookup_insert]
  simp only [parseOpen, Frame.payload, hparsed, parseStreamId_of_lookup hstream, hservice, htoken,
    asString]
  by_cases hid : id = 0 <;> simp [hid]

variable {ok : Bool} {token reason : QString}

/-- The fields of an OPEN_ACK; a missing reason reads as the empty one. -/
theorem lookup_makeOpenAck (id : UInt32) :
    (makeOpenAck id ok token reason).lookup "stream" = some (.double (some (id.toNat : ℚ))) ∧
      (makeOpenAck id ok token reason).lookup "ok" = some (.bool ok) ∧
      (makeOpenAck id ok token reason).lookup "token" = some (.string token) ∧
      asString ((makeOpenAck id ok token reason).lookup "reason") = reason := by
  unfold makeOpenAck
  by_cases hreason : reason = ""
  · simp only [hreason, if_true]
    refine ⟨?_, ?_, lookup_insert _, ?_⟩
    · rw [lookup_insert_ne (by decide), lookup_insert_ne (by decide),
        lookup_insert]
    · rw [lookup_insert_ne (by decide), lookup_insert]
    · rw [lookup_insert_ne (by decide), lookup_insert_ne (by decide),
        lookup_insert_ne (by decide), lookup_empty]
      rfl
  · simp only [hreason, if_false]
    refine ⟨?_, ?_, ?_, ?_⟩
    · rw [lookup_insert_ne (by decide), lookup_insert_ne (by decide),
        lookup_insert_ne (by decide), lookup_insert]
    · rw [lookup_insert_ne (by decide), lookup_insert_ne (by decide),
        lookup_insert]
    · rw [lookup_insert_ne (by decide), lookup_insert]
    · rw [lookup_insert]
      rfl

theorem makeOpenAck_plain (id : UInt32) :
    ∀ key value, (makeOpenAck id ok token reason).lookup key = some value → value.Plain := by
  have hfields : ∀ key value, ((((∅ : QJsonObject).insert "stream"
      (.double (some (id.toNat : ℚ)))).insert "ok" (.bool ok)).insert
        "token" (.string token)).lookup key = some value → value.Plain := by
    apply plain_insert _ (plain_string token)
    apply plain_insert _ (plain_bool ok)
    exact plain_insert (by simp) (plain_double id)
  unfold makeOpenAck
  by_cases hreason : reason = ""
  · simpa only [hreason, if_true] using hfields
  · simpa only [hreason, if_false] using
      plain_insert hfields (plain_string reason)

/-- What `handleOpenAck` reads from an honest OPEN_ACK frame. -/
theorem parseOpenAck_payload (hjson : json.Lawful)
    (id : UInt32) (ok : Bool) (token reason : QString) :
    parseOpenAck json ((Frame.tunnelOpenAck id ok token reason).payload json) =
      if id ≠ 0 then some (id, ok, token, reason) else none := by
  obtain ⟨parsed, hparsed, hlookup⟩ := hjson (makeOpenAck id ok token reason) (makeOpenAck_plain id)
  obtain ⟨hstream, hok, htoken, hreason⟩ := lookup_makeOpenAck id
  simp only [parseOpenAck, Frame.payload, hparsed,
    parseStreamId_of_lookup ((hlookup "stream").trans hstream)]
  by_cases hid : id = 0
  · simp [hid]
  · rw [if_neg hid, if_pos hid, hlookup, hlookup, hlookup, hok, htoken, hreason]
    rfl

end DdeCooperation.Tunnel
