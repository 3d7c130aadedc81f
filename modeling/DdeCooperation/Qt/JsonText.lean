import Mathlib.Data.List.Sort
import DdeCooperation.Qt.Values

/-!
# A JSON text format

One concrete `QJsonDocument`: compact text with the fields of an object in the
order of their keys. Printable characters stand for themselves, except for the
quote and the backslash; every other character is escaped by its code point. On
such text it agrees with what Qt prints and reads. Its law, `textJson_lawful`,
shows that what the tunnel asks of a JSON library can be met.
-/

namespace DdeCooperation.Qt

variable {digit : ℕ} {rest : QByteArray}

namespace JsonText

/-! ## Numbers -/

/-- The decimal digits of a number with at most `size` of them. -/
def digits : ℕ → ℕ → QByteArray
  | 0, _ => []
  | size + 1, n =>
    if n < 10 then [UInt8.ofNat (48 + n)] else digits size (n / 10) ++ [UInt8.ofNat (48 + n % 10)]

/-- Read digits into the number read so far, up to the first byte that is none. -/
def readNumber : ℕ → QByteArray → ℕ × QByteArray
  | n, [] => (n, [])
  | n, byte :: rest =>
    if 48 ≤ byte.toNat ∧ byte.toNat ≤ 57 then readNumber (10 * n + (byte.toNat - 48)) rest
    else (n, byte :: rest)

theorem readNumber_digit (n : ℕ) (h : digit < 10) (rest : QByteArray) :
    readNumber n (UInt8.ofNat (48 + digit) :: rest) = readNumber (10 * n + digit) rest := by
  have hbyte : (UInt8.ofNat (48 + digit)).toNat = 48 + digit := by
    rw [UInt8.toNat_ofNat']
    omega
  rw [readNumber, hbyte, if_pos ⟨by omega, by omega⟩, Nat.add_sub_cancel_left]

theorem readNumber_digits (size n : ℕ) (h : n < 10 ^ size) (rest : QByteArray) :
    readNumber 0 (digits size n ++ rest) = readNumber n rest := by
  induction size generalizing n rest with
  | zero =>
    have hzero : n = 0 := by simpa using h
    rw [hzero]
    rfl
  | succ size ih =>
    rw [digits]
    split
    · next hsmall => simpa using readNumber_digit 0 hsmall rest
    · have hprefix : n / 10 < 10 ^ size := by
        apply Nat.div_lt_of_lt_mul
        rwa [pow_succ, Nat.mul_comm] at h
      rw [List.append_assoc, ih _ hprefix, List.singleton_append,
        readNumber_digit _ (Nat.mod_lt n (by omega)), Nat.div_add_mod]

/-! ## Strings -/

def hexDigit (digit : ℕ) : UInt8 :=
  if digit < 10 then UInt8.ofNat (48 + digit) else UInt8.ofNat (87 + digit)

def readHexDigit (byte : UInt8) : ℕ :=
  if byte.toNat < 58 then byte.toNat - 48 else byte.toNat - 87

theorem readHexDigit_hexDigit (h : digit < 16) : readHexDigit (hexDigit digit) = digit := by
  unfold hexDigit readHexDigit
  split <;> rw [UInt8.toNat_ofNat'] <;> split <;> omega

/-- A character that is written as it is. -/
def Verbatim (char : Char) : Prop :=
  32 ≤ char.toNat ∧ char.toNat < 127 ∧ char ≠ '"' ∧ char ≠ '\\'

instance (char : Char) : Decidable (Verbatim char) := by
  unfold Verbatim
  infer_instance

def writeChar (char : Char) : QByteArray :=
  if Verbatim char then [UInt8.ofNat char.toNat]
  else
    let code := char.toNat
    [92, hexDigit (code / 16 ^ 5 % 16), hexDigit (code / 16 ^ 4 % 16),
      hexDigit (code / 16 ^ 3 % 16), hexDigit (code / 16 ^ 2 % 16), hexDigit (code / 16 % 16),
      hexDigit (code % 16)]

def writeString (text : QString) : QByteArray :=
  34 :: text.toList.flatMap writeChar ++ [34]

/-- The characters up to the closing quote, and the text after it. -/
def readString : QByteArray → Option (List Char × QByteArray)
  | [] => none
  | 34 :: rest => some ([], rest)
  | 92 :: a :: b :: c :: d :: e :: f :: rest =>
    let code := ((((readHexDigit a * 16 + readHexDigit b) * 16 + readHexDigit c) * 16 +
      readHexDigit d) * 16 + readHexDigit e) * 16 + readHexDigit f
    (readString rest).map fun (text, rest) ↦ (Char.ofNat code :: text, rest)
  | byte :: rest =>
    (readString rest).map fun (text, rest) ↦ (Char.ofNat byte.toNat :: text, rest)

theorem readString_byte {byte : UInt8} (hquote : byte ≠ 34) (hslash : byte ≠ 92) :
    readString (byte :: rest) =
      (readString rest).map fun (text, rest) ↦ (Char.ofNat byte.toNat :: text, rest) := by
  rw [readString]
  · exact hquote
  · exact fun _ _ _ _ _ _ _ h ↦ absurd h hslash

theorem readString_writeChar (char : Char) :
    readString (writeChar char ++ rest) =
      (readString rest).map fun (text, rest) ↦ (char :: text, rest) := by
  unfold writeChar
  split
  · next hverbatim =>
    obtain ⟨hlow, hhigh, hquote, hslash⟩ := hverbatim
    have hbyte : (UInt8.ofNat char.toNat).toNat = char.toNat := by
      rw [UInt8.toNat_ofNat']
      omega
    have hne : ∀ other : Char, char ≠ other → other.toNat < 256 →
        UInt8.ofNat char.toNat ≠ UInt8.ofNat other.toNat := by
      intro other hother hsmall heq
      have hnat := congrArg UInt8.toNat heq
      rw [hbyte, UInt8.toNat_ofNat', Nat.mod_eq_of_lt (by omega)] at hnat
      exact hother (Char.toNat_inj.mp hnat)
    have hquote' : UInt8.ofNat char.toNat ≠ 34 := hne '"' hquote (by decide)
    have hslash' : UInt8.ofNat char.toNat ≠ 92 := hne '\\' hslash (by decide)
    rw [List.singleton_append, readString_byte hquote' hslash', hbyte, Char.ofNat_toNat]
  · have hcode : char.toNat < 16 ^ 6 := by
      have hvalid := char.valid
      simp only [UInt32.isValidChar, Nat.isValidChar] at hvalid
      change char.val.toNat < _
      omega
    simp only [List.cons_append, List.nil_append, readString,
      readHexDigit_hexDigit (Nat.mod_lt _ (by norm_num : 16 > 0))]
    have hvalue : (((((char.toNat / 16 ^ 5 % 16 * 16 + char.toNat / 16 ^ 4 % 16) * 16 +
        char.toNat / 16 ^ 3 % 16) * 16 + char.toNat / 16 ^ 2 % 16) * 16 +
        char.toNat / 16 % 16) * 16 + char.toNat % 16) = char.toNat := by omega
    rw [hvalue, Char.ofNat_toNat]

theorem readString_writeString (text : QString) :
    readString (text.toList.flatMap writeChar ++ [34] ++ rest) = some (text.toList, rest) := by
  have hchars : ∀ chars : List Char,
      readString (chars.flatMap writeChar ++ 34 :: rest) = some (chars, rest) := by
    intro chars
    induction chars with
    | nil => rfl
    | cons char chars ih =>
      rw [List.flatMap_cons, List.append_assoc, readString_writeChar, ih]
      rfl
  rw [List.append_assoc]
  exact hchars text.toList

/-! ## Values and objects -/

def writeValue : QJsonValue → QByteArray
  | .bool true => [116, 114, 117, 101]
  | .bool false => [102, 97, 108, 115, 101]
  | .string text => writeString text
  | .double (some value) => digits 10 ⌊value⌋.toNat
  | _ => [110, 117, 108, 108]

def readValue : QByteArray → Option (QJsonValue × QByteArray)
  | 34 :: rest => (readString rest).map fun (text, rest) ↦ (.string (String.ofList text), rest)
  | 116 :: 114 :: 117 :: 101 :: rest => some (.bool true, rest)
  | 102 :: 97 :: 108 :: 115 :: 101 :: rest => some (.bool false, rest)
  | 110 :: 117 :: 108 :: 108 :: rest => some (.null, rest)
  | text =>
    let (n, rest) := readNumber 0 text
    if rest.length < text.length then some (.double (some (n : ℚ)), rest) else none

abbrev Field := (_ : QString) × QJsonValue

def writeField (field : Field) : QByteArray :=
  writeString field.1 ++ 58 :: writeValue field.2

def writeFields : List Field → QByteArray
  | [] => [125]
  | [field] => writeField field ++ [125]
  | field :: fields => writeField field ++ 44 :: writeFields fields

/-- At most `count` fields up to the closing brace, which ends the text. -/
def readFields : ℕ → QByteArray → Option (List Field)
  | 0, _ => none
  | count + 1, 34 :: text =>
    match readString text with
    | some (key, 58 :: text) =>
      match readValue text with
      | some (value, [125]) => some [⟨String.ofList key, value⟩]
      | some (value, 44 :: text) =>
        (readFields count text).map fun fields ↦ ⟨String.ofList key, value⟩ :: fields
      | _ => none
    | _ => none
  | _, _ => none

/-- The byte that follows a value. -/
def Terminated (rest : QByteArray) : Prop :=
  ∃ byte tail, rest = byte :: tail ∧ (byte = 44 ∨ byte = 125)

variable {n : ℕ}

theorem readNumber_terminated (h : Terminated rest) : readNumber n rest = (n, rest) := by
  obtain ⟨byte, tail, rfl, rfl | rfl⟩ := h <;> rfl

theorem digits_cons (size n : ℕ) :
    ∃ digit tail, digit < 10 ∧ digits (size + 1) n = UInt8.ofNat (48 + digit) :: tail := by
  induction size generalizing n with
  | zero =>
    by_cases hsmall : n < 10
    · exact ⟨n, [], hsmall, by simp [digits, hsmall]⟩
    · exact ⟨n % 10, [], Nat.mod_lt n (by omega), by simp [digits, hsmall]⟩
  | succ size ih =>
    by_cases hsmall : n < 10
    · exact ⟨n, [], hsmall, by simp [digits, hsmall]⟩
    · obtain ⟨digit, tail, hdigit, htail⟩ := ih (n / 10)
      refine ⟨digit, tail ++ [UInt8.ofNat (48 + n % 10)], hdigit, ?_⟩
      rw [digits, if_neg hsmall, htail]
      rfl

/-- Text that starts with a digit is read as a number. -/
theorem readValue_number (hdigit : digit < 10) {tail : QByteArray} {n : ℕ}
    (hread : readNumber 0 (UInt8.ofNat (48 + digit) :: tail) = (n, rest))
    (hlength : rest.length < (UInt8.ofNat (48 + digit) :: tail).length) :
    readValue (UInt8.ofNat (48 + digit) :: tail) = some (.double (some (n : ℚ)), rest) := by
  have hbyte : (UInt8.ofNat (48 + digit)).toNat = 48 + digit := by
    rw [UInt8.toNat_ofNat']
    omega
  have hne : ∀ other : UInt8, other.toNat < 48 ∨ 57 < other.toNat →
      UInt8.ofNat (48 + digit) ≠ other := by
    rintro other hother rfl
    omega
  have h34 := hne 34 (by decide)
  have h116 := hne 116 (by decide)
  have h102 := hne 102 (by decide)
  have h110 := hne 110 (by decide)
  rw [readValue]
  · simp only [hread, if_pos hlength]
  all_goals grind

theorem readValue_digits {n : ℕ} (h : n < 10 ^ 10) (hrest : Terminated rest) :
    readValue (digits 10 n ++ rest) = some (.double (some (n : ℚ)), rest) := by
  obtain ⟨digit, tail, hdigit, hdigits⟩ := digits_cons 9 n
  have hread := readNumber_digits 10 n h rest
  rw [readNumber_terminated hrest, hdigits, List.cons_append] at hread
  rw [hdigits, List.cons_append]
  have hlength : rest.length < (UInt8.ofNat (48 + digit) :: (tail ++ rest)).length := by
    rw [List.length_cons, List.length_append]
    omega
  exact readValue_number hdigit hread hlength

theorem readValue_writeValue {value : QJsonValue} (hvalue : value.Plain)
    (hrest : Terminated rest) : readValue (writeValue value ++ rest) = some (value, rest) := by
  cases value with
  | null | nested => exact hvalue.elim
  | bool flag => cases flag <;> rfl
  | string text =>
    simp only [writeValue, writeString, List.cons_append, readValue]
    rw [readString_writeString]
    simp
  | double number =>
    cases number with
    | none => exact hvalue.elim
    | some number =>
      obtain ⟨n, rfl⟩ := hvalue
      have hlt : n.toNat < 10 ^ 10 := by
        have := n.toNat_lt
        omega
      simp only [writeValue, Int.floor_natCast, Int.toNat_natCast]
      exact readValue_digits hlt hrest

variable {field : Field}

theorem writeField_append :
    writeField field ++ rest = 34 :: (field.1.toList.flatMap writeChar ++ [34] ++
      58 :: (writeValue field.2 ++ rest)) := by
  simp [writeField, writeString]

variable {count : ℕ}

theorem readFields_last {field : Field} (hplain : field.2.Plain) :
    readFields (count + 1) (writeField field ++ [125]) = some [field] := by
  have hvalue := readValue_writeValue hplain ⟨125, [], rfl, .inr rfl⟩
  rw [writeField_append, readFields, readString_writeString]
  simp only [hvalue, String.ofList_toList]

theorem readFields_next {field : Field} (hplain : field.2.Plain) (text : QByteArray) :
    readFields (count + 1) (writeField field ++ 44 :: text) =
      (readFields count text).map fun fields ↦ field :: fields := by
  have hvalue := readValue_writeValue hplain ⟨44, text, rfl, .inl rfl⟩
  rw [writeField_append, readFields, readString_writeString]
  simp only [hvalue, String.ofList_toList]

theorem readFields_writeFields (fields : List Field) (field : Field)
    (hplain : ∀ entry ∈ field :: fields, entry.2.Plain) (count : ℕ)
    (hcount : fields.length < count) :
    readFields count (writeFields (field :: fields)) = some (field :: fields) := by
  obtain ⟨count, rfl⟩ : ∃ smaller, count = smaller + 1 := ⟨count - 1, by omega⟩
  induction fields generalizing field count with
  | nil => exact readFields_last (hplain field (by simp))
  | cons next fields ih =>
    simp only [List.length_cons, Nat.add_lt_add_iff_right] at hcount
    obtain ⟨count, rfl⟩ : ∃ smaller, count = smaller + 1 := ⟨count - 1, by omega⟩
    rw [writeFields, readFields_next (hplain field (by simp)),
      ih next (fun entry hentry ↦ hplain entry (List.mem_cons_of_mem _ hentry)) count hcount]
    · rfl
    · simp

theorem length_lt_writeFields (fields : List Field) :
    fields.length < (writeFields fields).length := by
  induction fields with
  | nil => simp [writeFields]
  | cons field fields ih =>
    cases fields with
    | nil => simp [writeFields, writeField, writeString]
    | cons next fields =>
      simp only [writeFields, List.length_append, List.length_cons] at ih ⊢
      omega

end JsonText

open JsonText List

/-- JSON text, compact and with sorted keys. -/
def textJson : QJsonDocument where
  toJson object := 123 :: writeFields (object.entries.insertionSort fun left right ↦ left.1 ≤ right.1)
  fromJson
    | [123, 125] => some ∅
    | 123 :: text => (readFields text.length text).map List.toAList
    | _ => none

theorem textJson_lawful : textJson.Lawful := by
  intro object hplain
  have hperm := perm_insertionSort (fun left right : Field ↦ left.1 ≤ right.1) object.entries
  have hkeys := (perm_nodupKeys hperm).mpr object.nodupKeys
  generalize hsorted : object.entries.insertionSort (fun left right ↦ left.1 ≤ right.1) = fields
    at hperm hkeys
  have hlookup : ∀ key, fields.dlookup key = object.lookup key := fun key ↦
    perm_dlookup key hkeys hperm
  have hvalues : ∀ entry ∈ fields, entry.2.Plain := by
    intro entry hentry
    refine hplain entry.1 entry.2 ?_
    rw [← hlookup]
    exact mem_dlookup hkeys hentry
  refine ⟨fields.toAList, ?_, fun key ↦ by rw [AList.lookup_to_alist, hlookup]⟩
  simp only [textJson, hsorted]
  cases fields with
  | nil => rfl
  | cons field fields =>
    have hlength : fields.length < (writeFields (field :: fields)).length :=
      Nat.lt_of_succ_lt (length_lt_writeFields (field :: fields))
    have hread := readFields_writeFields fields field hvalues _ hlength
    split
    · next htext =>
      have hbrace : writeFields (field :: fields) = [125] := by simpa using htext
      rw [hbrace] at hread
      simp [readFields] at hread
    · next text _ htext =>
      rw [← (cons.inj htext).2, hread]
      rfl
    · next hother => exact absurd rfl (hother _)

end DdeCooperation.Qt
