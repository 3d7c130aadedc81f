import Mathlib.Data.List.AList
import Mathlib.Data.Rat.Floor
import Mathlib.Data.UInt

/-!
# The Qt values the tunnel handles

Strings, byte arrays, hash tables and JSON objects, as far as the tunnel code
reads them. A hash table is Mathlib's association list with distinct keys;
`QHash` promises no iteration order and nothing below relies on one.

The JSON text format itself is not part of this repository. `QJsonDocument`
keeps its two directions as parameters, and `QJsonDocument.Lawful` is the only
thing asked of them: an object of strings, booleans and 32-bit integers is read
back from the text it was printed to.
-/

namespace DdeCooperation.Qt

abbrev QString := String
abbrev QByteArray := List UInt8
abbrev QHash (Key Value : Type) := AList (fun _ : Key ↦ Value)

/-- `QString::size()` counts UTF-16 code units. -/
def QString.size (text : QString) : ℕ :=
  (text.toList.map fun c ↦ if c.toNat < 0x10000 then 1 else 2).sum

/-- A JSON value. `double none` stands for the doubles that are not finite; arrays and nested
objects are not distinguished because no reader of the tunnel looks inside them. -/
inductive QJsonValue where
  | null
  | bool (value : Bool)
  | double (value : Option ℚ)
  | string (value : QString)
  | nested
  deriving DecidableEq

abbrev QJsonObject := QHash QString QJsonValue

namespace QJsonValue

/-- `toDouble()` answers 0 for a value of another kind. -/
def toDouble : Option QJsonValue → Option ℚ
  | some (.double value) => value
  | _ => some 0

def toBool : Option QJsonValue → Bool
  | some (.bool value) => value
  | _ => false

/-- `toString()` answers the empty string for a value of another kind. -/
def asString : Option QJsonValue → QString
  | some (.string value) => value
  | _ => ""

/-- The values the tunnel writes: strings, booleans and 32-bit integers. -/
def Plain : QJsonValue → Prop
  | .bool _ => True
  | .string _ => True
  | .double (some value) => ∃ n : UInt32, value = n.toNat
  | _ => False

theorem plain_bool (value : Bool) : (bool value).Plain := trivial

theorem plain_string (value : QString) : (string value).Plain := trivial

theorem plain_double (n : UInt32) : (double (some (n.toNat : ℚ))).Plain := ⟨n, rfl⟩

end QJsonValue

/-- Printing and parsing of JSON text. `fromJson` answers `none` when the text has a parse error
or its top level is not an object. -/
structure QJsonDocument where
  toJson : QJsonObject → QByteArray
  fromJson : QByteArray → Option QJsonObject

/-- A printed object is read back with the same value under every key. -/
def QJsonDocument.Lawful (json : QJsonDocument) : Prop :=
  ∀ object : QJsonObject, (∀ key value, object.lookup key = some value → value.Plain) →
    ∃ parsed, json.fromJson (json.toJson object) = some parsed ∧
      ∀ key, parsed.lookup key = object.lookup key

end DdeCooperation.Qt
