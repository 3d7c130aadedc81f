import Mathlib.Data.Int.Notation
import Mathlib.Data.Nat.Notation

/-!
# Values of picojson

A parsed JSON value with the accessors that the messages are read with. An accessor
asserts the type it expects; a failed assertion throws. Looking up a missing key of an
object gives the null value, and every value has a text.
-/

namespace DdeCooperation.Picojson

/-- `picojson::value` with 64-bit integers. A floating-point number is kept as far as it
is read: the text it prints as, and whether it is zero. -/
inductive Value where
  | null
  | boolean (value : Bool)
  | int64 (value : ℤ)
  | number (text : String) (isZero : Bool)
  | string (value : String)
  | array (items : List Value)
  | object (fields : List (String × Value))
deriving Inhabited

/-- `std::runtime_error` with the text of the failed assertion. -/
structure RuntimeError where
  what : String

/-- Reading a value may throw. -/
abbrev Read := Except RuntimeError

theorem Read.exists_of_bind {α β : Type} {read : Read α} {next : α → Read β} {result : β}
    (h : read >>= next = .ok result) : ∃ value, read = .ok value ∧ next value = .ok result := by
  cases read with
  | error _ => cases h
  | ok value => exact ⟨value, rfl, h⟩

namespace Value

/-- `get<type>()` of a value of another type. -/
def typeMismatch {α : Type} : Read α :=
  throw ⟨"\"type mismatch! call is<type>() before get<type>()\" && is<ctype>()"⟩

/-- The member of an object, or null. -/
def get (key : String) : Value → Read Value
  | object fields => pure ((fields.lookup key).getD null)
  | _ => throw ⟨"is<object>()"⟩

def contains (key : String) : Value → Read Bool
  | object fields => pure (fields.lookup key).isSome
  | _ => throw ⟨"is<object>()"⟩

def getBool : Value → Read Bool
  | boolean value => pure value
  | _ => typeMismatch

def getInt64 : Value → Read ℤ
  | int64 value => pure value
  | _ => typeMismatch

def toStr : Value → String
  | null => "null"
  | boolean value => if value then "true" else "false"
  | int64 value => toString value
  | number text _ => text
  | string value => value
  | array _ => "array"
  | object _ => "object"

/-- A flag that may also be given as a number, and is off when it is anything else. -/
def asFlag : Value → Bool
  | boolean value => value
  | int64 value => value ≠ 0
  | number _ isZero => !isZero
  | _ => false

/-- The strings among the items of an array; anything but an array has none. -/
def asStrings : Value → List String
  | array items => items.filterMap fun
    | string value => some value
    | _ => none
  | _ => []

end Value

end DdeCooperation.Picojson
