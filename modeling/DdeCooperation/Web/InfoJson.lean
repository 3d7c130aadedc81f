import DdeCooperation.Picojson.Text

/-!
# Listings as JSON

`InfoEntry` is a tree of any depth. `as_json` writes it as an object, with its size as a 64-bit
integer, and `from_json` reads the members back. What picojson makes of the text is a parameter.
-/

namespace DdeCooperation.Web.WebProto

open Picojson

/-- A file or folder with what is in it. -/
inductive InfoEntry where
  | mk (name : String) (size : Int64) (datas : List InfoEntry)

namespace InfoEntry

mutual

/-- The members are in the order of their keys. -/
def asJson : InfoEntry → Value
  | mk name size datas => .object [("datas", .array (datasJson datas)), ("name", .string name),
      ("size", .int64 size.toInt)]

/-- The loop over the entries. -/
def datasJson : List InfoEntry → List Value
  | [] => []
  | data :: datas => data.asJson :: datasJson datas

end

mutual

/-- What is read into a new entry. -/
def fromJson : Value → Read InfoEntry
  | .object fields => do
    let name := ((fields.lookup "name").getD .null).toStr
    let size ← ((fields.lookup "size").getD .null).getInt64
    let datas ← fromDatas fields
    return mk name (.ofInt size) datas
  | _ => throw ⟨"is<object>()"⟩

/-- The member with the entries, if it is an array. -/
def fromDatas : List (String × Value) → Read (List InfoEntry)
  | [] => return []
  | (key, value) :: fields =>
    if key = "datas" then
      match value with
      | .array items => fromItems items
      | _ => return []
    else fromDatas fields

/-- The loop over the items, of which only objects are read. -/
def fromItems : List Value → Read (List InfoEntry)
  | [] => return []
  | .object fields :: items => do
    let info ← fromJson (.object fields)
    let datas ← fromItems items
    return info :: datas
  | _ :: items => fromItems items

end

mutual

theorem fromJson_asJson : ∀ entry : InfoEntry, fromJson entry.asJson = .ok entry
  | mk name size datas => by
    have hdatas := fromItems_datasJson datas
    have hdatasJson : fromDatas [("datas", .array (datasJson datas)), ("name", .string name),
        ("size", .int64 size.toInt)] = .ok datas := by
      rw [fromDatas, if_pos rfl, hdatas]
    rw [asJson, fromJson, hdatasJson]
    exact congrArg (fun size ↦ Except.ok (mk name size datas)) (Int64.ofInt_toInt size)

theorem fromItems_datasJson : ∀ datas : List InfoEntry, fromItems (datasJson datas) = .ok datas
  | [] => rfl
  | mk name size datas :: rest => by
    have hfirst := fromJson_asJson (mk name size datas)
    have hrest := fromItems_datasJson rest
    rw [asJson] at hfirst
    rw [datasJson, asJson, fromItems, hfirst, hrest]
    rfl

end

/-- A listing is read back as it was, if picojson reads the text that it has written. -/
theorem fromJson_parse {τ : Type} (serialize : Value → τ) (parse : τ → Option Value)
    (entry : InfoEntry) (hparse : parse (serialize entry.asJson) = some entry.asJson) :
    (parse (serialize entry.asJson)).map fromJson = some (.ok entry) := by
  rw [hparse, Option.map_some, fromJson_asJson]

/-- The text of a folder with an empty folder and a file that is larger than a floating-point
number can tell. -/
theorem fromJson_parse_folder :
    let entry := mk "a" (-1) [mk "b" (-1) [], mk "c" 9007199254740993 []]
    (Text.parse (Text.serialize entry.asJson)).map fromJson = some (.ok entry) :=
  fromJson_parse Text.serialize Text.parse _ (by rfl)

end InfoEntry

end DdeCooperation.Web.WebProto
