import DdeCooperation.Picojson.Value

/-!
# JSON texts

`serialize` writes a value in the compact form of picojson, where it leaves control characters
without a short form as they are. `parse` reads the strings, integers, arrays and objects that
are written so. It gives the functions that read a value back an example of a text.
-/

namespace DdeCooperation.Picojson.Text

def quote : Char := .ofNat 34
def backslash : Char := .ofNat 92
def openBrace : Char := .ofNat 123
def closeBrace : Char := .ofNat 125

/-- The characters that are written with a backslash, and what stands after it. -/
def escapes : List (Char × Char) :=
  [(quote, quote), (backslash, backslash), ('/', '/'), (.ofNat 8, 'b'), (.ofNat 12, 'f'),
    (.ofNat 10, 'n'), (.ofNat 13, 'r'), (.ofNat 9, 't')]

def writeString (s : String) : List Char :=
  quote :: (s.toList.flatMap fun c ↦ ((escapes.lookup c).map ([backslash, ·])).getD [c]) ++ [quote]

mutual

def serialize : Value → List Char
  | .null => "null".toList
  | .boolean value => (toString value).toList
  | .int64 value => (if value < 0 then ['-'] else []) ++ Nat.toDigits 10 value.natAbs
  | .number text _ => text.toList
  | .string value => writeString value
  | .array items => '[' :: writeItems items ++ [']']
  | .object fields => openBrace :: writeFields fields ++ [closeBrace]

def writeItems : List Value → List Char
  | [] => []
  | [item] => serialize item
  | item :: items => serialize item ++ ',' :: writeItems items

def writeFields : List (String × Value) → List Char
  | [] => []
  | [(key, value)] => writeString key ++ ':' :: serialize value
  | (key, value) :: fields => writeString key ++ ':' :: (serialize value ++ ',' :: writeFields fields)

end

/-- A string up to its closing quote, and what follows it. -/
def readString : List Char → Option (List Char × List Char)
  | [] => none
  | c :: rest =>
    if c = quote then some ([], rest)
    else if c = backslash then
      match rest with
      | [] => none
      | escaped :: rest => do
        let (c, _) ← escapes.find? (·.2 = escaped)
        let (s, rest) ← readString rest
        return (c :: s, rest)
    else (readString rest).map fun (s, rest) ↦ (c :: s, rest)

def readNumber (text : List Char) : Option (Value × List Char) :=
  let digits := text.takeWhile Char.isDigit
  if digits = [] then none
  else
    let value : ℕ := digits.foldl (fun value c ↦ value * 10 + (c.toNat - 48)) 0
    some (.int64 value, text.drop digits.length)

def skip (separator : Char) (text : List Char) : List Char :=
  if text.head? = some separator then text.tail else text

mutual

/-- The values that a listing is made of. -/
def read : ℕ → List Char → Option (Value × List Char)
  | 0, _ => none
  | _, [] => none
  | fuel + 1, c :: rest =>
    if c = quote then (readString rest).map fun (s, rest) ↦ (.string (.ofList s), rest)
    else if c = '[' then (readItems fuel rest).map fun (items, rest) ↦ (.array items, rest)
    else if c = openBrace then (readFields fuel rest).map fun (fields, rest) ↦ (.object fields, rest)
    else if c = '-' then
      match readNumber rest with
      | some (.int64 value, rest) => some (.int64 (-value), rest)
      | _ => none
    else readNumber (c :: rest)

def readItems : ℕ → List Char → Option (List Value × List Char)
  | 0, _ => none
  | fuel + 1, text =>
    if text.head? = some ']' then some ([], text.tail)
    else do
      let (item, rest) ← read fuel text
      let (items, rest) ← readItems fuel (skip ',' rest)
      return (item :: items, rest)

def readFields : ℕ → List Char → Option (List (String × Value) × List Char)
  | 0, _ => none
  | fuel + 1, text =>
    if text.head? = some closeBrace then some ([], text.tail)
    else do
      let (key, rest) ← readString (skip quote text)
      let (value, rest) ← read fuel (skip ':' rest)
      let (fields, rest) ← readFields fuel (skip ',' rest)
      return ((.ofList key, value) :: fields, rest)

end

/-- The whole text is one value. -/
def parse (text : List Char) : Option Value :=
  match read text.length text with
  | some (value, []) => some value
  | _ => none

end DdeCooperation.Picojson.Text
