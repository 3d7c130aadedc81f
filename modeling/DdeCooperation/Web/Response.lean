import Mathlib.Data.UInt

/-!
# Receiving an HTTP response

`HTTPResponse` collects the bytes of a response in a cache, looks for the empty line that
ends its header, and then counts the bytes of the body. The positions below are those of
the source: the header is read up to the position `stop` of the separator, but the loops
over the status line look at the whole cache.

The texts of the header are not kept. `status` is not bounded here, where the source has
an `int`.
-/

namespace DdeCooperation.Web

structure HTTPResponse where
  error : Bool := false
  status : ℕ := 0
  bodyIndex : ℕ := 0
  bodySize : ℕ := 0
  bodyLength : ℕ := 0
  bodyLengthProvided : Bool := false
  cache : List UInt8 := []
  /-- How much of the cache has been looked through for the separator. -/
  cacheSize : ℕ := 0
deriving DecidableEq

namespace HTTPResponse

def space : UInt8 := 32
def carriageReturn : UInt8 := 13
def lineFeed : UInt8 := 10
def colon : UInt8 := 58

def isDigit (byte : UInt8) : Bool := 48 ≤ byte && byte ≤ 57

/-- `std::isspace` in the C locale. -/
def isSpace (byte : UInt8) : Bool := byte = 32 || (9 ≤ byte && byte ≤ 13)

def toLower (byte : UInt8) : UInt8 := if 65 ≤ byte && byte ≤ 90 then byte + 32 else byte

/-- `content-length`. -/
def contentLength : List UInt8 :=
  [99, 111, 110, 116, 101, 110, 116, 45, 108, 101, 110, 103, 116, 104]

def compareNoCase (first second : List UInt8) : Bool := first.map toLower = second.map toLower

def isSeparator : List UInt8 → Bool
  | 13 :: 10 :: 13 :: 10 :: _ => true
  | _ => false

/-- What a header tells about the response. -/
structure Head where
  status : ℕ
  bodyLength : ℕ
  bodyLengthProvided : Bool
deriving DecidableEq

/-- The value of some digits; there is none with another byte among them. -/
def decimal (bytes : List UInt8) : Option ℕ :=
  if bytes.all isDigit then some (bytes.foldl (fun value byte ↦ value * 10 + (byte.toNat - 48)) 0)
  else none

/-- The bytes from a byte of the given kind on, after at least one more. -/
def skipPast (byte : UInt8) (rest : List UInt8) : Option (List UInt8) :=
  match rest.dropWhile (· ≠ byte) with
  | _ :: next :: tail => some (next :: tail)
  | _ => none

/-- The status, and what follows the status line. -/
def parseStatus (cache : List UInt8) : Option (ℕ × List UInt8) := do
  let rest ← skipPast space cache
  let status ← decimal (rest.takeWhile (· ≠ space))
  let rest ← skipPast space rest
  let rest ← skipPast carriageReturn rest
  match rest with
  | 10 :: next :: tail => some (status, next :: tail)
  | _ => none

/-- A `Content-Length` without any digits announces nothing. -/
def addHeader (name value : List UInt8) (head : Head) : Option Head :=
  if compareNoCase name contentLength then
    (decimal value).map fun length ↦ { head with
      bodyLength := length % 2 ^ 64
      bodyLengthProvided := head.bodyLengthProvided || value ≠ [] }
  else some head

/-- The headers from a position on, up to the separator. Every round moves on, so that as
many rounds as the cache has bytes are enough. -/
def parseHeaders (cache : List UInt8) (stop : ℕ) : ℕ → ℕ → Head → Option Head
  | 0, _, head => some head
  | rounds + 1, index, head =>
    if stop ≤ index then some head
    else
      let name := ((cache.drop index).take (stop - index)).takeWhile (· ≠ colon)
      let index := index + name.length + 1
      if stop ≤ index then some head
      else
        let inside := (cache.drop index).take (stop - index)
        let blanks := inside.takeWhile isSpace
        let value := (inside.drop blanks.length).takeWhile (· ≠ carriageReturn)
        let index := index + blanks.length + value.length + 1
        if cache[index]? ≠ some lineFeed ∨ cache.length ≤ index + 1 ∨ name = [] then none
        else (addHeader name value head).bind (parseHeaders cache stop rounds (index + 1))

def parseHead (cache : List UInt8) (stop : ℕ) : Option Head :=
  (parseStatus cache).bind fun (status, rest) ↦
    parseHeaders cache stop cache.length (cache.length - rest.length) ⟨status, 0, false⟩

def clear (_ : HTTPResponse) : HTTPResponse := {}

def clearCache (response : HTTPResponse) : HTTPResponse :=
  { response with cache := [], cacheSize := 0 }

def isPendingHeader (response : HTTPResponse) : Bool := !response.error && response.bodyIndex = 0

def isPendingBody (response : HTTPResponse) : Bool :=
  !response.error && 0 < response.bodyIndex && 0 < response.bodySize

/-- The first separator that was not looked at yet. -/
def findSeparator (cache : List UInt8) (start : ℕ) : Option ℕ :=
  (List.range' start (cache.length - start)).find? fun index ↦ isSeparator (cache.drop index)

def receiveHeader (buffer : List UInt8) (response : HTTPResponse) : Bool × HTTPResponse :=
  let cache := response.cache ++ buffer
  match findSeparator cache response.cacheSize with
  | none => (false, { response with cache := cache, cacheSize := cache.length - 3 })
  | some stop =>
    match parseHead cache stop with
    | none => (false, { response with cache := cache, error := true })
    | some head =>
      (true, { response with
        status := head.status
        bodyLength := head.bodyLength
        bodyLengthProvided := head.bodyLengthProvided
        bodyIndex := stop + 4
        bodySize := cache.length - stop - 4
        cache := cache
        cacheSize := cache.length })

/-- Without an announced length the body ends with an empty line. It is looked for at a
position of the whole response, which a cache that was emptied in between need not have;
`beyond` is what is read there. -/
def receiveBody (buffer : List UInt8) (beyond : Bool) (response : HTTPResponse) :
    Bool × HTTPResponse :=
  let cache := response.cache ++ buffer
  let response := { response with
    cache := cache
    cacheSize := cache.length
    bodySize := response.bodySize + buffer.length }
  if response.bodyLengthProvided then
    if response.bodyLength ≤ response.bodySize then
      (true, { response with bodySize := response.bodyLength })
    else (false, response)
  else if response.bodySize < 4 then (false, response)
  else
    let index := response.bodyIndex + response.bodySize - 4
    let ended := if index + 3 < cache.length then isSeparator (cache.drop index) else beyond
    (ended, if ended then { response with bodyLength := response.bodySize } else response)

variable {response : HTTPResponse}

/-- With an announced length the body ends when so many bytes have come. -/
theorem receiveBody_of_provided
    (hprovided : response.bodyLengthProvided = true) (hcache : response.cache = [])
    (buffer : List UInt8) (beyond : Bool) :
    response.receiveBody buffer beyond =
      if response.bodyLength ≤ response.bodySize + buffer.length then
        (true, { response with
          cache := buffer, cacheSize := buffer.length, bodySize := response.bodyLength })
      else
        (false, { response with
          cache := buffer, cacheSize := buffer.length
          bodySize := response.bodySize + buffer.length }) := by
  simp only [receiveBody, hprovided, hcache, List.nil_append, if_true]

/-- A header that was found is in the cache, with what came behind it. -/
theorem receiveHeader_found {buffer : List UInt8} (h : (response.receiveHeader buffer).1 = true) :
    (response.receiveHeader buffer).2.error = response.error ∧
      0 < (response.receiveHeader buffer).2.bodyIndex ∧
      (response.receiveHeader buffer).2.bodySize = ((response.receiveHeader buffer).2.cache.drop
          (response.receiveHeader buffer).2.bodyIndex).length := by
  unfold receiveHeader at h ⊢
  dsimp only at h ⊢
  split at h
  · cases h
  · split at h
    · cases h
    · refine ⟨rfl, Nat.succ_pos _, ?_⟩
      dsimp only
      rw [List.length_drop, Nat.sub_sub]

end HTTPResponse

end DdeCooperation.Web
