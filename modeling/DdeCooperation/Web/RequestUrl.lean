import Mathlib.Data.List.TakeWhile
import DdeCooperation.Web.Content

/-!
# The URLs of requests

The client puts the name of a file into a URL in base64, followed by its token and, for a
download, by an offset. The server takes the URL apart at the first `&token`, at the first
slash and at the signs `&` and `=`. It gets back what the client has put in, since the encoded
name has no `&` and what stands before the first slash is the method.
-/

namespace DdeCooperation.Web

/-- The alphabet of base64. -/
def isBase64 (b : UInt8) : Bool :=
  (65 ≤ b && b ≤ 90) || (97 ≤ b && b ≤ 122) || (48 ≤ b && b ≤ 57) || b ∈ [43, 47, 61]

/-- `std::to_string`. -/
def stdToString (n : ℕ) : StdString := (Nat.toDigits 10 n).map fun c ↦ UInt8.ofNat c.toNat

/-- The GET requests of the client. -/
inductive GetRequest where
  | info
  | download (offset : ℕ)

namespace GetRequest

/-- The URLs that `requestInfo` and `downloadFile` build. -/
def url (base64Encode : StdString → StdString) (name token : StdString) : GetRequest → StdString
  | info => ascii "info/" ++ base64Encode name ++ (ascii "&token=" ++ token)
  | download offset => ascii "download/" ++ base64Encode name ++
      (ascii "&token=" ++ token ++ (ascii "&offset=" ++ stdToString offset))

def method : GetRequest → StdString
  | info => ascii "info"
  | download _ => ascii "download"

/-- The parameters that the client sends. -/
def params (token : StdString) : GetRequest → AList (fun _ : StdString ↦ StdString)
  | info => (∅ : AList _).insert (ascii "token") token
  | download offset =>
    ((∅ : AList _).insert (ascii "token") token).insert (ascii "offset") (stdToString offset)

/-- What the server does for the request, if it has understood it. -/
def response (path : StdString) : GetRequest → Response
  | info => .serveInfo path
  | download offset => .serveContent path (.ofNat offset)

end GetRequest

/-- The method that the server finds in a URL. -/
def requestedMethod (url : StdString) : StdString :=
  let path := StdString.before url (StdString.find (ascii "&token") url)
  StdString.before path (path.idxOf? slash)

/-- The parameters that the server finds in a URL. -/
def queryParams (url : StdString) : AList (fun _ : StdString ↦ StdString) :=
  parseQueryParams (StdString.after url (StdString.find (ascii "&token") url))

/-! ## The offset -/

theorem digit_of_mem {n : ℕ} {c : Char} (h : c ∈ Nat.toDigits 10 n) :
    (UInt8.ofNat c.toNat).toNat = c.toNat ∧ HTTPResponse.isDigit (UInt8.ofNat c.toNat) = true := by
  have hdigits : ∀ n < 58, 48 ≤ n → (UInt8.ofNat n).toNat = n ∧
      HTTPResponse.isDigit (UInt8.ofNat n) = true := by decide
  obtain ⟨hlow, hhigh⟩ :=
    Char.isDigit_iff_toNat.mp (Nat.isDigit_of_mem_toDigits (by decide) (by decide) h)
  exact hdigits c.toNat (Nat.lt_succ_of_le hhigh) hlow

theorem all_isDigit (n : ℕ) : (stdToString n).all HTTPResponse.isDigit = true := by
  simp only [stdToString, List.all_map, List.all_eq_true]
  exact fun c hc ↦ (digit_of_mem hc).2

theorem decimal_stdToString (n : ℕ) : HTTPResponse.decimal (stdToString n) = some n := by
  have hfold : ∀ (digits : List Char) (init : ℕ), (∀ c ∈ digits, c ∈ Nat.toDigits 10 n) →
      (digits.map fun c ↦ UInt8.ofNat c.toNat).foldl (fun value byte ↦
        value * 10 + (byte.toNat - 48)) init = Nat.ofDigitChars 10 digits init := by
    intro digits
    induction digits with
    | nil => exact fun _ _ ↦ rfl
    | cons c digits ih =>
      intro init h
      rw [List.forall_mem_cons] at h
      rw [List.map_cons, List.foldl_cons, (digit_of_mem h.1).1, Nat.mul_comm]
      exact ih _ h.2
  rw [HTTPResponse.decimal, if_pos (all_isDigit n), stdToString, hfold _ _ fun _ h ↦ h,
    Nat.ofDigitChars_toDigits (by decide) (by decide)]

theorem stollUnsigned_stdToString {n : ℕ} (h : n < 2 ^ 63) :
    stollUnsigned (stdToString n) = some (.ofNat n) := by
  have hall := List.all_eq_true.mp (all_isDigit n)
  have hdecimal := decimal_stdToString n
  cases htext : stdToString n with
  | nil => exact absurd htext (by simp [stdToString])
  | cons byte rest =>
    rw [htext] at hall hdecimal
    -- A digit is neither white space nor a sign.
    have hbyte : HTTPResponse.isSpace byte = false ∧ byte ≠ 45 ∧ byte ≠ 43 := by
      have hdigit := hall byte List.mem_cons_self
      simp only [HTTPResponse.isDigit, HTTPResponse.isSpace] at hdigit ⊢
      grind
    have hdigits : (byte :: rest).takeWhile HTTPResponse.isDigit = byte :: rest :=
      List.takeWhile_eq_self_iff.mpr hall
    have hrest : (byte :: rest).dropWhile HTTPResponse.isSpace = byte :: rest :=
      List.dropWhile_cons_of_neg (by rw [hbyte.1]; exact Bool.false_ne_true)
    have hminus : ¬ (byte :: rest).head? = some 45 := fun h ↦ hbyte.2.1 (Option.some.inj h)
    have hsign : ¬ ((byte :: rest).head? = some 45 ∨ (byte :: rest).head? = some 43) :=
      not_or.mpr ⟨hminus, fun h ↦ hbyte.2.2 (Option.some.inj h)⟩
    have hmod : ((n : ℤ) % 2 ^ 64).toNat = n := by omega
    rw [stollUnsigned, stoll]
    simp only [hrest]
    simp only [if_neg hsign, hdigits, hdecimal, if_neg hminus]
    rw [if_neg (List.cons_ne_nil _ _), Option.bind_some, if_pos (by omega)]
    exact congrArg (some ∘ UInt64.ofNat) hmod

/-! ## Taking a URL apart -/

variable {front token : StdString}

theorem StdString.find_token (rest : StdString) (h : 38 ∉ front) :
    StdString.find (ascii "&token") (front ++ (ascii "&token" ++ rest)) = some front.length := by
  induction front with
  | nil => exact if_pos (List.prefix_append _ _)
  | cons c front ih =>
    rw [List.mem_cons, not_or] at h
    have hhead : ¬ ascii "&token" <+: c :: (front ++ (ascii "&token" ++ rest)) :=
      fun hstart ↦ h.1 (List.cons_prefix_cons.mp hstart).1
    rw [List.cons_append, StdString.find, if_neg hhead, ih h.2, Option.map_some, List.length_cons]

theorem split_url (rest : StdString) (h : 38 ∉ front) :
    let url := front ++ (ascii "&token" ++ rest)
    StdString.before url (StdString.find (ascii "&token") url) = front ∧
      StdString.after url (StdString.find (ascii "&token") url) = ascii "token" ++ rest := by
  intro url
  rw [StdString.find_token rest h]
  refine ⟨List.take_left, ?_⟩
  rw [StdString.after, List.drop_append, List.drop_of_length_le (Nat.le_succ _),
    Nat.add_sub_cancel_left, List.nil_append]
  rfl

theorem parseQueryParams_token (h : 38 ∉ ascii "token=" ++ token) :
    parseQueryParams (ascii "token=" ++ token) = GetRequest.info.params token := by
  rw [parseQueryParams, List.splitOn_eq_singleton h]
  rfl

theorem parseQueryParams_offset (h : 38 ∉ ascii "token=" ++ token) (offset : ℕ) :
    parseQueryParams (ascii "token=" ++ token ++ (ascii "&offset=" ++ stdToString offset)) =
      (GetRequest.download offset).params token := by
  have hdigits : 38 ∉ ascii "offset=" ++ stdToString offset := by
    rw [List.mem_append, not_or]
    exact ⟨by decide, fun hmem ↦ nomatch List.all_eq_true.mp (all_isDigit offset) 38 hmem⟩
  have hurl : ascii "token=" ++ token ++ (ascii "&offset=" ++ stdToString offset) =
      ascii "token=" ++ token ++ 38 :: (ascii "offset=" ++ stdToString offset) := rfl
  rw [hurl, parseQueryParams, List.splitOn_append_cons_self, List.splitOn_eq_singleton h,
    List.splitOn_eq_singleton hdigits]
  rfl

/-- The server understands each request of the client: it finds the method, the name, the token
and the offset that were put into the URL. -/
theorem GetRequest.onGet_url (environment : Environment) (binder : WebBinder)
    (base64Encode : StdString → StdString) (name token : StdString)
    (hdecode : environment.base64Decode (base64Encode name) = name)
    (halphabet : (base64Encode name).all isBase64 = true)
    (hstoll : environment.stoll = stollUnsigned) (htoken : 38 ∉ token) (request : GetRequest)
    (hoffset : ∀ offset, request = .download offset → offset < 2 ^ 63) :
    let url := request.url base64Encode name token
    requestedMethod url = request.method ∧ requestedName environment url = name ∧
      queryParams url = request.params token ∧
      onGet environment binder url =
        if environment.verifyToken token then
          if binder.getPath name = [] then .error 404 (ascii "Not found.")
          else request.response (binder.getPath name)
        else .error 404 (ascii "Invalid auth token!") := by
  have hfront : ∀ front : StdString, 38 ∉ front → 38 ∉ front ++ base64Encode name := by
    intro front h
    rw [List.mem_append, not_or]
    exact ⟨h, fun hmem ↦ nomatch List.all_eq_true.mp halphabet 38 hmem⟩
  have hquery : 38 ∉ ascii "token=" ++ token := by
    rw [List.mem_append, not_or]
    exact ⟨by decide, htoken⟩
  obtain ⟨rest, hurl, hparams⟩ : ∃ rest, request.url base64Encode name token =
      request.method ++ ascii "/" ++ base64Encode name ++ (ascii "&token" ++ rest) ∧
        parseQueryParams (ascii "token" ++ rest) = request.params token := by
    cases request with
    | info => exact ⟨_, rfl, parseQueryParams_token hquery⟩
    | download offset => exact ⟨_, rfl, parseQueryParams_offset hquery offset⟩
  have hmethods : 38 ∉ request.method ++ ascii "/" := by
    cases request with
    | info => exact (by decide : 38 ∉ ascii "info/")
    | download offset => exact (by decide : 38 ∉ ascii "download/")
  obtain ⟨hpath, hafter⟩ := split_url rest (hfront _ hmethods)
  rw [← hurl] at hpath hafter
  have hmethod : requestedMethod (request.url base64Encode name token) = request.method := by
    rw [requestedMethod, hpath]
    cases request <;> rfl
  have hname : requestedName environment (request.url base64Encode name token) = name := by
    rw [requestedName, hpath]
    cases request <;> exact hdecode
  have hquery : queryParams (request.url base64Encode name token) = request.params token := by
    rw [queryParams, hafter, hparams]
  refine ⟨hmethod, hname, hquery, ?_⟩
  rw [requestedMethod] at hmethod
  rw [queryParams] at hquery
  simp only [onGet, hmethod, hname, hquery]
  cases request with
  | info => rfl
  | download offset =>
    have hoffsets : ((GetRequest.download offset).params token).lookup (ascii "offset") =
        some (stdToString offset) := rfl
    have hne : stdToString offset ≠ [] := by simp [stdToString]
    simp only [hoffsets, Option.getD_some, if_neg hne, hstoll,
      stollUnsigned_stdToString (hoffset offset rfl)]
    rfl

/-- The URL `download/YSZi&token=t&offset=7` for the name `a&b`. -/
theorem GetRequest.onGet_url_download :
    onGet ⟨fun _ ↦ ascii "a&b", fun _ ↦ true, stollUnsigned⟩
        ⟨[(ascii "a&b", ascii "/h/a&b")]⟩
        ((GetRequest.download 7).url (fun _ ↦ ascii "YSZi") (ascii "a&b") (ascii "t")) =
      .serveContent (ascii "/h/a&b") 7 :=
  (GetRequest.onGet_url _ _ _ _ _ rfl (by decide) rfl (by decide) _
    (by rintro _ ⟨⟩; decide)).2.2.2

end DdeCooperation.Web
