import DdeCooperation.Foundations.Buffered
import DdeCooperation.Web.Binder
import DdeCooperation.Web.Response

/-!
# Serving the content of a file

`serveContent` announces how many bytes follow and then sends the file in blocks, from an offset
at which an earlier download stopped. The offset is read as a signed number and used as an
unsigned one, and the file is only read from there if the offset is inside of it. The announced
length, on the other hand, is the difference of size and offset in every case. `exact_iff` says
for which offsets the announcement is right.
-/

namespace DdeCooperation.Web

open Foundations

/-! ## The offset -/

/-- `std::stoll`: white space, a sign and some digits, whatever follows them. -/
def stoll (text : StdString) : Option ℤ :=
  let rest := text.dropWhile HTTPResponse.isSpace
  let negative := rest.head? = some 45
  let rest := if negative ∨ rest.head? = some 43 then rest.tail else rest
  let digits := rest.takeWhile HTTPResponse.isDigit
  if digits = [] then none
  else
    (HTTPResponse.decimal digits).bind fun number ↦
      let value : ℤ := if negative then -number else number
      if -2 ^ 63 ≤ value ∧ value < 2 ^ 63 then some value else none

/-- `offset = std::stoll(offstr)` for an `offset` of type `size_t`. -/
def stollUnsigned (text : StdString) : Option UInt64 := (stoll text).map UInt64.ofInt

/-! ## The answer -/

/-- What is at the path that is served. -/
inductive OnDisk where
  | missing
  | directory
  | regular (content : List UInt8)
  /-- A link or a special file. -/
  | other

/-- What is sent. -/
inductive Sent where
  | notFound
  | empty
  | body (announced : UInt64) (blocks : List (List UInt8))
  | nothing
  deriving DecidableEq

/-- What the handler is told. -/
inductive ServerReport where
  | RES_OKHEADER (total : UInt64)
  | RES_BODY (size : ℕ)
  | RES_FINISH (total : UInt64)
  | RES_NOTFOUND
  deriving DecidableEq

namespace FileServer

def BLOCK_SIZE : ℕ := 4096

/-- `File::DEFAULT_BUFFER`. -/
def DEFAULT_BUFFER : ℕ := 8192

/-- The position the file is read from. -/
def start (content : List UInt8) (offset : UInt64) : ℕ :=
  if 0 < offset ∧ offset < UInt64.ofNat content.length then offset.toNat else 0

/-- `serveContent`, for a system that gives `share` bytes of what is left of the file, and a
handler that cancels after some of the blocks. -/
def serveContent (share : List UInt8 → ℕ) (cancels : ℕ → Bool) (offset : UInt64) :
    OnDisk → Sent × List ServerReport
  | .missing => (.notFound, [.RES_NOTFOUND])
  | .directory => (.empty, [])
  | .regular content =>
    let total := UInt64.ofNat content.length - offset
    let blocks := Buffered.blocks DEFAULT_BUFFER share BLOCK_SIZE cancels (content.length + 1) 0
      ⟨[], content.drop (start content offset)⟩
    (.body total blocks,
      .RES_OKHEADER total :: blocks.map (fun block ↦ .RES_BODY block.length) ++
        [.RES_FINISH total])
  | .other => (.nothing, [])

/-- The announced length is that of the body, which is the file from the offset on. -/
def Exact (content : List UInt8) (offset : UInt64) : Sent → Prop
  | .body announced blocks =>
    announced.toNat = blocks.flatten.length ∧ blocks.flatten = content.drop offset.toNat
  | .notFound | .empty | .nothing => False

instance (content : List UInt8) (offset : UInt64) : DecidablePred (Exact content offset)
  | .body _ _ => inferInstanceAs (Decidable (_ ∧ _))
  | .notFound | .empty | .nothing => isFalse id

variable {cancels : ℕ → Bool} {content : List UInt8} {offset : UInt64}

/-- What is sent of a file is all from the position on. -/
theorem serveContent_regular (share : List UInt8 → ℕ) (hcancels : ∀ index, cancels index = false) :
    ∃ blocks, blocks.flatten = content.drop (start content offset) ∧
      (serveContent share cancels offset (.regular content)).1 =
        .body (UInt64.ofNat content.length - offset) blocks := by
  refine ⟨_, ?_, rfl⟩
  refine Buffered.flatten_blocks (by decide) (by decide) hcancels 0 ?_
  change (content.drop (start content offset)).length < content.length + 1
  rw [List.length_drop]
  omega

theorem toNat_length (hsize : content.length < 2 ^ 63) :
    (UInt64.ofNat content.length).toNat = content.length :=
  UInt64.toNat_ofNat_of_lt' (by change _ < 2 ^ 64; omega)

theorem start_of_lt (h : offset.toNat < content.length) (hsize : content.length < 2 ^ 63) :
    start content offset = offset.toNat := by
  unfold start
  split_ifs with hinside
  · rfl
  · rw [UInt64.lt_iff_toNat_lt, UInt64.lt_iff_toNat_lt, toNat_length hsize] at hinside
    change ¬ (0 < offset.toNat ∧ _) at hinside
    omega

theorem start_of_le (h : content.length ≤ offset.toNat) (hsize : content.length < 2 ^ 63) :
    start content offset = 0 := by
  refine if_neg fun hinside ↦ ?_
  rw [UInt64.lt_iff_toNat_lt, UInt64.lt_iff_toNat_lt, toNat_length hsize] at hinside
  omega

/-- A request with the offset 5 for a file of 5 bytes announces nothing and sends all of it; one
with the offset -1 announces 6 bytes. -/
theorem not_exact_at_end :
    let content := [1, 2, 3, 4, 5]
    let request (offset : String) : Response := onGet
      ⟨id, fun _ ↦ true, stollUnsigned⟩ ⟨[(ascii "a", ascii "/h/a")]⟩
      (ascii "download/a&token=t&offset=" ++ ascii offset)
    let sent (offset : UInt64) : Sent :=
      (serveContent List.length (fun _ ↦ false) offset (.regular content)).1
    request "5" = .serveContent (ascii "/h/a") 5 ∧ sent 5 = .body 0 [content] ∧
      ¬ Exact content 5 (sent 5) ∧
      request "-1" = .serveContent (ascii "/h/a") (2 ^ 64 - 1) ∧
      sent (2 ^ 64 - 1) = .body 6 [content] ∧
      ¬ Exact content (2 ^ 64 - 1) (sent (2 ^ 64 - 1)) := by
  decide +kernel

/-- The answer is exact for the offsets inside of the file, and for an empty file that is
requested from its beginning. -/
theorem exact_iff (share : List UInt8 → ℕ) (hsize : content.length < 2 ^ 63)
    (hcancels : ∀ index, cancels index = false) (offset : UInt64) :
    Exact content offset (serveContent share cancels offset (.regular content)).1 ↔
      offset.toNat < content.length ∨ content = [] ∧ offset = 0 := by
  obtain ⟨blocks, hblocks, hsent⟩ := serveContent_regular share hcancels
  rw [hsent, Exact, hblocks]
  have hoffset := offset.toNat_lt
  have htotal : (UInt64.ofNat content.length - offset).toNat =
      (2 ^ 64 - offset.toNat + content.length) % 2 ^ 64 := by
    rw [UInt64.toNat_sub, toNat_length hsize]
  rw [htotal]
  rcases Nat.lt_or_ge offset.toNat content.length with hlt | hge
  · rw [start_of_lt hlt hsize, List.length_drop]
    simp only [hlt, true_or, iff_true, and_true]
    omega
  · rw [start_of_le hge hsize, List.drop_zero, List.drop_eq_nil_of_le hge]
    constructor
    · rintro ⟨hannounced, rfl⟩
      rw [List.length_nil] at hannounced
      refine .inr ⟨rfl, UInt64.toNat_inj.mp ?_⟩
      change offset.toNat = 0
      omega
    · rintro (hlt | ⟨rfl, rfl⟩)
      · omega
      · exact ⟨rfl, rfl⟩

/-- The second half of a small file. -/
theorem exact_inside :
    Exact [1, 2, 3, 4] 2
      (serveContent (fun _ ↦ 1) (fun _ ↦ false) 2 (.regular [1, 2, 3, 4])).1 :=
  (exact_iff (fun _ ↦ 1) (by decide) (fun _ ↦ rfl) 2).mpr (.inl (by decide))

end FileServer

end DdeCooperation.Web
