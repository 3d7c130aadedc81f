import DdeCooperation.Foundations.FileSystem
import DdeCooperation.Web.Binder

/-!
# Paths and directories of BaseKit

`BaseKit::Path` is a string with methods that take it apart, written for Unix and
Windows at once: a backslash separates like a slash, and a colon ends a drive. On
Unix both are ordinary characters of a name, so what `parent` returns need not be the
directory that contains the path.

`BaseKit::Directory` and `BaseKit::File` make the system calls. A call takes the string
up to its first zero byte. An exception is an error of `Except`; a function that may
throw after it has changed the file system returns both.
-/

namespace DdeCooperation.BaseKit

open Foundations Web List

def backslash : UInt8 := 92
def colon : UInt8 := 58
def question : UInt8 := 63

def isSeparator (c : UInt8) : Bool := c = backslash || c = slash

/-- The bytes that end the scan for the last part of a path. -/
def isBreak (c : UInt8) : Bool := isSeparator c || c = colon

/-- The last byte that satisfies a condition, with what is before and after it. -/
def splitLast (p : UInt8 → Bool) : StdString → Option (StdString × UInt8 × StdString)
  | [] => none
  | c :: rest =>
    match splitLast p rest with
    | some (before, last, after) => some (c :: before, last, after)
    | none => if p c then some ([], c, rest) else none

namespace Path

def parent (path : StdString) : StdString :=
  match splitLast isBreak path with
  | none => []
  | some (before, last, name) =>
    if last = colon then []
    -- "\\net" or "//net"
    else if before.length = 1 ∧ before.all isSeparator then []
    -- "\\?\" or "C:\"
    else if before.getLast? = some question ∨ before.getLast? = some colon then
      if name = [] then [] else before ++ [last]
    else if before.rdropWhile isSeparator = [] then
      if 1 < path.length then path.take 1 else []
    else before.rdropWhile isSeparator

def filename (path : StdString) : StdString :=
  match splitLast isBreak path with
  | none => path
  | some (_, last, name) =>
    if name ≠ [] then name else if isSeparator last then [dot] else []

def append (path other : StdString) : StdString :=
  if path = [] then other
  else if path.getLast?.any isSeparator then path ++ other
  else path ++ slash :: other

end Path

/-! ## System calls -/

/-- `std::string::c_str`, as far as a system call reads it. -/
def cStr (text : StdString) : StdString := text.takeWhile (· ≠ 0)

section Calls

variable (process : Process UInt8)

def Path.type (path : StdString) (fs : FileSystem UInt8) : Except Refusal (Option Node) :=
  process.stat slash dot (cStr path) fs

def Path.isEquivalent (path other : StdString) (fs : FileSystem UInt8) : Except Refusal Bool :=
  match process.inode slash dot (cStr path) fs, process.inode slash dot (cStr other) fs with
  | some loc, some loc' => .ok (loc = loc')
  | _, _ => .error .refused

namespace Directory

def isDirectoryExists (path : StdString) (fs : FileSystem UInt8) : Except Refusal Bool :=
  (Path.type process path fs).map (· = some .directory)

def isDirectoryEmpty (path : StdString) (fs : FileSystem UInt8) : Except Refusal Bool :=
  match process.isDirectoryEmpty slash dot (cStr path) fs with
  | some empty => .ok empty
  | none => .error .refused

def create (path : StdString) (fs : FileSystem UInt8) : Except Refusal (FileSystem UInt8) :=
  match isDirectoryExists process path fs with
  | .error e => .error e
  | .ok true => .ok fs
  | .ok false =>
    match process.mkdir slash dot (cStr path) fs with
    | some fs => .ok fs
    | none => .error .refused

/-- `CreateTree`, where `outer` stands for the call that creates the parent. -/
def createTreeWith (outer : StdString → FileSystem UInt8 → FileSystem UInt8 × Except Refusal Unit)
    (path : StdString) (fs : FileSystem UInt8) : FileSystem UInt8 × Except Refusal Unit :=
  match isDirectoryExists process path fs with
  | .error e => (fs, .error e)
  | .ok true => (fs, .ok ())
  | .ok false =>
    match create process path fs with
    | .ok fs => (fs, .ok ())
    | .error _ =>
      if Path.parent path = [] then (fs, .error .refused)
      else
        match outer (Path.parent path) fs with
        | (fs, .error e) => (fs, .error e)
        | (fs, .ok ()) =>
          match create process path fs with
          | .ok fs => (fs, .ok ())
          | .error e => (fs, .error e)

def createTreeIn : ℕ → StdString → FileSystem UInt8 → FileSystem UInt8 × Except Refusal Unit
  | 0 => createTreeWith process fun _ fs ↦ (fs, .error .refused)
  | levels + 1 => createTreeWith process (createTreeIn levels)

/-- The parent of a path is shorter, so that its length is enough levels of recursion. -/
def createTree (path : StdString) (fs : FileSystem UInt8) :
    FileSystem UInt8 × Except Refusal Unit :=
  createTreeIn process path.length path fs

end Directory

namespace File

def writeEmpty (path : StdString) (fs : FileSystem UInt8) : Except Refusal (FileSystem UInt8) :=
  match process.creat slash dot (cStr path) fs with
  | some fs => .ok fs
  | none => .error .refused

end File

end Calls

/-! ## What the methods return -/

section Split

variable {p : UInt8 → Bool} {path before after : StdString} {last : UInt8}

theorem splitLast_eq_none : splitLast p path = none ↔ ∀ c ∈ path, p c = false := by
  induction path with
  | nil => simp [splitLast]
  | cons c rest ih =>
    rw [splitLast, forall_mem_cons]
    cases hrest : splitLast p rest with
    | some =>
      rw [hrest] at ih
      simp [← ih]
    | none =>
      rw [hrest] at ih
      have hclear := ih.mp rfl
      cases p c with
      | true => simp
      | false => simpa using hclear

theorem splitLast_append (hlast : p last = true) (hafter : ∀ c ∈ after, p c = false) :
    splitLast p (before ++ last :: after) = some (before, last, after) := by
  induction before with
  | nil => rw [nil_append, splitLast, splitLast_eq_none.mpr hafter, if_pos hlast]
  | cons c before ih => rw [cons_append, splitLast, ih]

theorem of_splitLast_eq_some (h : splitLast p path = some (before, last, after)) :
    path = before ++ last :: after ∧ p last = true ∧ ∀ c ∈ after, p c = false := by
  induction path generalizing before with
  | nil => cases h
  | cons c rest ih =>
    rw [splitLast] at h
    cases hrest : splitLast p rest with
    | some found =>
      rw [hrest] at h
      cases h
      obtain ⟨hpath, hlast⟩ := ih hrest
      exact ⟨congrArg (c :: ·) hpath, hlast⟩
    | none =>
      rw [hrest] at h
      by_cases hc : p c = true
      · rw [if_pos hc] at h
        cases h
        exact ⟨rfl, hc, splitLast_eq_none.mp hrest⟩
      · rw [if_neg hc] at h
        cases h

end Split

theorem noBreak_of_all {text : StdString} (h : (text.all fun b ↦ !isBreak b) = true) :
    ∀ b ∈ text, isBreak b = false := by
  intro b hmem
  have hb := all_eq_true.mp h b hmem
  rwa [Bool.not_eq_true'] at hb

variable {c : UInt8}

theorem isBreak_of_isSeparator (h : isSeparator c = true) : isBreak c = true := by
  rw [isBreak, h, Bool.true_or]

theorem ne_colon_of_isSeparator (h : isSeparator c = true) : c ≠ colon := by
  rintro rfl
  revert h
  decide

namespace Path

variable {path other outer before name : StdString} {c : UInt8}

/-- The parent of a path, when its last part follows a separator. -/
theorem parent_append_separator (before : StdString) (hc : isSeparator c = true)
    (hname : ∀ b ∈ name, isBreak b = false) :
    parent (before ++ c :: name) = if before.length = 1 ∧ before.all isSeparator then []
      else if before.getLast? = some question ∨ before.getLast? = some colon then
        if name = [] then [] else before ++ [c]
      else if before.rdropWhile isSeparator = [] then
        if 1 < (before ++ c :: name).length then (before ++ c :: name).take 1 else []
      else before.rdropWhile isSeparator := by
  simp only [parent, splitLast_append (isBreak_of_isSeparator hc) hname,
    if_neg (ne_colon_of_isSeparator hc)]

theorem parent_eq_nil_of_colon (hname : ∀ b ∈ name, isBreak b = false) :
    parent (before ++ colon :: name) = [] := by
  have hsplit : splitLast isBreak (before ++ colon :: name) = some (before, colon, name) :=
    splitLast_append rfl hname
  simp only [parent, hsplit, if_true]

theorem parent_of_noBreak (h : ∀ b ∈ path, isBreak b = false) : parent path = [] := by
  simp only [parent, splitLast_eq_none.mpr h]

/-- The last part of the path comes after a separator. -/
structure Cut (path before : StdString) (c : UInt8) (name : StdString) : Prop where
  eq : path = before ++ c :: name
  separator : isSeparator c = true
  name : ∀ b ∈ name, isBreak b = false

/-- What `parent` can return for a path: nothing, or the first byte, or the part through a
separator that a colon or a question mark comes before, or the part before the separators. -/
inductive ParentShape (path : StdString) : StdString → Prop
  | none : ParentShape path []
  | first {before : StdString} {c : UInt8} {name : StdString} (hcut : Cut path before c name)
      (hnil : before.rdropWhile isSeparator = []) (hlength : 1 < path.length) : ParentShape path (path.take 1)
  | drive {before : StdString} {c : UInt8} {name : StdString} (hcut : Cut path before c name)
      (hname : name ≠ [])
      (hbefore : before.getLast? = some question ∨ before.getLast? = some colon) :
      ParentShape path (before ++ [c])
  | plain {before : StdString} {c : UInt8} {name : StdString} (hcut : Cut path before c name)
      (hne : before.rdropWhile isSeparator ≠ []) :
      ParentShape path (before.rdropWhile isSeparator)

theorem parentShape (path : StdString) : ParentShape path (parent path) := by
  cases hsplit : splitLast isBreak path with
  | none =>
    rw [parent_of_noBreak (splitLast_eq_none.mp hsplit)]
    exact .none
  | some parts =>
    obtain ⟨before, c, name⟩ := parts
    obtain ⟨hpath, hbreak, hname⟩ := of_splitLast_eq_some hsplit
    by_cases hcolon : c = colon
    · rw [hpath, hcolon, parent_eq_nil_of_colon hname]
      exact .none
    · have hc : isSeparator c = true := by simpa [isBreak, hcolon] using hbreak
      have hcut : Cut path before c name := ⟨hpath, hc, hname⟩
      have hparent := parent_append_separator before hc hname
      rw [← hpath] at hparent
      rw [hparent]
      split_ifs with hnet hdrive hempty hnil hlength
      · exact .none
      · exact .none
      · exact .drive hcut hempty hdrive
      · exact .first hcut hnil hlength
      · exact .none
      · exact .plain hcut hnil

theorem parent_prefix (path : StdString) : parent path <+: path := by
  have hshape := parentShape path
  generalize parent path = result at hshape ⊢
  cases hshape with
  | none => exact nil_prefix
  | first => exact take_prefix 1 path
  | @drive before c name hcut =>
    rw [hcut.eq]
    exact ⟨name, append_assoc _ _ _⟩
  | plain hcut =>
    rw [hcut.eq]
    exact (List.rdropWhile_prefix _ _).trans (prefix_append _ _)

theorem length_parent_lt (h : path ≠ []) : (parent path).length < path.length := by
  have hshape := parentShape path
  generalize parent path = result at hshape ⊢
  cases hshape with
  | none => exact length_pos_iff.mpr h
  | first hcut hnil hlength =>
    rw [length_take]
    omega
  | drive hcut hname =>
    have hpos := length_pos_iff.mpr hname
    rw [hcut.eq]
    simp only [length_append, length_cons, length_nil]
    omega
  | @plain before c name hcut =>
    have hle := (List.rdropWhile_prefix isSeparator before).length_le
    rw [hcut.eq]
    simp only [length_append, length_cons]
    omega

variable {rest : StdString}

/-- What is followed by a separator is a beginning of what comes before the last one. -/
theorem Cut.prefix_before {d : UInt8} (hcut : Cut path before d name)
    (hpath : path = outer ++ c :: rest) (hc : isSeparator c = true) : outer <+: before := by
  rw [hpath] at hcut
  rcases append_eq_append_iff.mp hcut.eq with ⟨more, hbefore, -⟩ | ⟨more, houter, hrest⟩
  · exact ⟨more, hbefore.symm⟩
  · cases more with
    | nil =>
      rw [houter, append_nil]
    | cons e more =>
      obtain ⟨-, hname⟩ := cons.inj hrest
      have hmem : c ∈ name := by
        rw [hname]
        exact mem_append_right _ mem_cons_self
      have hbreak := hcut.name c hmem
      rw [isBreak_of_isSeparator hc] at hbreak
      cases hbreak

variable {b : UInt8}

theorem prefix_rdropWhile (h : outer ++ [b] <+: before) (hb : isSeparator b = false) :
    outer ++ [b] <+: before.rdropWhile isSeparator := by
  obtain ⟨rest, rfl⟩ := h
  induction rest using reverseRecOn with
  | nil => rw [append_nil, rdropWhile_concat_neg _ _ _ (by simp [hb])]
  | append_singleton rest last ih =>
    rw [← append_assoc]
    by_cases hlast : isSeparator last = true
    · rwa [rdropWhile_concat_pos _ _ _ hlast]
    · rw [rdropWhile_concat_neg _ _ _ hlast, append_assoc]
      exact prefix_append _ _

/-- What does not end in a separator and is followed by one is a beginning of the parent. -/
theorem prefix_parent (hpath : path = outer ++ [b] ++ c :: rest)
    (hb : isSeparator b = false) (hc : isSeparator c = true) :
    parent path = [] ∨ outer ++ [b] <+: parent path := by
  have hshape := parentShape path
  generalize parent path = result at hshape ⊢
  cases hshape with
  | none => exact .inl rfl
  | first hcut hnil =>
    have hprefix := prefix_rdropWhile (hcut.prefix_before hpath hc) hb
    rw [hnil, prefix_nil] at hprefix
    simp at hprefix
  | drive hcut =>
    exact .inr ((hcut.prefix_before hpath hc).trans (prefix_append _ _))
  | plain hcut => exact .inr (prefix_rdropWhile (hcut.prefix_before hpath hc) hb)

/-- A separator at the end of the path follows a colon or a question mark. -/
def Settled (path : StdString) : Prop := ∀ before c, path = before ++ [c] → isSeparator c = true →
  before.getLast? = some question ∨ before.getLast? = some colon

theorem settled_of_last (hb : isSeparator b = false) : Settled (outer ++ [b]) := by
  intro before c hpath hc
  rw [(append_singleton_inj.mp hpath).2, hc] at hb
  cases hb

theorem settled_parent (h : 1 < (parent path).length) : Settled (parent path) := by
  have hshape := parentShape path
  generalize parent path = result at hshape h ⊢
  cases hshape with
  | none => cases h
  | first =>
    rw [length_take] at h
    omega
  | drive hcut hname hbefore =>
    intro before' c' hpath _
    rwa [← (append_singleton_inj.mp hpath).1]
  | @plain before c name hcut hne =>
    intro before' c' hpath hc'
    have hlast := rdropWhile_last_not isSeparator before hne
    simp only [hpath, getLast_append_singleton] at hlast
    exact absurd hc' hlast

variable {last : UInt8}

theorem append_of_separator (hlast : isSeparator last = true) :
    append (before ++ [last]) name = before ++ last :: name := by
  simp [append, hlast]

theorem append_of_not_separator (hlast : isSeparator last = false) :
    append (before ++ [last]) name = before ++ [last] ++ slash :: name := by
  simp [append, hlast]

/-- The parent of what is appended to a path, up to a separator after a drive. -/
theorem parent_append (hpath : path ≠ []) (hsettled : Settled path) (hne : name ≠ [])
    (hname : ∀ b ∈ name, isBreak b = false) :
    parent (append path name) = path ∨
      (path.getLast? = some question ∨ path.getLast? = some colon) ∧
        parent (append path name) = path ++ [slash] := by
  obtain ⟨before, last, rfl⟩ := eq_nil_or_concat' path |>.resolve_left hpath
  cases hlast : isSeparator last with
  | true =>
    have hbefore := hsettled before last rfl hlast
    have hnet : ¬ (before.length = 1 ∧ before.all isSeparator = true) := by
      rintro ⟨hlength, hall⟩
      obtain ⟨b, rfl⟩ := length_eq_one_iff.mp hlength
      revert hall
      rcases hbefore with hb | hb <;> cases hb <;> decide
    left
    rw [append_of_separator hlast, parent_append_separator _ hlast hname, if_neg hnet,
      if_pos hbefore, if_neg hne]
  | false =>
    have hnet : ¬ ((before ++ [last]).length = 1 ∧ (before ++ [last]).all isSeparator = true) := by
      simp [hlast]
    have hdrop : (before ++ [last]).rdropWhile isSeparator = before ++ [last] :=
      rdropWhile_concat_neg _ _ _ (by simp [hlast])
    rw [append_of_not_separator hlast, parent_append_separator _ rfl hname, if_neg hnet]
    by_cases hdrive : (before ++ [last]).getLast? = some question ∨ (before ++ [last]).getLast? = some colon
    · right
      exact ⟨hdrive, by rw [if_pos hdrive, if_neg hne]⟩
    · left
      rw [if_neg hdrive, hdrop, if_neg hpath]

theorem parent_drive (h : path.getLast? = some question ∨ path.getLast? = some colon) :
    parent (path ++ [slash]) = [] := by
  have hnet : ¬ (path.length = 1 ∧ path.all isSeparator = true) := by
    rintro ⟨hlength, hall⟩
    obtain ⟨b, rfl⟩ := length_eq_one_iff.mp hlength
    revert hall
    rcases h with hb | hb <;> cases hb <;> decide
  have hnone : ∀ b ∈ ([] : StdString), isBreak b = false := by simp
  rw [parent_append_separator path rfl hnone, if_neg hnet, if_pos h, if_pos rfl]

theorem filename_noBreak (path : StdString) : ∀ b ∈ filename path, isBreak b = false := by
  unfold filename
  split
  · exact splitLast_eq_none.mp ‹_›
  · obtain ⟨-, -, hname⟩ := of_splitLast_eq_some ‹_›
    split_ifs
    · exact hname
    · exact noBreak_of_all rfl
    · simp

theorem filename_append (hne : name ≠ []) (hname : ∀ b ∈ name, isBreak b = false) :
    filename (append path name) = name := by
  have hcut : ∀ before c, isSeparator c = true → filename (before ++ c :: name) = name := by
    intro before c hc
    rw [filename, splitLast_append (isBreak_of_isSeparator hc) hname]
    exact if_pos hne
  rcases eq_nil_or_concat' path with rfl | ⟨before, last, rfl⟩
  · rw [append, if_pos rfl, filename, splitLast_eq_none.mpr hname]
  · cases hlast : isSeparator last with
    | true => rw [append_of_separator hlast, hcut before last hlast]
    | false => rw [append_of_not_separator hlast, hcut _ slash rfl]

end Path

/-! ## The recursion of `CreateTree` -/

namespace Directory

variable {process : Process UInt8} {path : StdString}

theorem createTreeWith_congr {fs : FileSystem UInt8}
    {f g : StdString → FileSystem UInt8 → FileSystem UInt8 × Except Refusal Unit}
    (h : Path.parent path ≠ [] → ∀ fs, f (Path.parent path) fs = g (Path.parent path) fs) :
    createTreeWith process f path fs = createTreeWith process g path fs := by
  unfold createTreeWith
  by_cases hparent : Path.parent path = []
  · simp only [if_pos hparent]
  · simp only [h hparent]

/-- What holds before and after the call that creates the parent, and is kept by creating the
directory itself. -/
theorem createTreeWith_induction {S : FileSystem UInt8 → Prop} {fs : FileSystem UInt8}
    {outer : StdString → FileSystem UInt8 → FileSystem UInt8 × Except Refusal Unit} (hfs : S fs)
    (houter : Path.parent path ≠ [] → S (outer (Path.parent path) fs).1)
    (hcreate : ∀ {fs fs'}, S fs → create process path fs = .ok fs' → S fs') :
    S (createTreeWith process outer path fs).1 := by
  unfold createTreeWith
  split
  · exact hfs
  · exact hfs
  · split
    · exact hcreate hfs ‹_›
    · split_ifs with hnil
      · exact hfs
      · have hway := houter hnil
        split
        · next hfailed => rwa [hfailed] at hway
        · next hdone =>
          rw [hdone] at hway
          split
          · exact hcreate hway ‹_›
          · exact hway

theorem parent_length_le {levels : ℕ} (hlevels : path.length ≤ levels + 1)
    (hparent : Path.parent path ≠ []) : (Path.parent path).length ≤ levels := by
  have hpath : path ≠ [] := by
    rintro rfl
    exact hparent rfl
  have hshorter := Path.length_parent_lt hpath
  omega

/-- More levels than the length of the path make no difference. -/
theorem createTreeIn_eq {m n : ℕ} (hm : path.length ≤ m) (hn : path.length ≤ n)
    (fs : FileSystem UInt8) : createTreeIn process m path fs = createTreeIn process n path fs := by
  induction m generalizing n path fs with
  | zero =>
    have hpath : path = [] := length_eq_zero_iff.mp (Nat.le_zero.mp hm)
    have hparent : ¬ Path.parent path ≠ [] := by
      rw [hpath]
      exact fun h ↦ h rfl
    cases n with
    | zero => rfl
    | succ n => exact createTreeWith_congr fun h ↦ absurd h hparent
  | succ m ih =>
    cases n with
    | zero =>
      have hpath : path = [] := length_eq_zero_iff.mp (Nat.le_zero.mp hn)
      exact createTreeWith_congr fun h ↦ absurd (by rw [hpath]; rfl) h
    | succ n =>
      exact createTreeWith_congr fun hparent ↦
        ih (parent_length_le hm hparent) (parent_length_le hn hparent)

/-- The recursion of the source. -/
theorem createTree_eq (path : StdString) (fs : FileSystem UInt8) :
    createTree process path fs = createTreeWith process (createTree process) path fs := by
  have hlevels : createTree process path fs = createTreeIn process (path.length + 1) path fs :=
    createTreeIn_eq le_rfl (Nat.le_succ _) fs
  rw [hlevels]
  exact createTreeWith_congr fun hparent ↦
    createTreeIn_eq (parent_length_le (Nat.le_succ _) hparent) le_rfl

end Directory

end DdeCooperation.BaseKit
