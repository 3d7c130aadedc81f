import DdeCooperation.BaseKit.Path

/-!
# Names for received files

A receiver stores what it is sent below its save directory. `createNextAvailableName`
takes a name from the remote, resolves it against the save directory, refuses it when the
result does not begin with that directory, and looks for an entry it may use: the path
itself, or the path with a number before its extension. `createNotExistPath` tries one
path: it creates it with its parents, or takes an existing entry if that is empty. When it
is not let and the name is long, it tries once more with the middle of the name left out.

The search for a number has no end in the source. Here it is given a number of rounds,
after which it is still `searching`.
-/

namespace DdeCooperation.Web

open Foundations BaseKit List ResolvedPath

variable {name filename path : StdString} {b : UInt8}

/-! ## `std::filesystem::path` -/

namespace StdPath

/-- `operator/`. -/
def join (path other : StdString) : StdString :=
  if other.head? = some slash then other
  else if path = [] ∨ path.getLast? = some slash then path ++ other
  else path ++ slash :: other

/-- The last component of the text resolves to a directory. -/
def endsOpen (path : StdString) : Prop :=
  (path.splitOn slash).getLast? ∈ [some [], some [dot], some [dot, dot]]

instance (path : StdString) : Decidable (endsOpen path) := inferInstanceAs (Decidable (_ ∈ _))

/-- `lexically_normal`: the resolved path, with a separator at its end where the text ends in
a directory. -/
def lexicallyNormal (path : StdString) : StdString :=
  if path = [] then []
  else
    let resolved := resolve slash dot path
    let root := if resolved.absolute then [slash] else []
    if resolved.components = [] then if resolved.absolute then [slash] else [dot]
    else if endsOpen path ∧ resolved.components.head? ≠ some [dot, dot] then
      root ++ [slash].intercalate resolved.components.reverse ++ [slash]
    else root ++ [slash].intercalate resolved.components.reverse

end StdPath

namespace FileClient

/-! ## One path -/

def nameMax : ℕ := 255

/-- A long name without its middle. -/
def shortName (filename : StdString) : StdString :=
  filename.take (nameMax / 3) ++ ascii "..." ++ filename.drop (filename.length - nameMax / 3)

section Attempt

variable (process : Process UInt8) (isfile : Bool)

/-- The result of one attempt: whether the path can be used, and the path. An empty path
says that the file system has thrown; the error says that this was not caught. -/
abbrev Attempt := FileSystem UInt8 × Except Refusal (Bool × StdString)

/-- The block that `createNotExistPath` guards: whether the path was created, and not there
before. -/
def tryCreate (path : StdString) (fs : FileSystem UInt8) :
    FileSystem UInt8 × Except Refusal Bool :=
  match Path.type process path fs with
  | .error e => (fs, .error e)
  | .ok (some _) => (fs, .ok false)
  | .ok none =>
    match Directory.createTree process (Path.parent path) fs with
    | (fs, .error e) => (fs, .error e)
    | (fs, .ok ()) =>
      match if isfile then File.writeEmpty process path fs else Directory.create process path fs with
      | .error e => (fs, .error e)
      | .ok fs => (fs, .ok true)

/-- Whether what is there already is empty. A directory will do for a file. -/
def isUsable (path : StdString) (fs : FileSystem UInt8) : Except Refusal Bool :=
  match Path.type process path fs with
  | .error e => .error e
  | .ok none => if isfile then .error .refused else Directory.isDirectoryEmpty process path fs
  | .ok (some .directory) => Directory.isDirectoryEmpty process path fs
  | .ok (some (.file size)) =>
    if isfile then .ok (size = 0) else Directory.isDirectoryEmpty process path fs

/-- `createNotExistPath`, where `again` stands for the call with a shortened name. -/
def createNotExistPathWith (again : StdString → FileSystem UInt8 → Attempt) (path : StdString)
    (fs : FileSystem UInt8) : Attempt :=
  match tryCreate process isfile path fs with
  | (fs, .ok true) => (fs, .ok (true, path))
  | (fs, .ok false) => (fs, (isUsable process isfile path fs).map fun usable ↦ (usable, path))
  | (fs, .error _) =>
    if nameMax ≤ (Path.filename path).length then
      again (Path.append (Path.parent path) (shortName (Path.filename path))) fs
    else (fs, .ok (false, []))

/-- A shortened name is not shortened again. -/
def createNotExistPath : StdString → FileSystem UInt8 → Attempt :=
  createNotExistPathWith process isfile
    (createNotExistPathWith process isfile fun _ fs ↦ (fs, .ok (false, [])))

end Attempt

/-! ## The search for a path -/

inductive Outcome where
  | returned (path : StdString)
  | thrown
  | searching
deriving DecidableEq

/-- The decimal text of a number in parentheses. -/
def tag (i : ℕ) : StdString :=
  ascii "(" ++ (Nat.toDigits 10 i).map (fun c ↦ UInt8.ofNat c.toNat) ++ ascii ")"

/-- The number goes before the last dot. -/
def numbered (filename : StdString) (i : ℕ) : StdString :=
  match splitLast (· = dot) filename with
  | none => filename ++ tag i
  | some (before, c, after) => before ++ tag i ++ c :: after

def target (savedir name : StdString) : StdString :=
  StdPath.lexicallyNormal (StdPath.join savedir name)

def base (savedir : StdString) : StdString :=
  (StdPath.lexicallyNormal savedir).rdropWhile isSeparator

/-- The check that a target is in the base directory. -/
def passes (target base : StdString) : Prop :=
  target = base ∨ base <+: target ∧ (target.drop base.length).head?.any isSeparator

instance (target base : StdString) : Decidable (passes target base) :=
  inferInstanceAs (Decidable (_ ∨ _ ∧ _))

section Search

variable (process : Process UInt8) (isfile : Bool)

/-- A file in the home directory goes to a directory there. -/
def redirect (home : Option StdString) (path : StdString) (fs : FileSystem UInt8) : StdString :=
  if isfile then
    match home with
    | none => path
    | some home =>
      match Path.isEquivalent process (Path.parent path) home fs with
      | .ok true =>
        Path.append (Path.append (Path.parent path) (ascii "Download")) (Path.filename path)
      | _ => path
  else path

/-- The loop, from the number `i` on. -/
def search (parent filename : StdString) : ℕ → ℕ → FileSystem UInt8 → FileSystem UInt8 × Outcome
  | 0, _, fs => (fs, .searching)
  | rounds + 1, i, fs =>
    match createNotExistPath process isfile (Path.append parent (numbered filename i)) fs with
    | (fs, .error _) => (fs, .thrown)
    | (fs, .ok (true, path)) => (fs, .returned path)
    | (fs, .ok (false, path)) =>
      if path = [] then (fs, .returned []) else search parent filename rounds (i + 1) fs

def createNextAvailableName (home : Option StdString) (savedir : StdString) (rounds : ℕ)
    (name : StdString) (fs : FileSystem UInt8) : FileSystem UInt8 × Outcome :=
  if passes (target savedir name) (base savedir) then
    let path := redirect process isfile home (target savedir name) fs
    match createNotExistPath process isfile path fs with
    | (fs, .error _) => (fs, .thrown)
    | (fs, .ok (true, path)) => (fs, .returned path)
    | (fs, .ok (false, _)) =>
      search process isfile (Path.parent path) (Path.filename path) rounds 1 fs
  else (fs, .returned [])

end Search

/-! ## Names that the client makes -/

/-- A name that leads one level down, for the system and for `BaseKit::Path` alike. -/
structure Leaf (name : StdString) : Prop where
  ordinary : Ordinary slash dot name
  noBreak : ∀ b ∈ name, isBreak b = false
  noZero : 0 ∉ name

theorem Leaf.ne_nil (h : Leaf name) : name ≠ [] := h.ordinary.1

theorem slash_not_mem (h : ∀ b ∈ name, isBreak b = false) : slash ∉ name :=
  fun hmem ↦ nomatch h slash hmem

theorem leaf_of_long (hlength : 2 < name.length)
    (hbreak : ∀ b ∈ name, isBreak b = false) (hzero : 0 ∉ name) : Leaf name := by
  refine ⟨⟨?_, ?_, ?_, slash_not_mem hbreak⟩, hbreak, hzero⟩ <;> rintro rfl <;> revert hlength <;>
    decide

theorem length_shortName (h : nameMax ≤ filename.length) : (shortName filename).length = 173 := by
  have hdots : (ascii "...").length = 3 := by decide
  rw [nameMax] at h
  simp only [shortName, nameMax, length_append, length_take, length_drop, hdots]
  omega

theorem mem_shortName (h : b ∈ shortName filename) : b ∈ filename ∨ b = dot := by
  rcases mem_append.mp h with h | hsuffix
  · rcases mem_append.mp h with hprefix | hdots
    · exact .inl (mem_of_mem_take hprefix)
    · right
      have hall : (ascii "...").all (· = dot) = true := by decide
      exact of_decide_eq_true (all_eq_true.mp hall b hdots)
  · exact .inl (mem_of_mem_drop hsuffix)

theorem leaf_shortName (hlength : nameMax ≤ filename.length)
    (hbreak : ∀ b ∈ filename, isBreak b = false) (hzero : 0 ∉ filename) :
    Leaf (shortName filename) := by
  apply leaf_of_long
  · rw [length_shortName hlength]
    decide
  · intro b hmem
    rcases mem_shortName hmem with hold | rfl
    · exact hbreak b hold
    · decide
  · intro hmem
    rcases mem_shortName hmem with hold | hdot
    · exact hzero hold
    · cases hdot

theorem digit_clean {c : Char} (h : c.isDigit = true) :
    isBreak (UInt8.ofNat c.toNat) = false ∧ UInt8.ofNat c.toNat ≠ 0 := by
  have hdigits : ∀ n < 58, 48 ≤ n → isBreak (UInt8.ofNat n) = false ∧ UInt8.ofNat n ≠ 0 := by
    decide
  obtain ⟨hlow, hhigh⟩ := Char.isDigit_iff_toNat.mp h
  exact hdigits c.toNat (Nat.lt_succ_of_le hhigh) hlow

theorem tag_clean {i : ℕ} (h : b ∈ tag i) : isBreak b = false ∧ b ≠ 0 := by
  have hparens : ∀ text, text = ascii "(" ∨ text = ascii ")" → b ∈ text → isBreak b = false ∧ b ≠ 0 := by
    rintro text (rfl | rfl) hmem <;> rw [mem_singleton.mp hmem] <;> decide
  rcases mem_append.mp h with h | hright
  · rcases mem_append.mp h with hleft | hdigits
    · exact hparens _ (.inl rfl) hleft
    · obtain ⟨c, hc, rfl⟩ := mem_map.mp hdigits
      exact digit_clean (Nat.isDigit_of_mem_toDigits (by decide) (by decide) hc)
  · exact hparens _ (.inr rfl) hright

theorem mem_numbered {i : ℕ} (h : b ∈ numbered filename i) : b ∈ filename ∨ b ∈ tag i := by
  unfold numbered at h
  split at h
  · exact mem_append.mp h
  · obtain ⟨hname, -, -⟩ := of_splitLast_eq_some ‹_›
    rw [hname]
    simp only [mem_append, mem_cons] at h ⊢
    tauto

theorem paren_mem_numbered (filename : StdString) (i : ℕ) : 40 ∈ numbered filename i := by
  have htag : 40 ∈ tag i := mem_append_left _ (mem_append_left _ (by decide))
  unfold numbered
  split
  · exact mem_append_right _ htag
  · exact mem_append_left _ (mem_append_right _ htag)

theorem leaf_numbered (hbreak : ∀ b ∈ filename, isBreak b = false)
    (hzero : 0 ∉ filename) (i : ℕ) : Leaf (numbered filename i) := by
  have hparen := paren_mem_numbered filename i
  have hclean : ∀ b ∈ numbered filename i, isBreak b = false := by
    intro b hmem
    rcases mem_numbered hmem with hold | hnew
    · exact hbreak b hold
    · exact (tag_clean hnew).1
  refine ⟨⟨?_, ?_, ?_, slash_not_mem hclean⟩, hclean, ?_⟩
  · intro hnil
    rw [hnil] at hparen
    cases hparen
  · intro hdot
    rw [hdot] at hparen
    revert hparen
    decide
  · intro hdots
    rw [hdots] at hparen
    revert hparen
    decide
  · intro hmem
    rcases mem_numbered hmem with hold | hnew
    · exact hzero hold
    · exact (tag_clean hnew).2 rfl

/-- A long path with its name shortened. -/
def shortPath (path : StdString) : StdString :=
  Path.append (Path.parent path) (shortName (Path.filename path))

theorem filename_shortPath (hlong : nameMax ≤ (Path.filename path).length) :
    Path.filename (shortPath path) = shortName (Path.filename path) := by
  apply Path.filename_append
  · intro hnil
    have hlength := length_shortName hlong
    rw [hnil] at hlength
    cases hlength
  · intro b hmem
    rcases mem_shortName hmem with hold | rfl
    · exact Path.filename_noBreak path b hold
    · decide

end FileClient

/-! ## Normal forms of absolute paths -/

namespace StdPath

/-- The normal form spells the resolved components, perhaps with a separator behind them. -/
theorem lexicallyNormal_absolute (h : path.head? = some slash) :
    ∃ ending : List StdString, (ending = [] ∨ ending = [[]]) ∧
      ((resolve slash dot path).components = [] → ending = [[]]) ∧
      lexicallyNormal path =
        spell slash ((resolve slash dot path).components.reverse ++ ending) := by
  have hne : path ≠ [] := by
    rintro rfl
    cases h
  have habsolute : (resolve slash dot path).absolute = true := decide_eq_true h
  unfold lexicallyNormal
  rw [if_neg hne]
  simp only [habsolute, if_true]
  by_cases hroot : (resolve slash dot path).components = []
  · refine ⟨[[]], .inr rfl, fun _ ↦ rfl, ?_⟩
    rw [if_pos hroot, hroot]
    rfl
  · have hrev : (resolve slash dot path).components.reverse ≠ [] :=
      fun hnil ↦ hroot (reverse_eq_nil_iff.mp hnil)
    rw [if_neg hroot, singleton_append, cons_intercalate hrev]
    split_ifs
    · exact ⟨[[]], .inr rfl, fun hnil ↦ absurd hnil hroot, spell_concat.symm⟩
    · exact ⟨[], .inl rfl, fun hnil ↦ absurd hnil hroot, by rw [append_nil]⟩

theorem lexicallyNormal_closed (habsolute : path.head? = some slash)
    (hne : (resolve slash dot path).components ≠ []) (hclosed : ¬ endsOpen path) :
    lexicallyNormal path = spell slash (resolve slash dot path).components.reverse := by
  have hpath : path ≠ [] := by
    rintro rfl
    cases habsolute
  have hroot : (resolve slash dot path).absolute = true := decide_eq_true habsolute
  have hrev : (resolve slash dot path).components.reverse ≠ [] :=
    fun hnil ↦ hne (reverse_eq_nil_iff.mp hnil)
  rw [lexicallyNormal, if_neg hpath]
  simp only [hroot, if_true]
  rw [if_neg hne, if_neg fun h ↦ hclosed h.1, singleton_append, cons_intercalate hrev]

theorem join_absolute (h : path.head? = some slash) (other : StdString) :
    (join path other).head? = some slash := by
  have hne : path ≠ [] := by
    rintro rfl
    cases h
  unfold join
  split_ifs with hother
  · exact hother
  · rw [head?_append_of_ne_nil _ hne]
    exact h
  · rw [head?_append_of_ne_nil _ hne]
    exact h

/-- The absolute path to a location is normal. -/
theorem lexicallyNormal_pathTo {loc : Location UInt8} (h : Ordinaries slash dot loc) :
    lexicallyNormal (pathTo slash loc) = pathTo slash loc := by
  have habsolute : (pathTo slash loc).head? = some slash := rfl
  have hcomponents := resolve_pathTo h
  cases loc with
  | nil => decide
  | cons name loc =>
    have hname := h name mem_cons_self
    have hclosed : ¬ endsOpen (pathTo slash (name :: loc)) := by
      rw [endsOpen, splitOn_pathTo fun component hmem ↦ (h component hmem).2.2.2,
        if_neg (cons_ne_nil _ _), reverse_cons, ← cons_append,
        getLast?_concat]
      simp [hname.1, hname.2.1, hname.2.2.1]
    rw [lexicallyNormal_closed habsolute (by simp [hcomponents]) hclosed, hcomponents,
      pathTo_eq_spell (cons_ne_nil _ _)]

end StdPath

end DdeCooperation.Web
