import DdeCooperation.Coost.Path
import DdeCooperation.Foundations.Disk

/-!
# Files and texts of the coost library

`fs::mkdir` creates the directories that lead to a path and `fs::exists` asks for a path.
`fastring::replace` replaces every occurrence of a text, from left to right, where
`fastring::remove_prefix` removes only the one at the start.
-/

namespace DdeCooperation.Coost

open Foundations Foundations.ResolvedPath Web List

abbrev Storage := Disk UInt8 UInt8

/-- `path::dir`. -/
def dir (path : StdString) : StdString :=
  if slash ∈ path then clean (split path).1 else [dot]

section Calls

variable (cwd : Location UInt8)

def fsExists (path : StdString) (disk : Storage) : Bool := (disk.stat slash dot cwd path).isSome

/-- `::mkdir`. -/
def sysMkdir (path : StdString) (disk : Storage) : Storage × Bool :=
  match disk.mkdir slash dot cwd path with
  | some disk => (disk, true)
  | none => (disk, false)

/-- `fs::mkdir` with parents, where `outer` stands for the call that creates the parent. -/
def fsMkdirWith (outer : StdString → Storage → Storage × Bool) (path : StdString)
    (disk : Storage) : Storage × Bool :=
  let parent := (split path).1.dropLast
  -- There is no slash in the path, or only the one at its start.
  if parent = [] then sysMkdir cwd path disk
  else if fsExists cwd parent disk then sysMkdir cwd path disk
  else
    match outer parent disk with
    | (disk, true) => sysMkdir cwd path disk
    | (disk, false) => (disk, false)

def fsMkdirIn : ℕ → StdString → Storage → Storage × Bool
  | 0 => fsMkdirWith cwd fun _ disk ↦ (disk, false)
  | levels + 1 => fsMkdirWith cwd (fsMkdirIn levels)

/-- A parent is shorter than its path, so that its length is enough levels of recursion. -/
def fsMkdir (path : StdString) (disk : Storage) : Storage × Bool :=
  fsMkdirIn cwd path.length path disk

end Calls

/-! ## Replacement -/

/-- The rest of a replacement, after so many bytes that belong to the last occurrence. -/
def replaceFrom (sub other : StdString) : ℕ → StdString → StdString
  | _, [] => []
  | skip + 1, _ :: rest => replaceFrom sub other skip rest
  | 0, c :: rest =>
    if sub <+: c :: rest then other ++ replaceFrom sub other (sub.length - 1) rest
    else c :: replaceFrom sub other 0 rest

/-- `fastring::replace`. -/
def replace (text sub other : StdString) : StdString :=
  if sub = [] then text else replaceFrom sub other 0 text

/-- `fastring::remove_prefix`. -/
def removePrefix (text sub : StdString) : StdString :=
  if sub <+: text then text.drop sub.length else text

variable {sub other text : StdString}

theorem replaceFrom_eq_drop (sub other : StdString) (skip : ℕ) (text : StdString) :
    replaceFrom sub other skip text = replaceFrom sub other 0 (text.drop skip) := by
  induction text generalizing skip with
  | nil => cases skip <;> rfl
  | cons c text ih =>
    cases skip with
    | zero => rfl
    | succ skip => exact ih skip

/-- An occurrence at the start. -/
theorem replace_append (hsub : sub ≠ []) (other text : StdString) :
    replace (sub ++ text) sub other = other ++ replace text sub other := by
  rw [replace, replace, if_neg hsub, if_neg hsub]
  cases sub with
  | nil => exact absurd rfl hsub
  | cons c sub =>
    have hstart : c :: sub <+: c :: (sub ++ text) := prefix_append (c :: sub) text
    rw [cons_append, replaceFrom, if_pos hstart, replaceFrom_eq_drop]
    simp

theorem replaceFrom_of_not_part (h : ¬ sub <:+: text) : replaceFrom sub other 0 text = text := by
  induction text with
  | nil => rfl
  | cons c text ih =>
    rw [infix_cons_iff, not_or] at h
    rw [replaceFrom, if_neg h.1, ih h.2]

theorem length_replaceFrom_le (sub : StdString) (skip : ℕ) (text : StdString) :
    (replaceFrom sub [] skip text).length ≤ text.length := by
  induction text generalizing skip with
  | nil => cases skip <;> simp [replaceFrom]
  | cons c text ih =>
    cases skip with
    | succ skip => exact (ih skip).trans (Nat.le_succ _)
    | zero =>
      rw [replaceFrom]
      split_ifs
      · exact (ih _).trans (Nat.le_succ _)
      · exact Nat.succ_le_succ (ih 0)

theorem length_replaceFrom_lt (h : sub <:+: text) (hsub : sub ≠ []) :
    (replaceFrom sub [] 0 text).length < text.length := by
  induction text with
  | nil => exact absurd (infix_nil.mp h) hsub
  | cons c text ih =>
    rw [replaceFrom]
    split_ifs with hstart
    · exact Nat.lt_succ_of_le (length_replaceFrom_le sub _ text)
    · exact Nat.succ_lt_succ (ih ((infix_cons_iff.mp h).resolve_left hstart))

/-- Removing a text changes nothing if and only if it does not occur. -/
theorem replace_eq_self_iff (hsub : sub ≠ []) : replace text sub [] = text ↔ ¬ sub <:+: text := by
  rw [replace, if_neg hsub]
  constructor
  · intro heq hpart
    have hlength := length_replaceFrom_lt hpart hsub
    rw [heq] at hlength
    exact lt_irrefl _ hlength
  · exact replaceFrom_of_not_part

/-! ## Directories and their parents -/

section Calls

variable {cwd loc : Location UInt8} {name : StdString} {disk disk' : Storage}

theorem dir_pathTo (hname : slash ∉ name) (hloc : Ordinaries slash dot loc) :
    dir (pathTo slash (name :: loc)) = pathTo slash loc := by
  have hmem : slash ∈ pathTo slash (name :: loc) := mem_cons_self
  rw [dir, if_pos hmem, clean_absolute (head?_split_pathTo hname loc),
    location_split_pathTo hname hloc]

variable (hloc : Ordinaries slash dot loc)

include hloc

theorem fsExists_pathTo (hparent : disk.IsDir loc.tail) :
    fsExists cwd (pathTo slash loc) disk = (disk.node loc).isSome := by
  rw [fsExists, Disk.stat_pathTo hloc hparent]

/-- Where the parent is there, only the directory itself is created. -/
theorem fsMkdir_pathTo (hparent : disk.IsDir loc.tail) :
    fsMkdir cwd (pathTo slash loc) disk = sysMkdir cwd (pathTo slash loc) disk := by
  have hlevels : ∀ levels, ∃ outer, fsMkdirIn cwd levels = fsMkdirWith cwd outer := by
    intro levels
    cases levels with
    | zero | succ levels => exact ⟨_, rfl⟩
  obtain ⟨outer, houter⟩ := hlevels (pathTo slash loc).length
  rw [fsMkdir, houter, fsMkdirWith]
  cases loc with
  | nil => rw [if_pos (by decide)]
  | cons name loc =>
    replace hloc := forall_mem_cons.mp hloc
    rw [split_pathTo hloc.1.2.2.2, dropLast_concat]
    by_cases hroot : loc = []
    · rw [if_pos (by rw [hroot]; rfl)]
    · have hexists : fsExists cwd (spell slash loc.reverse) disk = true := by
        rw [← pathTo_eq_spell hroot, fsExists_pathTo hloc.2 (hparent.of_suffix (tail_suffix _)),
          show disk.node loc = some .directory from hparent]
        rfl
      rw [hexists, if_pos rfl, ite_self]

theorem sysMkdir_pathTo (hparent : disk.IsDir loc.tail) : sysMkdir cwd (pathTo slash loc) disk =
      match disk.makeDirectory loc with
      | some disk => (disk, true)
      | none => (disk, false) := by
  rw [sysMkdir, Disk.mkdir, Disk.find_pathTo hloc hparent, Option.bind_some]

/-- Nothing happens to a directory that is there. -/
theorem fsMkdir_of_isDir (h : disk.IsDir loc) :
    fsMkdir cwd (pathTo slash loc) disk = (disk, false) := by
  have hparent := h.of_suffix (tail_suffix loc)
  have hmake : disk.makeDirectory loc = none := by
    rw [Disk.makeDirectory, dif_neg fun hcond ↦ h.ne_none hcond.1]
  rw [fsMkdir_pathTo hloc hparent, sysMkdir_pathTo hloc hparent, hmake]

omit hloc

theorem fsMkdir_of_new (cwd : Location UInt8) (hloc : Ordinaries slash dot loc)
    (hnew : disk.node loc = none) (hparent : disk.IsDir loc.tail) :
    ∃ disk', fsMkdir cwd (pathTo slash loc) disk = (disk', true) ∧
      ∀ other, disk'.node other = if other = loc then some .directory else disk.node other := by
  obtain ⟨disk', hmake, hnode⟩ := Disk.makeDirectory_of hnew hparent
  exact ⟨disk', by rw [fsMkdir_pathTo hloc hparent, sysMkdir_pathTo hloc hparent, hmake], hnode⟩

end Calls

end DdeCooperation.Coost
