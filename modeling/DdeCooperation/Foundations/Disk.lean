import DdeCooperation.Foundations.Links

/-!
# A file system with the contents of its files

A disk says what is at each location: a directory, a file with its content, or nothing.
The root is a directory, and whatever is in a directory is below one. There are no links,
so that a path leads to the location it resolves to, if what it passes through are
directories.

The characters of names and of contents are arbitrary; `sep` and `dot` are parameters.
-/

namespace DdeCooperation.Foundations

open ResolvedPath List Option

variable {α β : Type*}

inductive Stored (β : Type*) where
  | directory
  | file (content : List β)
deriving DecidableEq

structure Disk (α β : Type*) where
  node : Location α → Option (Stored β)
  root : node [] = some .directory
  parents : ∀ name loc, node (name :: loc) ≠ none → node loc = some .directory

namespace Disk

variable {disk disk' : Disk α β} {loc other outer : Location α} {stored : Stored β}

def IsDir (disk : Disk α β) (loc : Location α) : Prop := disk.node loc = some .directory

instance [DecidableEq β] (disk : Disk α β) (loc : Location α) : Decidable (disk.IsDir loc) :=
  inferInstanceAs (Decidable (_ = _))

theorem isDir_root (disk : Disk α β) : disk.IsDir [] := disk.root

theorem isDir_tail (h : disk.node loc ≠ none) : disk.IsDir loc.tail := by
  cases loc with
  | nil => exact disk.root
  | cons name loc => exact disk.parents name loc h

theorem IsDir.ne_none (h : disk.IsDir loc) : disk.node loc ≠ none := by
  rw [show disk.node loc = some .directory from h]
  exact some_ne_none _

/-- What contains a directory is a directory. -/
theorem IsDir.of_suffix (h : disk.IsDir loc) (hsuffix : outer <:+ loc) : disk.IsDir outer := by
  induction loc with
  | nil => rwa [suffix_nil.mp hsuffix]
  | cons name loc ih =>
    rcases suffix_cons_iff.mp hsuffix with heq | hinner
    · rwa [heq]
    · exact ih (isDir_tail h.ne_none) hinner

/-- There is nothing below a place where there is nothing. -/
theorem node_eq_none_of_suffix (h : disk.node outer = none) (hsuffix : outer <:+ loc) :
    disk.node loc = none := by
  induction loc with
  | nil => rwa [← suffix_nil.mp hsuffix]
  | cons name loc ih =>
    rcases suffix_cons_iff.mp hsuffix with heq | hinner
    · rwa [← heq]
    · by_contra hnode
      have hdir : disk.node loc = some .directory := isDir_tail hnode
      rw [ih hinner] at hdir
      cases hdir

section Operations

variable [DecidableEq α]

/-- A node in a directory, where there is no directory yet. -/
def put (disk : Disk α β) (loc : Location α) (stored : Stored β) (hnew : ¬ disk.IsDir loc)
    (hparent : disk.IsDir loc.tail) : Disk α β where
  node := Function.update disk.node loc (some stored)
  root := by
    have hne : ([] : Location α) ≠ loc := by
      rintro rfl
      exact hnew disk.root
    rw [Function.update_of_ne hne]
    exact disk.root
  parents := by
    intro name outer hnode
    have hdir : disk.IsDir outer := by
      by_cases heq : name :: outer = loc
      · rwa [← heq] at hparent
      · rw [Function.update_of_ne heq] at hnode
        exact disk.parents name outer hnode
    have hne : outer ≠ loc := by
      rintro rfl
      exact hnew hdir
    rw [Function.update_of_ne hne]
    exact hdir

theorem node_put {hnew : ¬ disk.IsDir loc} {hparent : disk.IsDir loc.tail} :
    (disk.put loc stored hnew hparent).node other =
      if other = loc then some stored else disk.node other :=
  Function.update_apply _ _ _ _

/-- A content with other bytes from an offset on; a gap before it is filled. -/
def overwrite (zero : β) (content : List β) (offset : ℕ) (data : List β) : List β :=
  content.take offset ++ List.replicate (offset - content.length) zero ++ data ++
    content.drop (offset + data.length)

def writeAt (zero : β) (loc : Location α) (offset : ℕ) (data : List β) (disk : Disk α β) :
    Disk α β :=
  match h : disk.node loc with
  | some (.file content) =>
    disk.put loc (.file (overwrite zero content offset data)) (by simp [IsDir, h])
      (isDir_tail (by simp [h]))
  | some .directory | none => disk

variable {zero : β} {content data : List β} {offset : ℕ}

theorem node_writeAt (h : disk.node loc = some (.file content)) :
    (disk.writeAt zero loc offset data).node other =
      if other = loc then some (.file (overwrite zero content offset data)) else disk.node other := by
  unfold writeAt
  split
  · next content' hcontent =>
    rw [h, some.injEq, Stored.file.injEq] at hcontent
    rw [hcontent]
    exact node_put
  · next hdir => simp [h] at hdir
  · next hnone => simp [h] at hnone

/-- Writing where a content ends appends to it. -/
theorem overwrite_length (zero : β) (content data : List β) :
    overwrite zero content content.length data = content ++ data := by
  simp [overwrite]

variable [DecidableEq β]

/-- A new directory. -/
def makeDirectory (loc : Location α) (disk : Disk α β) : Option (Disk α β) :=
  if h : disk.node loc = none ∧ disk.IsDir loc.tail then
    some (disk.put loc .directory (fun hdir ↦ hdir.ne_none h.1) h.2)
  else none

/-- A file that is there, or a new one. -/
def openFile (loc : Location α) (disk : Disk α β) : Option (Disk α β) :=
  match disk.node loc with
  | some (.file _) => some disk
  | some .directory => none
  | none =>
    if h : disk.node loc = none ∧ disk.IsDir loc.tail then
      some (disk.put loc (.file []) (fun hdir ↦ hdir.ne_none h.1) h.2)
    else none

theorem makeDirectory_of (hnew : disk.node loc = none) (hparent : disk.IsDir loc.tail) :
    ∃ disk', disk.makeDirectory loc = some disk' ∧
      ∀ other, disk'.node other = if other = loc then some .directory else disk.node other := by
  rw [makeDirectory, dif_pos ⟨hnew, hparent⟩]
  exact ⟨_, rfl, fun _ ↦ node_put⟩

theorem openFile_of (hnew : disk.node loc = none) (hparent : disk.IsDir loc.tail) :
    ∃ disk', disk.openFile loc = some disk' ∧
      ∀ other, disk'.node other = if other = loc then some (.file []) else disk.node other := by
  simp only [openFile, hnew]
  rw [dif_pos ⟨trivial, hparent⟩]
  exact ⟨_, rfl, fun _ ↦ node_put⟩

end Operations

/-! ## Paths -/

section Paths

variable [DecidableEq α] [DecidableEq β] {sep dot : α} {cwd : Location α} {path : List α}

/-- Walking along components, which must be directories except for the last one. -/
def walk (dot : α) (disk : Disk α β) : Location α → List (List α) → Option (Location α)
  | loc, [] => some loc
  | loc, component :: rest =>
    if disk.IsDir loc then disk.walk dot (enter dot true loc component) rest else none

/-- The location a path leads to, whether or not there is anything. -/
def find (sep dot : α) (cwd : Location α) (path : List α) (disk : Disk α β) :
    Option (Location α) :=
  if path = [] then none else disk.walk dot (origin sep cwd path) (path.splitOn sep)

def stat (sep dot : α) (cwd : Location α) (path : List α) (disk : Disk α β) :
    Option (Stored β) :=
  (disk.find sep dot cwd path).bind disk.node

def mkdir (sep dot : α) (cwd : Location α) (path : List α) (disk : Disk α β) :
    Option (Disk α β) :=
  (disk.find sep dot cwd path).bind disk.makeDirectory

/-- The path without links to what there is. -/
def realpath (sep dot : α) (cwd : Location α) (disk : Disk α β) (path : List α) :
    Option (List α) :=
  (disk.find sep dot cwd path).bind fun loc ↦
    if disk.node loc = none then none else some (pathTo sep loc)

variable {components : List (List α)}

theorem walk_eq_foldl (h : disk.walk dot loc components = some other) :
    other = components.foldl (enter dot true) loc := by
  induction components generalizing loc with
  | nil => exact (some.inj h).symm
  | cons component components ih =>
    rw [walk] at h
    split_ifs at h
    exact ih h

theorem walk_ordinary (h : Ordinaries sep dot components)
    (hdir : ∀ inner, inner <+: components → inner ≠ components →
    disk.IsDir (inner.reverse ++ loc)) :
    disk.walk dot loc components = some (components.reverse ++ loc) := by
  induction components generalizing loc with
  | nil => rfl
  | cons component components ih =>
    replace h := forall_mem_cons.mp h
    have hloc : disk.IsDir loc := hdir [] (List.nil_prefix) (cons_ne_nil _ _).symm
    rw [walk, if_pos hloc, enter_ordinary h.1, reverse_cons, append_assoc, singleton_append]
    refine ih h.2 fun inner hstart hne ↦ ?_
    have hinner := hdir (component :: inner) (prefix_cons_inj component |>.mpr hstart)
      (fun heq ↦ hne (cons.inj heq).2)
    rwa [reverse_cons, append_assoc, singleton_append] at hinner

/-- The path to a location in a directory leads there. -/
theorem find_pathTo (h : Ordinaries sep dot loc)
    (hparent : disk.IsDir loc.tail) : disk.find sep dot cwd (pathTo sep loc) = some loc := by
  have horigin : origin sep cwd (pathTo sep loc) = [] := by simp [origin, pathTo]
  rw [find, if_neg (by simp [pathTo]), horigin,
    splitOn_pathTo fun component hmem ↦ (h component hmem).2.2.2, walk, if_pos disk.isDir_root,
    enter_skip (.inl rfl)]
  split_ifs with hroot
  · rw [walk, if_pos disk.isDir_root, enter_skip (.inl rfl), hroot, walk]
  · rw [walk_ordinary fun component hmem ↦ h component (mem_reverse.mp hmem)]
    · simp
    · intro inner hstart hne
      rw [append_nil]
      have hsuffix : inner.reverse <:+ loc := by
        rwa [← reverse_prefix, reverse_reverse]
      refine hparent.of_suffix ?_
      cases loc with
      | nil => exact absurd rfl hroot
      | cons name loc =>
        refine (suffix_cons_iff.mp hsuffix).resolve_left fun heq ↦ hne ?_
        rw [← heq, reverse_reverse]

theorem stat_pathTo (h : Ordinaries sep dot loc) (hparent : disk.IsDir loc.tail) :
    disk.stat sep dot cwd (pathTo sep loc) = disk.node loc := by
  rw [stat, find_pathTo h hparent, bind_some]

/-- What an absolute path leads to is at the location that it resolves to. -/
theorem find_eq_resolve (habsolute : path.head? = some sep)
    (h : disk.find sep dot cwd path = some loc) : loc = (resolve sep dot path).components := by
  unfold find at h
  split_ifs at h
  rw [origin, if_pos habsolute] at h
  rw [walk_eq_foldl h]
  simp [resolve, habsolute]

end Paths

end Disk

end DdeCooperation.Foundations
