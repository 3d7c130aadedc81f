import DdeCooperation.Foundations.Disk

/-!
# Trees of files in a directory

A `Forest` is what a directory contains: files with their contents and directories with
what they contain, in the order in which the system lists them. `Overlaid` says that a disk
is another one with a forest planted in a directory. A forest can be planted entry by entry
in this order.
-/

namespace DdeCooperation.Foundations

variable {α β : Type*}

inductive Forest (α β : Type*) where
  | nil
  | file (name : List α) (content : List β) (rest : Forest α β)
  | directory (name : List α) (inner rest : Forest α β)

namespace Forest

/-- The names of the entries. -/
def names : Forest α β → List (List α)
  | nil => []
  | file name _ rest => name :: rest.names
  | directory name _ rest => name :: rest.names

/-- The paths of the directories, each with its outermost name first. -/
def directories : Forest α β → List (List (List α))
  | nil => []
  | file _ _ rest => rest.directories
  | directory name inner rest =>
    [name] :: (inner.directories.map (name :: ·) ++ rest.directories)

/-- The contents of the files. -/
def contents : Forest α β → List (List β)
  | nil => []
  | file _ content rest => content :: rest.contents
  | directory _ inner rest => inner.contents ++ rest.contents

/-- The number of files and directories. -/
def size : Forest α β → ℕ
  | nil => 0
  | file _ _ rest => rest.size + 1
  | directory _ inner rest => inner.size + rest.size + 1

/-- Every name has a property, and the entries of a directory have different names. -/
def Proper (p : List α → Prop) : Forest α β → Prop
  | nil => True
  | file name _ rest => p name ∧ name ∉ rest.names ∧ rest.Proper p
  | directory name inner rest => p name ∧ name ∉ rest.names ∧ inner.Proper p ∧ rest.Proper p

variable {p : List α → Prop} {forest : Forest α β}

theorem Proper.mem_names {first : List α} (h : forest.Proper p) (hfirst : first ∈ forest.names) :
    p first := by
  induction forest with
  | nil => cases hfirst
  | file name content rest ih =>
    rcases List.mem_cons.mp hfirst with rfl | hrest
    · exact h.1
    · exact ih h.2.2 hrest
  | directory name inner rest _ ih =>
    rcases List.mem_cons.mp hfirst with rfl | hrest
    · exact h.1
    · exact ih h.2.2.2 hrest

theorem Proper.mono {q : List α → Prop} (hpq : ∀ name, p name → q name) (h : forest.Proper p) :
    forest.Proper q := by
  induction forest with
  | nil => trivial
  | file name content rest ih => exact ⟨hpq name h.1, h.2.1, ih h.2.2⟩
  | directory name inner rest ihInner ihRest =>
    exact ⟨hpq name h.1, h.2.1, ihInner h.2.2.1, ihRest h.2.2.2⟩

section Lookup

variable [DecidableEq α]

/-- What is under a path of names, the outermost first. -/
def lookup : Forest α β → List (List α) → Option (Stored β)
  | nil, _ => none
  | file _ _ _, [] => none
  | directory _ _ _, [] => none
  | file name content rest, first :: path =>
    if first = name then if path = [] then some (.file content) else none
    else rest.lookup (first :: path)
  | directory name inner rest, first :: path =>
    if first = name then if path = [] then some .directory else inner.lookup path
    else rest.lookup (first :: path)

variable {forest : Forest α β} {first : List α} {path : List (List α)}

theorem lookup_eq_none (h : first ∉ forest.names) : forest.lookup (first :: path) = none := by
  induction forest with
  | nil => rfl
  | file name content rest ih | directory name inner rest _ ih =>
    rw [names, List.mem_cons, not_or] at h
    rw [lookup, if_neg h.1, ih h.2]

end Lookup

end Forest

section Locations

variable {loc other : Location α} {name first : List α}

theorem suffix_iff_eq {front : Location α} : name :: loc <:+ front ++ first :: loc ↔ first = name := by
  constructor
  · rintro ⟨front', heq⟩
    have hlength := congrArg List.length heq
    simp only [List.length_append, List.length_cons] at hlength
    have hfront : front'.length = front.length := by omega
    exact ((List.cons.inj (List.append_inj heq hfront).2).1).symm
  · rintro rfl
    exact List.suffix_append _ _

end Locations

namespace Disk

open Forest List

variable {disk disk₁ disk₂ disk' : Disk α β} {loc other : Location α} {name : List α}
  {content : List β} {stored : Stored β} {inner rest forest : Forest α β}

section Placed

variable [DecidableEq α]

/-- The disk is another one with a node at a location. -/
def Placed (disk : Disk α β) (loc : Location α) (stored : Stored β) (disk' : Disk α β) : Prop :=
  ∀ other, disk'.node other = if other = loc then some stored else disk.node other

theorem Placed.node_self (h : disk.Placed loc stored disk') : disk'.node loc = some stored := by
  rw [h, if_pos rfl]

theorem Placed.node_ne (h : disk.Placed loc stored disk') (hne : other ≠ loc) :
    disk'.node other = disk.node other := by
  rw [h, if_neg hne]

/-- Only the last of two nodes at a location counts. -/
theorem Placed.trans {stored' : Stored β} (h : disk.Placed loc stored disk₁)
    (h' : disk₁.Placed loc stored' disk') : disk.Placed loc stored' disk' := by
  intro other
  rw [h']
  split_ifs with heq
  · rfl
  · exact h.node_ne heq

end Placed

variable [DecidableEq α]

/-- The disk is another one with the forest in the directory at a location. -/
structure Overlaid (disk : Disk α β) (loc : Location α) (forest : Forest α β)
    (disk' : Disk α β) : Prop where
  entries : ∀ first ∈ forest.names, ∀ path,
    disk'.node (path.reverse ++ first :: loc) = forest.lookup (first :: path)
  elsewhere : ∀ other, (∀ first ∈ forest.names, ¬ first :: loc <:+ other) →
    disk'.node other = disk.node other

theorem overlaid_nil (disk : Disk α β) (loc : Location α) : disk.Overlaid loc .nil disk :=
  ⟨fun _ h ↦ absurd h not_mem_nil, fun _ _ ↦ rfl⟩

theorem Overlaid.node_loc (h : disk.Overlaid loc forest disk') : disk'.node loc = disk.node loc :=
  h.elsewhere loc fun _ _ ↦ not_suffix_cons_self

/-- Below an entry of another name nothing changes. -/
theorem Overlaid.node_of_not_mem (h : disk.Overlaid loc forest disk') (hname : name ∉ forest.names)
    (front : Location α) : disk'.node (front ++ name :: loc) = disk.node (front ++ name :: loc) := by
  refine h.elsewhere _ fun first hfirst hsuffix ↦ hname ?_
  rwa [suffix_iff_eq.mp hsuffix]

/-- In a directory that was empty there is nothing but the forest. -/
theorem Overlaid.node_eq_lookup (h : disk.Overlaid loc forest disk')
    (hempty : ∀ first, disk.node (first :: loc) = none) {names : List (List α)} (hne : names ≠ []) :
    disk'.node (names.reverse ++ loc) = forest.lookup names := by
  cases names with
  | nil => exact absurd rfl hne
  | cons first path =>
    rw [reverse_cons, append_assoc, singleton_append]
    by_cases hfirst : first ∈ forest.names
    · exact h.entries first hfirst path
    · rw [h.node_of_not_mem hfirst, lookup_eq_none hfirst]
      exact node_eq_none_of_suffix (hempty first) (suffix_append _ _)

/-- A file and then the rest. -/
theorem Overlaid.file (hnone : disk.node (name :: loc) = none)
    (hplaced : disk.Placed (name :: loc) (.file content) disk₁)
    (hrest : disk₁.Overlaid loc rest disk') (hname : name ∉ rest.names) :
    disk.Overlaid loc (.file name content rest) disk' := by
  constructor
  · intro first hfirst path
    rw [Forest.lookup]
    split_ifs with heq hpath
    · rw [heq, hpath, reverse_nil, nil_append, ← nil_append (name :: loc),
        hrest.node_of_not_mem hname, nil_append, hplaced.node_self]
    · have hne : path.reverse ++ name :: loc ≠ name :: loc := by simpa using hpath
      rw [heq, hrest.node_of_not_mem hname, hplaced.node_ne hne]
      exact node_eq_none_of_suffix hnone (suffix_append _ _)
    · exact hrest.entries first ((mem_cons.mp hfirst).resolve_left heq) path
  · intro other hother
    rw [Forest.names, forall_mem_cons] at hother
    rw [hrest.elsewhere other hother.2]
    refine hplaced.node_ne ?_
    rintro rfl
    exact hother.1 suffix_rfl

/-- A directory, what it contains, and then the rest. -/
theorem Overlaid.directory (hnone : disk.node (name :: loc) = none)
    (hplaced : disk.Placed (name :: loc) .directory disk₁)
    (hinner : disk₁.Overlaid (name :: loc) inner disk₂) (hrest : disk₂.Overlaid loc rest disk')
    (hname : name ∉ rest.names) : disk.Overlaid loc (.directory name inner rest) disk' := by
  constructor
  · intro first hfirst path
    rw [Forest.lookup]
    split_ifs with heq hpath
    · rw [heq, hpath, reverse_nil, nil_append, ← nil_append (name :: loc),
        hrest.node_of_not_mem hname, nil_append, hinner.node_loc, hplaced.node_self]
    · rw [heq, hrest.node_of_not_mem hname]
      cases path with
      | nil => exact absurd rfl hpath
      | cons second path =>
        rw [reverse_cons, append_assoc, singleton_append]
        by_cases hsecond : second ∈ inner.names
        · exact hinner.entries second hsecond path
        · have hne : path.reverse ++ second :: name :: loc ≠ name :: loc := by
            intro heq
            have hlength := congrArg length heq
            simp only [length_append, length_cons] at hlength
            omega
          rw [hinner.node_of_not_mem hsecond, hplaced.node_ne hne, lookup_eq_none hsecond]
          exact node_eq_none_of_suffix hnone ((suffix_cons _ _).trans (suffix_append _ _))
    · exact hrest.entries first ((mem_cons.mp hfirst).resolve_left heq) path
  · intro other hother
    rw [Forest.names, forall_mem_cons] at hother
    have hne : other ≠ name :: loc := by
      rintro rfl
      exact hother.1 suffix_rfl
    rw [hrest.elsewhere other hother.2, hinner.elsewhere other, hplaced.node_ne hne]
    exact fun second _ hsuffix ↦ hother.1 ((suffix_cons _ _).trans hsuffix)

end Disk

end DdeCooperation.Foundations
