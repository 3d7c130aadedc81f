import DdeCooperation.Foundations.FileSystem

/-!
# Trees in a file system

The entries of a directory, the files below it with their locations relative to it, and
what a file system looks like after an entry has been planted in it together with the
directories that lead there. An entry can be planted where no file is in the way. A part of
a file system is a partial copy of another one when its entries are those of the other one
at the same relative location; planting an entry of the original extends a partial copy.
-/

namespace DdeCooperation.Foundations

open List

section Location

variable {α : Type*} {other rel dest : Location α}

/-- What leads to a location below another one is below that one, or leads to it. -/
theorem suffix_append_cases (h : other <:+ rel ++ dest) :
    (∃ r, r <:+ rel ∧ other = r ++ dest) ∨ other <:+ dest ∧ ¬ dest <:+ other := by
  by_cases hbelow : dest <:+ other
  · obtain ⟨r, rfl⟩ := hbelow
    exact .inl ⟨r, suffix_append_self_iff.mp h, rfl⟩
  · have hcases := suffix_or_suffix_of_suffix h (suffix_append rel dest)
    exact .inr ⟨hcases.resolve_right hbelow, hbelow⟩

theorem ne_of_not_suffix (h : ¬ dest <:+ other) : other ≠ dest := by
  rintro rfl
  exact h suffix_rfl

theorem append_ne_of_suffix (hr : other <:+ rel) (hne : other ≠ rel) (source : Location α) :
    other ++ source <:+ rel ++ source ∧ other ++ source ≠ rel ++ source :=
  ⟨suffix_append_self_iff.mpr hr, fun heq ↦ hne (append_cancel_right heq)⟩

end Location

namespace FileSystem

variable {α : Type*} [DecidableEq α] {fs fs' original : FileSystem α}
  {loc other outer : Location α} {name : List α} {node : Node}

theorem IsDir.of_mem (h : (name :: loc) ∈ fs.nodes) : fs.IsDir loc := fs.parents name loc h

/-- Whatever contains a node is a directory. -/
theorem isDir_of_mem (h : loc ∈ fs.nodes) (hsuffix : outer <:+ loc) (hne : outer ≠ loc) :
    fs.IsDir outer := by
  cases loc with
  | nil => exact absurd (suffix_nil.mp hsuffix) hne
  | cons name loc =>
    have hinner := (suffix_cons_iff.mp hsuffix).resolve_left hne
    exact (IsDir.of_mem h).of_suffix hinner

theorem mem_of_lookup (h : fs.nodes.lookup loc = some node) : loc ∈ fs.nodes :=
  AList.lookup_isSome.mp (by rw [h]; rfl)

theorem lookup_eq_none : fs.nodes.lookup loc = none ↔ loc ∉ fs.nodes := AList.lookup_eq_none

/-! ## Entries and files -/

/-- The names in a directory, in the order in which the system lists them. -/
def entries (fs : FileSystem α) (loc : Location α) : List (List α) :=
  fs.nodes.keys.filterMap fun key ↦
    match key with
    | [] => none
    | name :: outer => if outer = loc then some name else none

theorem mem_entries : name ∈ fs.entries loc ↔ (name :: loc) ∈ fs.nodes := by
  unfold entries
  rw [mem_filterMap, AList.mem_keys]
  constructor
  · rintro ⟨key, hkey, hname⟩
    cases key with
    | nil => cases hname
    | cons first outer =>
      dsimp only at hname
      split_ifs at hname with houter
      cases hname
      rwa [← houter]
  · intro hmem
    exact ⟨name :: loc, hmem, if_pos rfl⟩

theorem nodup_entries (fs : FileSystem α) (loc : Location α) : (fs.entries loc).Nodup := by
  refine fs.nodes.keys_nodup.filterMap ?_
  intro key key' name hname hname'
  cases key with
  | nil => cases hname
  | cons first outer =>
    cases key' with
    | nil => cases hname'
    | cons first' outer' =>
      simp only [Option.mem_def, Option.ite_none_right_eq_some, Option.some.injEq] at hname hname'
      rw [hname.1, hname'.1, hname.2, hname'.2]

/-- The files that an entry of a directory stands for, where `inner` gives those in a directory. -/
def filesAt (fs : FileSystem α) (inner : Location α → List (Location α)) (loc : Location α)
    (name : List α) : List (Location α) :=
  match fs.nodes.lookup (name :: loc) with
  | some .directory => (inner (name :: loc)).map (· ++ [name])
  | some (.file (_ + 1)) => [[name]]
  | _ => []

/-- The locations of the files that are not empty, relative to a directory, down to a depth. -/
def filesBelow (fs : FileSystem α) : ℕ → Location α → List (Location α)
  | 0, _ => []
  | depth + 1, loc => (fs.entries loc).flatMap (fs.filesAt (fs.filesBelow depth) loc)

theorem mem_filesBelow {depth : ℕ} {rel : Location α} :
    rel ∈ fs.filesBelow depth loc ↔
      rel ≠ [] ∧ rel.length ≤ depth ∧ ∃ n, fs.nodes.lookup (rel ++ loc) = some (.file (n + 1)) := by
  induction depth generalizing rel loc with
  | zero =>
    simp only [filesBelow, not_mem_nil, Nat.le_zero, length_eq_zero_iff, false_iff]
    exact fun h ↦ h.1 h.2.1
  | succ depth ih =>
    rw [filesBelow, mem_flatMap]
    constructor
    · rintro ⟨name, -, hrel⟩
      unfold filesAt at hrel
      split at hrel
      · obtain ⟨inner, hinner, rfl⟩ := mem_map.mp hrel
        obtain ⟨-, hlength, hfile⟩ := ih.mp hinner
        refine ⟨by simp, ?_, ?_⟩
        · rw [length_append, length_singleton]
          omega
        · rwa [append_assoc, singleton_append]
      · rename_i n hlookup
        rw [mem_singleton] at hrel
        rw [hrel]
        exact ⟨by simp, by simp, n, hlookup⟩
      · cases hrel
    · rintro ⟨hne, hlength, n, hfile⟩
      obtain ⟨inner, name, rfl⟩ := (eq_nil_or_concat' rel).resolve_left hne
      rw [append_assoc, singleton_append] at hfile
      rw [length_append, length_singleton] at hlength
      refine ⟨name, ?_, ?_⟩
      · rw [mem_entries]
        cases inner with
        | nil => exact mem_of_lookup hfile
        | cons first inner =>
          have hdir : fs.IsDir (name :: loc) :=
            (IsDir.of_mem (mem_of_lookup hfile)).of_suffix (suffix_append _ _)
          exact hdir.mem
      · cases inner with
        | nil =>
          rw [nil_append] at hfile
          simp [filesAt, hfile]
        | cons first inner =>
          have hdir : fs.nodes.lookup (name :: loc) = some .directory :=
            (IsDir.of_mem (mem_of_lookup hfile)).of_suffix (suffix_append _ _)
          simp only [filesAt, hdir]
          refine mem_map.mpr ⟨first :: inner, ih.mpr ⟨cons_ne_nil _ _, ?_, n, hfile⟩, rfl⟩
          omega

theorem nodup_filesBelow (fs : FileSystem α) (depth : ℕ) (loc : Location α) :
    (fs.filesBelow depth loc).Nodup := by
  induction depth generalizing loc with
  | zero => exact nodup_nil
  | succ depth ih =>
    rw [filesBelow, nodup_flatMap]
    constructor
    · intro name hname
      unfold filesAt
      split
      · exact (ih (name :: loc)).map fun inner inner' heq ↦ append_cancel_right heq
      · exact nodup_singleton _
      · exact nodup_nil
    · refine (fs.nodup_entries loc).imp ?_
      intro name name' hne rel hrel hrel'
      -- The outermost name of a relative location is that of the entry.
      have hlast : ∀ name, rel ∈ fs.filesAt (fs.filesBelow depth) loc name → rel.getLast? = some name := by
        intro name hrel
        unfold filesAt at hrel
        split at hrel
        · obtain ⟨inner, -, rfl⟩ := mem_map.mp hrel
          exact getLast?_concat
        · rw [mem_singleton.mp hrel]
          rfl
        · cases hrel
      exact hne (Option.some.inj ((hlast name hrel).symm.trans (hlast name' hrel')))

/-! ## Planting -/

/-- No file is in the way to a location. -/
def Clear (fs : FileSystem α) (loc : Location α) : Prop :=
  ∀ outer, outer <:+ loc → outer ∈ fs.nodes → fs.IsDir outer

theorem Clear.of_suffix (h : fs.Clear loc) (hsuffix : outer <:+ loc) : fs.Clear outer :=
  fun inner hinner ↦ h inner (hinner.trans hsuffix)

/-- The node is at the location, and everything on the way there is a directory. -/
def Planted (fs : FileSystem α) (loc : Location α) (node : Node) (fs' : FileSystem α) : Prop :=
  ∀ other, fs'.nodes.lookup other =
    if other = loc then some node else if other <:+ loc then some .directory
    else fs.nodes.lookup other

theorem Planted.lookup_self (h : Planted fs loc node fs') : fs'.nodes.lookup loc = some node := by
  rw [h loc, if_pos rfl]

theorem Planted.isDir (h : Planted fs loc node fs') (hsuffix : other <:+ loc) (hne : other ≠ loc) :
    fs'.IsDir other := by
  rw [IsDir, h other, if_neg hne, if_pos hsuffix]

theorem Planted.lookup_other (h : Planted fs loc node fs') (hsuffix : ¬ other <:+ loc) :
    fs'.nodes.lookup other = fs.nodes.lookup other := by
  have hne : other ≠ loc := by
    rintro rfl
    exact hsuffix suffix_rfl
  rw [h other, if_neg hne, if_neg hsuffix]

/-- A directory that is there is planted already. -/
theorem planted_of_isDir (h : fs.IsDir loc) : Planted fs loc .directory fs := by
  intro other
  split_ifs with heq hsuffix
  · rw [heq]
    exact h
  · exact h.of_suffix hsuffix
  · rfl

/-- Planting the directory around a location, and then a node in it. -/
theorem Planted.then {middle : FileSystem α} (h : Planted fs loc .directory middle)
    (h' : Planted middle (name :: loc) node fs') : Planted fs (name :: loc) node fs' := by
  intro other
  rw [h' other]
  split_ifs with heq hsuffix
  · rfl
  · rfl
  · exact h.lookup_other fun hinner ↦ hsuffix (hinner.trans (suffix_cons _ _))

theorem planted_put {hnew : ¬ fs.IsDir loc} {hparent : fs.IsDir loc.tail} :
    Planted fs loc node (fs.put loc node hnew hparent) := by
  intro other
  have hput : (fs.put loc node hnew hparent).nodes.lookup other =
      if other = loc then some node else fs.nodes.lookup other :=
    Bimap.lookup_insert_eq fs.nodes loc other node
  rw [hput]
  split_ifs with heq hsuffix
  · rfl
  · cases loc with
    | nil => exact absurd (suffix_nil.mp hsuffix) heq
    | cons name outer =>
      exact hparent.of_suffix ((suffix_cons_iff.mp hsuffix).resolve_left heq)
  · rfl

theorem makeDirectory_of (hnew : loc ∉ fs.nodes) (hparent : fs.IsDir loc.tail) :
    ∃ fs', fs.makeDirectory loc = some fs' ∧ Planted fs loc .directory fs' := by
  rw [makeDirectory, dif_pos ⟨hnew, hparent⟩]
  exact ⟨_, rfl, planted_put⟩

theorem makeFile_of {size : ℕ} (hnew : ¬ fs.IsDir loc) (hparent : fs.IsDir loc.tail) :
    ∃ fs', fs.makeFile loc size = some fs' ∧ Planted fs loc (.file size) fs' := by
  rw [makeFile, dif_pos ⟨hnew, hparent⟩]
  exact ⟨_, rfl, planted_put⟩

/-- Writing a file that has been planted. -/
theorem Planted.overwrite {middle : FileSystem α} {node' : Node}
    (h : Planted fs loc node middle) (h' : Planted middle loc node' fs') :
    Planted fs loc node' fs' := by
  intro other
  rw [h' other]
  split_ifs with heq hsuffix
  · rfl
  · rfl
  · exact h.lookup_other hsuffix

/-! ## Partial copies -/

/-- Below `dest`, the file system has what the original has below `source`, but only on the way
to the listed locations; elsewhere it is as before. -/
structure Copies (original : FileSystem α) (source : Location α) (before : FileSystem α)
    (dest : Location α) (done : List (Location α)) (fs : FileSystem α) : Prop where
  below : ∀ rel, fs.nodes.lookup (rel ++ dest) =
    if rel = [] ∨ ∃ inner ∈ done, rel <:+ inner then original.nodes.lookup (rel ++ source) else none
  outside : ∀ loc, ¬ dest <:+ loc → fs.nodes.lookup loc = before.nodes.lookup loc

variable {source dest rel : Location α} {before : FileSystem α} {done : List (Location α)}

/-- The destination alone, where there was nothing. -/
theorem copies_nil (h : Planted before dest node fs) (hnode : original.nodes.lookup source = some node)
    (hnew : dest ∉ before.nodes) (hparent : ∀ loc, loc <:+ dest → loc ≠ dest → before.IsDir loc) :
    Copies original source before dest [] fs := by
  constructor
  · intro rel
    by_cases hrel : rel = []
    · rw [if_pos (.inl hrel), hrel, nil_append, nil_append, h.lookup_self, hnode]
    · have hbelow : ¬ rel ++ dest <:+ dest := by
        intro hsuffix
        have hlength := hsuffix.length_le
        have hpos := length_pos_iff.mpr hrel
        rw [length_append] at hlength
        omega
      rw [if_neg (by simp [hrel]), h.lookup_other hbelow, lookup_eq_none]
      intro hmem
      have hne : dest ≠ rel ++ dest := by
        intro heq
        exact hbelow (heq ▸ suffix_rfl)
      exact hnew (isDir_of_mem hmem (suffix_append _ _) hne).mem
  · intro loc hloc
    by_cases hsuffix : loc <:+ dest
    · have hne := ne_of_not_suffix hloc
      exact (h.isDir hsuffix hne).trans (hparent loc hsuffix hne).symm
    · exact h.lookup_other hsuffix

variable (h : Copies original source before dest done fs)

include h

/-- A location of the original that is not copied yet, and is not on the way to one that is,
can be planted. -/
theorem Copies.clear (hparent : ∀ loc, loc <:+ dest → loc ≠ dest → before.IsDir loc)
    (hmem : (rel ++ source) ∈ original.nodes) (hrel : rel ≠ [])
    (hnew : ∀ inner ∈ done, ¬ rel <:+ inner) :
    fs.Clear (rel ++ dest) ∧ (rel ++ dest) ∉ fs.nodes := by
  have habsent : (rel ++ dest) ∉ fs.nodes := by
    rw [← lookup_eq_none, h.below rel, if_neg]
    rintro (hnil | ⟨inner, hinner, hsuffix⟩)
    · exact hrel hnil
    · exact hnew inner hinner hsuffix
  refine ⟨fun loc hsuffix hloc ↦ ?_, habsent⟩
  rcases suffix_append_cases hsuffix with ⟨r, hr, rfl⟩ | ⟨habove, hdest⟩
  · have hne : r ≠ rel := by
      rintro rfl
      exact habsent hloc
    obtain ⟨hsub, hsubne⟩ := append_ne_of_suffix hr hne source
    have hdir : original.nodes.lookup (r ++ source) = some .directory := isDir_of_mem hmem hsub hsubne
    have hlookup := h.below r
    split_ifs at hlookup with hcopied
    · exact hlookup.trans hdir
    · exact absurd hloc (lookup_eq_none.mp hlookup)
  · rw [IsDir, h.outside loc hdest]
    exact hparent loc habove (ne_of_not_suffix hdest)

/-- Planting an entry of the original extends the copy. -/
theorem Copies.plant (hparent : ∀ loc, loc <:+ dest → loc ≠ dest → before.IsDir loc)
    (hnode : original.nodes.lookup (rel ++ source) = some node)
    (hplanted : Planted fs (rel ++ dest) node fs') :
    Copies original source before dest (done ++ [rel]) fs' := by
  constructor
  · intro r
    have hcovered : (r = [] ∨ ∃ inner ∈ done ++ [rel], r <:+ inner) ↔
        (r = [] ∨ ∃ inner ∈ done, r <:+ inner) ∨ r <:+ rel := by
      simp only [mem_append, mem_singleton, or_and_right, exists_or, exists_eq_left, or_assoc]
    by_cases hr : r <:+ rel
    · rw [if_pos (hcovered.mpr (.inr hr))]
      by_cases heq : r = rel
      · rw [heq, hplanted.lookup_self, hnode]
      · obtain ⟨hsub, hsubne⟩ := append_ne_of_suffix hr heq dest
        obtain ⟨hsource, hsourcene⟩ := append_ne_of_suffix hr heq source
        exact (hplanted.isDir hsub hsubne).trans
          (isDir_of_mem (mem_of_lookup hnode) hsource hsourcene).symm
    · have hother : ¬ r ++ dest <:+ rel ++ dest := fun hsub ↦ hr (suffix_append_self_iff.mp hsub)
      rw [hplanted.lookup_other hother, h.below r]
      simp only [hcovered, hr, or_false]
  · intro loc hloc
    by_cases hsuffix : loc <:+ rel ++ dest
    · rcases suffix_append_cases hsuffix with ⟨r, -, rfl⟩ | ⟨habove, -⟩
      · exact absurd (suffix_append _ _) hloc
      · have hne : loc ≠ rel ++ dest := by
          rintro rfl
          exact hloc (suffix_append _ _)
        exact (hplanted.isDir hsuffix hne).trans (hparent loc habove (ne_of_not_suffix hloc)).symm
    · rw [hplanted.lookup_other hsuffix, h.outside loc hloc]

/-- A copy is the whole original if and only if every entry is on the way to a copied one. -/
theorem Copies.complete_iff :
    (∀ rel, fs.nodes.lookup (rel ++ dest) = original.nodes.lookup (rel ++ source)) ↔
      ∀ rel, (rel ++ source) ∈ original.nodes → rel = [] ∨ ∃ inner ∈ done, rel <:+ inner := by
  constructor
  · intro hall rel hmem
    have hlookup := hall rel
    rw [h.below rel] at hlookup
    split_ifs at hlookup with hcovered
    · exact hcovered
    · exact absurd hmem (lookup_eq_none.mp hlookup.symm)
  · intro hcovered rel
    rw [h.below rel]
    split_ifs with hrel
    · rfl
    · exact (lookup_eq_none.mpr fun hmem ↦ hrel (hcovered rel hmem)).symm

omit h

/-- The file system without a file. -/
def unlink (loc : Location α) (fs : FileSystem α) : FileSystem α :=
  if hfile : fs.IsDir loc then fs
  else
    { nodes := fs.nodes.erase loc
      root := by
        have hne : ([] : Location α) ≠ loc := by
          rintro rfl
          exact hfile fs.root
        rw [AList.lookup_erase_ne hne]
        exact fs.root
      parents := by
        intro name outer hmem
        have hdir := fs.parents name outer ((AList.mem_erase.mp hmem).2)
        have hne : outer ≠ loc := by
          rintro rfl
          exact hfile hdir
        rw [AList.lookup_erase_ne hne]
        exact hdir }

end FileSystem

/-! ## System calls -/

namespace Process

variable {α : Type*} [DecidableEq α] (sep dot : α) (process : Process α)

/-- The names in a directory; there is no answer for anything else. -/
def list (path : List α) (fs : FileSystem α) : Option (List (List α)) :=
  if process.refuses path then none
  else (process.find sep dot path fs).bind fun loc ↦
    if fs.IsDir loc then some (fs.entries loc) else none

/-- Opening a file for writing, truncated, and writing so many bytes to it. -/
def write (path : List α) (size : ℕ) (fs : FileSystem α) : Option (FileSystem α) :=
  if process.refuses path ∨ process.denies path then none
  else (process.find sep dot path fs).bind fun loc ↦ fs.makeFile loc size

/-- Removing a file if it is empty. -/
def removeEmpty (path : List α) (fs : FileSystem α) : FileSystem α :=
  if process.refuses path ∨ process.denies path then fs
  else
    match process.find sep dot path fs with
    | none => fs
    | some loc => if fs.nodes.lookup loc = some (.file 0) then fs.unlink loc else fs

end Process

end DdeCooperation.Foundations
