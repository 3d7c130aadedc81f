import DdeCooperation.Foundations.Bimap
import DdeCooperation.Foundations.LexicalPath
import Mathlib.Data.List.DropRight

/-!
# A file system without links

A file system is a finite table from locations to nodes. A location is the list of names
that lead to it from the root, the innermost first. The root is a directory, and whatever
is in a directory is below one; both are part of the type, so that the operations that
build file systems keep them.

The system calls take a path as text. They walk along its components, which must be
directories except for the last one. Without links the walk ends where the lexical
resolution of the path does. A `Process` is what else a call depends on: its current
directory, the paths that the system refuses to look at (too long, not permitted), and
those where it does not let anything be created.

The characters are arbitrary; `sep` and `dot` are parameters.
-/

namespace DdeCooperation.Foundations

open ResolvedPath List

variable {α : Type*}

abbrev Location (α : Type*) := List (List α)

/-! ## Absolute paths -/

section Spelling

/-- The absolute path with the given components, the outermost first. -/
def spell (sep : α) (components : List (List α)) : List α := components.flatMap (sep :: ·)

variable {sep : α} {components extra : List (List α)} {component : List α}

theorem spell_append : spell sep (components ++ extra) = spell sep components ++ spell sep extra :=
  flatMap_append

theorem spell_cons :
    spell sep (component :: components) = sep :: component ++ spell sep components :=
  flatMap_cons

theorem spell_singleton : spell sep [component] = sep :: component := flatMap_singleton _ _

theorem spell_concat :
    spell sep (components ++ [component]) = spell sep components ++ sep :: component := by
  rw [spell_append, spell_singleton]

theorem head?_spell (h : components ≠ []) : (spell sep components).head? = some sep := by
  cases components with
  | nil => exact absurd rfl h
  | cons => rfl

theorem cons_intercalate (h : components ≠ []) :
    sep :: [sep].intercalate components = spell sep components := by
  induction components with
  | nil => exact absurd rfl h
  | cons component components ih =>
    cases components with
    | nil => simp [spell_singleton]
    | cons other components =>
      rw [spell_cons, ← ih (cons_ne_nil _ _), intercalate_cons_cons]
      simp

variable {text : List α}

/-- Text without a separator stands on one side of it. -/
theorem infix_append_cons {path rest : List α} (hsep : sep ∉ text)
    (h : text <:+: path ++ sep :: rest) : text <:+: path ∨ text <:+: rest := by
  induction path with
  | nil =>
    rcases infix_cons_iff.mp h with hstart | hpart
    · rcases prefix_cons_iff.mp hstart with rfl | ⟨tail, rfl, -⟩
      · exact .inl (List.nil_infix)
      · exact absurd mem_cons_self hsep
    · exact .inr hpart
  | cons c path ih =>
    rcases infix_cons_iff.mp h with hstart | hpart
    · left
      have hpath : c :: path <+: c :: (path ++ sep :: rest) := prefix_append (c :: path) _
      rcases prefix_or_prefix_of_prefix hstart hpath with hshort | ⟨more, rfl⟩
      · exact hshort.isInfix
      · have hmore : more <+: sep :: rest := (prefix_append_right_inj (c :: path)).mp hstart
        rcases prefix_cons_iff.mp hmore with rfl | ⟨tail, rfl, -⟩
        · rw [append_nil]
        · exact absurd (mem_append_right _ mem_cons_self) hsep
    · rcases ih hpart with hleft | hright
      · exact .inl (hleft.trans (suffix_cons c path).isInfix)
      · exact .inr hright

theorem part_of_intercalate (h : component ∈ components) :
    component <:+: [sep].intercalate components := by
  induction components with
  | nil => cases h
  | cons first others ih =>
    cases others with
    | nil =>
      rw [mem_singleton.mp h]
      simp
    | cons second others =>
      rw [intercalate_cons_cons]
      rcases mem_cons.mp h with rfl | hmem
      · exact ((prefix_append _ _).trans (prefix_append _ _)).isInfix
      · exact (ih hmem).trans (suffix_append _ _).isInfix

theorem exists_part_of_part_intercalate (hsep : sep ∉ text)
    (hne : components ≠ []) (h : text <:+: [sep].intercalate components) :
    ∃ component ∈ components, text <:+: component := by
  induction components with
  | nil => exact absurd rfl hne
  | cons first others ih =>
    cases others with
    | nil => exact ⟨first, mem_cons_self, by simpa using h⟩
    | cons second others =>
      rw [intercalate_cons_cons, append_assoc, singleton_append] at h
      rcases infix_append_cons hsep h with hfirst | hothers
      · exact ⟨first, mem_cons_self, hfirst⟩
      · obtain ⟨component, hmem, hpart⟩ := ih (cons_ne_nil _ _) hothers
        exact ⟨component, mem_cons_of_mem _ hmem, hpart⟩

/-- The absolute path to a location. -/
def pathTo (sep : α) (loc : Location α) : List α := sep :: [sep].intercalate loc.reverse

theorem pathTo_nil : pathTo sep [] = [sep] := rfl

theorem pathTo_ne_nil (sep : α) (loc : Location α) : pathTo sep loc ≠ [] := cons_ne_nil _ _

variable {loc : Location α}

theorem not_suffix_cons_self : ¬ component :: loc <:+ loc :=
  fun h ↦ Nat.not_succ_le_self _ h.length_le

theorem pathTo_eq_spell (h : loc ≠ []) : pathTo sep loc = spell sep loc.reverse :=
  cons_intercalate fun hnil ↦ h (reverse_eq_nil_iff.mp hnil)

/-- The path to an inner location goes on where the outer one ends. -/
theorem exists_pathTo_append {inner : Location α} (hinner : inner ≠ []) :
    ∃ rest, pathTo sep (inner ++ loc) = pathTo sep loc ++ rest ∧
      (loc ≠ [] → rest.head? = some sep) := by
  have hrev : inner.reverse ≠ [] := fun hnil ↦ hinner (reverse_eq_nil_iff.mp hnil)
  by_cases hloc : loc = []
  · refine ⟨[sep].intercalate inner.reverse, ?_, fun hne ↦ absurd hloc hne⟩
    rw [hloc, append_nil, pathTo_nil, pathTo, singleton_append]
  · refine ⟨spell sep inner.reverse, ?_, fun _ ↦ head?_spell hrev⟩
    rw [pathTo_eq_spell (append_ne_nil_of_left_ne_nil hinner loc), pathTo_eq_spell hloc,
      reverse_append, spell_append]

theorem pathTo_mono {outer : Location α} (h : outer <:+ loc) :
    pathTo sep outer <+: pathTo sep loc := by
  obtain ⟨inner, rfl⟩ := h
  by_cases hinner : inner = []
  · rw [hinner, nil_append]
  · obtain ⟨rest, hrest, -⟩ : ∃ rest, pathTo sep (inner ++ outer) = pathTo sep outer ++ rest ∧
        (outer ≠ [] → rest.head? = some sep) := exists_pathTo_append hinner
    exact ⟨rest, hrest.symm⟩

end Spelling

/-- The locations on the way to some given ones. -/
def locations (leaves : List (Location α)) : List (Location α) := [] :: leaves.flatMap List.tails

theorem mem_locations {leaves : List (Location α)} {loc : Location α} :
    loc ∈ locations leaves ↔ loc = [] ∨ ∃ leaf ∈ leaves, loc <:+ leaf := by
  simp [locations]

variable [DecidableEq α]

inductive Node where
  | directory
  | file (size : ℕ)
deriving DecidableEq

structure FileSystem (α : Type*) [DecidableEq α] where
  nodes : AList (fun _ : Location α ↦ Node)
  root : nodes.lookup [] = some .directory
  parents : ∀ name loc, (name :: loc) ∈ nodes → nodes.lookup loc = some .directory

/-- What a process brings to a system call. -/
structure Process (α : Type*) where
  cwd : Location α
  refuses : List α → Bool := fun _ ↦ false
  denies : List α → Bool := fun _ ↦ false

/-- An error other than that there is no such file. -/
inductive Refusal where
  | refused
deriving DecidableEq

namespace FileSystem

variable {fs fs' : FileSystem α} {loc : Location α} {name : List α} {node : Node}

def IsDir (fs : FileSystem α) (loc : Location α) : Prop := fs.nodes.lookup loc = some .directory

instance (fs : FileSystem α) (loc : Location α) : Decidable (fs.IsDir loc) :=
  inferInstanceAs (Decidable (_ = _))

theorem isDir_root (fs : FileSystem α) : fs.IsDir [] := fs.root

theorem IsDir.mem (h : fs.IsDir loc) : loc ∈ fs.nodes := AList.lookup_isSome.mp (by rw [h]; rfl)

/-- What contains a directory is a directory. -/
theorem IsDir.of_suffix {outer : Location α} (h : fs.IsDir loc) (hsuffix : outer <:+ loc) :
    fs.IsDir outer := by
  induction loc with
  | nil => rwa [suffix_nil.mp hsuffix]
  | cons name loc ih =>
    rcases suffix_cons_iff.mp hsuffix with heq | hinner
    · rwa [heq]
    · exact ih (fs.parents name loc h.mem) hinner

/-- The node at a location in a directory, where there is no directory yet. -/
def put (fs : FileSystem α) (loc : Location α) (node : Node) (hnew : ¬ fs.IsDir loc)
    (hparent : fs.IsDir loc.tail) : FileSystem α where
  nodes := fs.nodes.insert loc node
  root := by
    have hne : ([] : Location α) ≠ loc := by
      rintro rfl
      exact hnew fs.root
    rw [AList.lookup_insert_ne hne]
    exact fs.root
  parents := by
    intro name outer hmem
    have hdir : fs.IsDir outer := by
      rcases (AList.mem_insert _).mp hmem with heq | hold
      · rwa [← heq] at hparent
      · exact fs.parents name outer hold
    have hne : outer ≠ loc := by
      rintro rfl
      exact hnew hdir
    rw [AList.lookup_insert_ne hne]
    exact hdir

/-- A new directory. -/
def makeDirectory (loc : Location α) (fs : FileSystem α) : Option (FileSystem α) :=
  if h : loc ∉ fs.nodes ∧ fs.IsDir loc.tail then
    some (fs.put loc .directory (fun hdir ↦ h.1 hdir.mem) h.2)
  else none

/-- A file of a given size, new or in the place of another file. -/
def makeFile (loc : Location α) (size : ℕ) (fs : FileSystem α) : Option (FileSystem α) :=
  if h : ¬ fs.IsDir loc ∧ fs.IsDir loc.tail then some (fs.put loc (.file size) h.1 h.2) else none

def isEmpty (loc : Location α) (fs : FileSystem α) : Bool :=
  fs.nodes.keys.all fun key ↦ key = [] || key.tail ≠ loc

theorem isEmpty_iff : fs.isEmpty loc = true ↔ ∀ name, (name :: loc) ∉ fs.nodes := by
  unfold isEmpty
  rw [all_eq_true]
  constructor
  · intro hall name hmem
    simpa using hall (name :: loc) (AList.mem_keys.mp hmem)
  · intro hnone key hkey
    cases key with
    | nil => rfl
    | cons name outer =>
      have hne : outer ≠ loc := by
        rintro rfl
        exact hnone name (AList.mem_keys.mpr hkey)
      simp [hne]

/-! ## Walking -/

/-- Along the components, each entered from a directory. -/
def walk (dot : α) (fs : FileSystem α) : Location α → List (List α) → Option (Location α)
  | loc, [] => some loc
  | loc, component :: rest =>
    if fs.IsDir loc then walk dot fs (enter dot true loc component) rest else none

theorem walk_eq_foldl {dot : α} {components : List (List α)} {last : Location α}
    (h : fs.walk dot loc components = some last) :
    last = components.foldl (enter dot true) loc := by
  induction components generalizing loc with
  | nil => exact (Option.some.inj h).symm
  | cons component rest ih =>
    rw [walk] at h
    split at h
    · exact ih h
    · cases h

theorem walk_append (dot : α) (loc : Location α) (first second : List (List α)) :
    fs.walk dot loc (first ++ second) =
      (fs.walk dot loc first).bind fun middle ↦ fs.walk dot middle second := by
  induction first generalizing loc with
  | nil => rfl
  | cons component rest ih =>
    rw [cons_append, walk, walk]
    split
    · exact ih _
    · rfl

end FileSystem

namespace Process

variable (sep dot : α) (process : Process α)

def start (path : List α) : Location α := if path.head? = some sep then [] else process.cwd

/-- Where a path leads by its text alone. -/
def locate (path : List α) : Location α :=
  (path.splitOn sep).foldl (enter dot true) (process.start sep path)

/-- Where a path leads in a file system. -/
def find (path : List α) (fs : FileSystem α) : Option (Location α) :=
  if path = [] then none else fs.walk dot (process.start sep path) (path.splitOn sep)

def status (path : List α) (fs : FileSystem α) : Option Node :=
  (process.find sep dot path fs).bind fun loc ↦ fs.nodes.lookup loc

def stat (path : List α) (fs : FileSystem α) : Except Refusal (Option Node) :=
  if process.refuses path then .error .refused else .ok (process.status sep dot path fs)

/-- What identifies the node that a path leads to. -/
def inode (path : List α) (fs : FileSystem α) : Option (Location α) :=
  if process.refuses path then none
  else (process.find sep dot path fs).bind fun loc ↦ if loc ∈ fs.nodes then some loc else none

/-- Separators at the end of the path are ignored. -/
def mkdir (path : List α) (fs : FileSystem α) : Option (FileSystem α) :=
  if process.refuses path ∨ process.denies path then none
  else (process.find sep dot (path.rdropWhile (· = sep)) fs).bind fun loc ↦ fs.makeDirectory loc

/-- `open` for writing, with the flags that create and truncate the file. -/
def creat (path : List α) (fs : FileSystem α) : Option (FileSystem α) :=
  if process.refuses path ∨ process.denies path then none
  else (process.find sep dot path fs).bind fun loc ↦ fs.makeFile loc 0

/-- Whether a directory has no entries; there is no answer for anything else. -/
def isDirectoryEmpty (path : List α) (fs : FileSystem α) : Option Bool :=
  if process.refuses path then none
  else (process.find sep dot path fs).bind fun loc ↦
    if fs.IsDir loc then some (fs.isEmpty loc) else none

variable {sep dot : α} {process : Process α} {path : List α} {fs fs' : FileSystem α} {loc : Location α}

theorem locate_of_find (h : process.find sep dot path fs = some loc) :
    loc = process.locate sep dot path := by
  unfold find at h
  split at h
  · cases h
  · exact FileSystem.walk_eq_foldl h

theorem start_append (hpath : path ≠ []) (rest : List α) :
    process.start sep (path ++ rest) = process.start sep path := by
  unfold start
  rw [head?_append_of_ne_nil _ hpath]

theorem locate_append_sep (hpath : path ≠ []) (rest : List α) :
    process.locate sep dot (path ++ sep :: rest) =
      (rest.splitOn sep).foldl (enter dot true) (process.locate sep dot path) := by
  rw [locate, locate, start_append hpath, splitOn_append_cons_self, foldl_append]

/-- One more component is entered from a directory. -/
theorem find_append_sep (hpath : path ≠ []) {name : List α} (hname : sep ∉ name) :
    process.find sep dot (path ++ sep :: name) fs = (process.find sep dot path fs).bind fun loc ↦
        if fs.IsDir loc then some (enter dot true loc name) else none := by
  rw [find, find, if_neg hpath, if_neg (by simp), start_append hpath, splitOn_append_cons_self,
    FileSystem.walk_append, splitOn_eq_singleton hname]
  rfl

/-- What a separator at the end does not change, separators at the end do not change. -/
theorem eq_of_rdropWhile {β : Type*} {f : List α → β} (hsep : ∀ path ≠ [], f (path ++ [sep]) = f path)
    (h : path.rdropWhile (· = sep) ≠ []) : f (path.rdropWhile (· = sep)) = f path := by
  induction path using reverseRecOn with
  | nil => exact absurd (rdropWhile_nil _) h
  | append_singleton path last ih =>
    by_cases hlast : last = sep
    · have hdrop : (path ++ [last]).rdropWhile (· = sep) = path.rdropWhile (· = sep) :=
        rdropWhile_concat_pos _ _ _ (decide_eq_true hlast)
      rw [hdrop] at h ⊢
      have hpath : path ≠ [] := by
        rintro rfl
        exact h (rdropWhile_nil _)
      rw [ih h, hlast, hsep path hpath]
    · rw [rdropWhile_concat_neg _ _ _ (by simpa using hlast)]

theorem locate_rdropWhile (h : path.rdropWhile (· = sep) ≠ []) :
    process.locate sep dot (path.rdropWhile (· = sep)) = process.locate sep dot path := by
  refine eq_of_rdropWhile (fun path hpath ↦ ?_) h
  rw [locate_append_sep hpath, splitOn_nil, foldl_cons, foldl_nil, enter_skip (.inl rfl)]

end Process

/-! ## What is created -/

namespace FileSystem

/-- Directories stay, and whatever is new lies where it may. -/
structure Grows (may : Location α → Prop) (fs fs' : FileSystem α) : Prop where
  dirs : ∀ loc, fs.IsDir loc → fs'.IsDir loc
  news : ∀ loc ∈ fs'.nodes, loc ∈ fs.nodes ∨ may loc

variable {may : Location α → Prop} {fs fs' fs'' : FileSystem α} {loc : Location α}

theorem Grows.refl (may : Location α → Prop) (fs : FileSystem α) : Grows may fs fs :=
  ⟨fun _ h ↦ h, fun _ h ↦ .inl h⟩

theorem Grows.trans (h : Grows may fs fs') (h' : Grows may fs' fs'') : Grows may fs fs'' := by
  refine ⟨fun loc hdir ↦ h'.dirs loc (h.dirs loc hdir), fun loc hmem ↦ ?_⟩
  rcases h'.news loc hmem with hmiddle | hmay
  · exact h.news loc hmiddle
  · exact .inr hmay

theorem grows_put {node : Node} {hnew : ¬ fs.IsDir loc} {hparent : fs.IsDir loc.tail}
    (hmay : loc ∉ fs.nodes → may loc) : Grows may fs (fs.put loc node hnew hparent) := by
  constructor
  · intro other hdir
    have hne : other ≠ loc := by
      rintro rfl
      exact hnew hdir
    exact (AList.lookup_insert_ne hne).trans hdir
  · intro other hmem
    rcases (AList.mem_insert _).mp hmem with heq | hold
    · rw [heq]
      by_cases hin : loc ∈ fs.nodes
      · exact .inl hin
      · exact .inr (hmay hin)
    · exact .inl hold

theorem grows_makeDirectory (h : fs.makeDirectory loc = some fs')
    (hmay : loc ∉ fs.nodes → may loc) : Grows may fs fs' := by
  unfold makeDirectory at h
  split at h
  · rw [← Option.some.inj h]
    exact grows_put hmay
  · cases h

theorem grows_makeFile {size : ℕ} (h : fs.makeFile loc size = some fs')
    (hmay : loc ∉ fs.nodes → may loc) : Grows may fs fs' := by
  unfold makeFile at h
  split at h
  · rw [← Option.some.inj h]
    exact grows_put hmay
  · cases h

end FileSystem

namespace Process

variable {sep dot : α} {process : Process α} {path : List α} {fs fs' : FileSystem α}
  {may : Location α → Prop}

theorem grows_mkdir (h : process.mkdir sep dot path fs = some fs')
    (hmay : process.locate sep dot path ∉ fs.nodes → may (process.locate sep dot path)) :
    FileSystem.Grows may fs fs' := by
  unfold mkdir at h
  split at h
  · cases h
  · obtain ⟨loc, hfind, hmake⟩ := Option.bind_eq_some_iff.mp h
    have hloc : loc = process.locate sep dot path := by
      rw [locate_of_find hfind]
      apply locate_rdropWhile
      intro hempty
      rw [find, if_pos hempty] at hfind
      cases hfind
    rw [← hloc] at hmay
    exact FileSystem.grows_makeDirectory hmake hmay

theorem grows_creat (h : process.creat sep dot path fs = some fs')
    (hmay : process.locate sep dot path ∉ fs.nodes → may (process.locate sep dot path)) :
    FileSystem.Grows may fs fs' := by
  unfold creat at h
  split at h
  · cases h
  · obtain ⟨loc, hfind, hmake⟩ := Option.bind_eq_some_iff.mp h
    rw [← locate_of_find hfind] at hmay
    exact FileSystem.grows_makeFile hmake hmay

end Process

/-! ## Walking along absolute paths -/

/-- A component that leads one level down. -/
def Ordinary (sep dot : α) (component : List α) : Prop :=
  component ≠ [] ∧ component ≠ [dot] ∧ component ≠ [dot, dot] ∧ sep ∉ component

instance (sep dot : α) (component : List α) : Decidable (Ordinary sep dot component) :=
  inferInstanceAs (Decidable (_ ∧ _ ∧ _ ∧ _))

abbrev Ordinaries (sep dot : α) (components : List (List α)) : Prop :=
  ∀ component ∈ components, Ordinary sep dot component

section Spelling

variable {sep dot : α} {components extra : List (List α)} {component : List α}

theorem splitOn_append_spell (path : List α) (h : ∀ component ∈ components, sep ∉ component) :
    (path ++ spell sep components).splitOn sep = path.splitOn sep ++ components := by
  induction components using reverseRecOn with
  | nil => rw [show spell sep [] = ([] : List α) from rfl, append_nil, append_nil]
  | append_singleton components component ih =>
    rw [forall_mem_append] at h
    rw [spell_concat, ← append_assoc, splitOn_append_cons_self, ih h.1,
      splitOn_eq_singleton (h.2 component mem_cons_self), append_assoc]

/-- The components of a longer text: the last one may go on, and others follow. -/
theorem exists_splitOn_of_append (sep : α) (path rest : List α) : ∃ init last first others,
    path.splitOn sep = init ++ [last] ∧
      (path ++ rest).splitOn sep = init ++ (last ++ first) :: others := by
  induction path with
  | nil =>
    obtain ⟨first, others, hsplit⟩ := exists_cons_of_ne_nil (splitOn_ne_nil sep rest)
    exact ⟨[], [], first, others, splitOn_nil _, hsplit⟩
  | cons c path ih =>
    obtain ⟨init, last, first, others, hpath, hboth⟩ := ih
    rw [cons_append, splitOn_cons_eq_if_modifyHead, splitOn_cons_eq_if_modifyHead, hpath, hboth]
    by_cases hc : c = sep
    · refine ⟨[] :: init, last, first, others, ?_, ?_⟩ <;> simp [hc]
    · cases init with
      | nil =>
        refine ⟨[], c :: last, first, others, ?_, ?_⟩ <;> simp [hc]
      | cons component init =>
        refine ⟨(c :: component) :: init, last, first, others, ?_, ?_⟩ <;> simp [hc]

/-- A beginning without separator belongs to the first component. -/
theorem exists_splitOn_append {name : List α} (h : sep ∉ name) (rest : List α) :
    ∃ first others, (name ++ rest).splitOn sep = (name ++ first) :: others := by
  obtain ⟨init, last, first, others, hname, hboth⟩ := exists_splitOn_of_append sep name rest
  rw [splitOn_eq_singleton h, ← nil_append [name], append_singleton_inj] at hname
  rw [← hname.1, ← hname.2] at hboth
  exact ⟨first, others, hboth⟩

theorem splitOn_spell (h : ∀ component ∈ components, sep ∉ component) :
    (spell sep components).splitOn sep = [] :: components := by
  rw [← nil_append (spell sep components), splitOn_append_spell [] h, splitOn_nil, singleton_append]

variable {path : List α}

/-- Text without a separator is part of a path if and only if it is part of a component. -/
theorem infix_iff_splitOn {text : List α} (hsep : sep ∉ text) :
    text <:+: path ↔ ∃ component ∈ path.splitOn sep, text <:+: component := by
  have hpath : [sep].intercalate (path.splitOn sep) = path := intercalate_splitOn sep
  constructor
  · intro h
    rw [← hpath] at h
    exact exists_part_of_part_intercalate hsep (splitOn_ne_nil _ _) h
  · rintro ⟨component, hmem, hpart⟩
    have hcomponent : component <:+: [sep].intercalate (path.splitOn sep) := part_of_intercalate hmem
    rw [hpath] at hcomponent
    exact hpart.trans hcomponent

variable {loc : Location α}

theorem enter_ordinary (h : Ordinary sep dot component) :
    enter dot true loc component = component :: loc :=
  enter_name (not_or.mpr ⟨h.1, h.2.1⟩) h.2.2.1

theorem foldl_enter_ordinary (h : Ordinaries sep dot components) :
    components.foldl (enter dot true) loc = components.reverse ++ loc := by
  induction components generalizing loc with
  | nil => rfl
  | cons component components ih =>
    replace h := forall_mem_cons.mp h
    rw [foldl_cons, enter_ordinary h.1, ih h.2, reverse_cons, append_assoc, singleton_append]

theorem mem_splitOn (h : component ∈ path.splitOn sep) :
    sep ∉ component ∧ ∀ c ∈ component, c ∈ path := by
  have hsep : sep ∉ component := by
    induction path generalizing component with
    | nil => simp [mem_singleton.mp (splitOn_nil sep ▸ h)]
    | cons c path ih =>
      rw [splitOn_cons_eq_if_modifyHead] at h
      obtain ⟨first, others, hsplit⟩ := exists_cons_of_ne_nil (splitOn_ne_nil sep path)
      rw [hsplit] at h ih
      split at h
      · rcases mem_cons.mp h with rfl | hmem
        · exact not_mem_nil
        · exact ih hmem
      · rcases mem_cons.mp h with rfl | hmem
        · exact not_mem_cons_of_ne_of_not_mem (by rintro rfl; simp_all) (ih mem_cons_self)
        · exact ih (mem_cons_of_mem _ hmem)
  exact ⟨hsep, fun c hc ↦ ((infix_iff_splitOn hsep).mpr ⟨component, h, infix_rfl⟩).subset hc⟩

/-- Resolving from a location only adds components that lead down. -/
theorem mem_foldl_enter (h : component ∈ components.foldl (enter dot true) loc) :
    component ∈ loc ∨
      component ∈ components ∧ component ≠ [] ∧ component ≠ [dot] ∧ component ≠ [dot, dot] := by
  induction components generalizing loc with
  | nil => exact .inl h
  | cons other components ih =>
    rcases ih h with hloc | ⟨hmem, hne⟩
    · by_cases hskip : other = [] ∨ other = [dot]
      · rw [enter_skip hskip] at hloc
        exact .inl hloc
      · by_cases hup : other = [dot, dot]
        · rw [hup, enter_dots] at hloc
          left
          revert hloc
          cases loc with
          | nil => rw [up_nil]; exact id
          | cons last loc =>
            by_cases hlast : last = [dot, dot]
            · rw [up, enter, if_neg (by simp), if_pos rfl]
              simp only [if_pos hlast, mem_cons]
              rintro (rfl | hmem)
              · exact .inl hlast.symm
              · exact hmem
            · rw [up_cons hlast]
              exact mem_cons_of_mem _
        · rw [enter_name hskip hup] at hloc
          rcases mem_cons.mp hloc with rfl | hloc
          · exact .inr ⟨mem_cons_self, (not_or.mp hskip).1, (not_or.mp hskip).2, hup⟩
          · exact .inl hloc
    · exact .inr ⟨mem_cons_of_mem _ hmem, hne⟩

/-- What an absolute path resolves to has ordinary components, made of its characters. -/
theorem ordinary_resolve (habsolute : path.head? = some sep)
    (h : component ∈ (resolve sep dot path).components) :
    Ordinary sep dot component ∧ ∀ c ∈ component, c ∈ path := by
  have hmem : component ∈ (path.splitOn sep).foldl (enter dot true) [] := by
    simpa [resolve, habsolute] using h
  rcases mem_foldl_enter hmem with hnil | ⟨hsplit, hempty, hdot, hdots⟩
  · cases hnil
  · obtain ⟨hsep, hsub⟩ := mem_splitOn hsplit
    exact ⟨⟨hempty, hdot, hdots, hsep⟩, hsub⟩

theorem splitOn_pathTo (h : ∀ component ∈ loc, sep ∉ component) :
    (pathTo sep loc).splitOn sep = [] :: if loc = [] then [[]] else loc.reverse := by
  split_ifs with hroot
  · rw [hroot, pathTo_nil]
    simp [splitOn_cons_eq_if_modifyHead]
  · rw [pathTo_eq_spell hroot, splitOn_spell fun component hmem ↦ h component (mem_reverse.mp hmem)]

/-- The absolute path to a location resolves to it. -/
theorem resolve_pathTo (h : Ordinaries sep dot loc) :
    (resolve sep dot (pathTo sep loc)).components = loc := by
  have hsep : ∀ component ∈ loc, sep ∉ component := fun component hmem ↦ (h component hmem).2.2.2
  have hhead : (pathTo sep loc).head? = some sep := rfl
  have hfold : ((pathTo sep loc).splitOn sep).foldl (enter dot true) [] = loc := by
    rw [splitOn_pathTo hsep, foldl_cons, enter_skip (.inl rfl)]
    split_ifs with hroot
    · rw [foldl_cons, enter_skip (.inl rfl), foldl_nil, hroot]
    · rw [foldl_enter_ordinary fun component hmem ↦ h component (mem_reverse.mp hmem),
        reverse_reverse, append_nil]
  simpa [resolve, hhead] using hfold

theorem FileSystem.walk_ordinary {fs : FileSystem α} (h : Ordinaries sep dot components)
    (hdir : fs.IsDir (components.reverse ++ loc)) :
    fs.walk dot loc components = some (components.reverse ++ loc) := by
  induction components generalizing loc with
  | nil => rfl
  | cons component components ih =>
    replace h := forall_mem_cons.mp h
    have hrest : (component :: components).reverse ++ loc = components.reverse ++ component :: loc := by
      rw [reverse_cons, append_assoc, singleton_append]
    have hloc : fs.IsDir loc := hdir.of_suffix (suffix_append _ _)
    rw [hrest] at hdir ⊢
    rw [walk, if_pos hloc, enter_ordinary h.1, ih h.2 hdir]

namespace Process

variable {process : Process α} {fs : FileSystem α}

theorem locate_spell (hne : components ≠ []) (h : ∀ component ∈ components, sep ∉ component) :
    process.locate sep dot (spell sep components) = components.foldl (enter dot true) [] := by
  rw [locate, start, if_pos (head?_spell hne), splitOn_spell h, foldl_cons, enter_skip (.inl rfl)]

/-- Below a directory, a path is walked from there. -/
theorem find_spell_append (hne : components ++ extra ≠ [])
    (h : Ordinaries sep dot components) (hextra : ∀ component ∈ extra, sep ∉ component)
    (hdir : fs.IsDir components.reverse) :
    process.find sep dot (spell sep (components ++ extra)) fs = fs.walk dot components.reverse extra := by
  have hhead : (spell sep (components ++ extra)).head? = some sep := head?_spell hne
  have hnil : spell sep (components ++ extra) ≠ [] := by
    intro hnil
    rw [hnil] at hhead
    cases hhead
  have hsep : ∀ component ∈ components ++ extra, sep ∉ component :=
    forall_mem_append.mpr ⟨fun component hmem ↦ (h component hmem).2.2.2, hextra⟩
  have hwalk : fs.walk dot [] components = some (components.reverse ++ []) :=
    FileSystem.walk_ordinary h (by rwa [append_nil])
  rw [find, if_neg hnil, start, if_pos hhead, splitOn_spell hsep, FileSystem.walk, if_pos fs.isDir_root,
    enter_skip (.inl rfl), FileSystem.walk_append, hwalk, Option.bind_some, append_nil]

end Process

end Spelling

/-! ## File systems of directories -/

namespace FileSystem

variable {leaves : List (Location α)} {loc : Location α}

theorem dlookup_map_directory (locs : List (Location α)) (loc : Location α) :
    (locs.map fun loc ↦ (⟨loc, .directory⟩ : (_ : Location α) × Node)).dlookup loc =
      if loc ∈ locs then some .directory else none := by
  induction locs with
  | nil => rfl
  | cons other locs ih =>
    rw [map_cons]
    by_cases heq : loc = other
    · rw [heq, dlookup_cons_eq, if_pos mem_cons_self]
    · rw [dlookup_cons_ne _ _ heq, ih]
      simp [heq]

/-- The least file system where the given locations are directories. -/
def ofDirectories (leaves : List (Location α)) : FileSystem α where
  nodes := ((locations leaves).map fun loc ↦ ⟨loc, .directory⟩).toAList
  root := by
    rw [AList.lookup_to_alist, dlookup_map_directory, if_pos (mem_locations.mpr (.inl rfl))]
  parents := by
    intro name loc hmem
    have hin : (name :: loc) ∈ locations leaves := by
      by_contra hout
      rw [← AList.lookup_isSome, AList.lookup_to_alist, dlookup_map_directory, if_neg hout] at hmem
      cases hmem
    have hloc : loc ∈ locations leaves := by
      rcases mem_locations.mp hin with hnil | ⟨leaf, hleaf, hsuffix⟩
      · cases hnil
      · exact mem_locations.mpr (.inr ⟨leaf, hleaf, (List.suffix_cons name loc).trans hsuffix⟩)
    rw [AList.lookup_to_alist, dlookup_map_directory, if_pos hloc]

theorem lookup_ofDirectories : (ofDirectories leaves).nodes.lookup loc =
    if loc ∈ locations leaves then some .directory else none := by
  rw [ofDirectories, AList.lookup_to_alist, dlookup_map_directory]

variable {leaf : Location α}

theorem isDir_ofDirectories (hleaf : leaf ∈ leaves) (hsuffix : loc <:+ leaf) :
    (ofDirectories leaves).IsDir loc := by
  rw [IsDir, lookup_ofDirectories, if_pos (mem_locations.mpr (.inr ⟨leaf, hleaf, hsuffix⟩))]

theorem mem_ofDirectories : loc ∈ (ofDirectories leaves).nodes ↔ loc ∈ locations leaves := by
  rw [← AList.lookup_isSome, lookup_ofDirectories]
  split <;> simp_all

theorem isEmpty_ofDirectories (h : ∀ leaf ∈ leaves, ∀ name, ¬ (name :: loc) <:+ leaf) :
    (ofDirectories leaves).isEmpty loc = true := by
  rw [isEmpty_iff]
  intro name hmem
  rcases mem_locations.mp (mem_ofDirectories.mp hmem) with hnil | ⟨leaf, hleaf, hsuffix⟩
  · cases hnil
  · exact h leaf hleaf name hsuffix

theorem not_isEmpty_ofDirectories {name : List α} (hleaf : leaf ∈ leaves)
    (hsuffix : (name :: loc) <:+ leaf) : (ofDirectories leaves).isEmpty loc = false := by
  rw [Bool.eq_false_iff]
  intro hempty
  exact isEmpty_iff.mp hempty name (isDir_ofDirectories hleaf hsuffix).mem

end FileSystem

end DdeCooperation.Foundations
