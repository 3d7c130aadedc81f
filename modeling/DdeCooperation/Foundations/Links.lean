import DdeCooperation.Foundations.FileSystem
import Mathlib.Data.Set.Finite.Lemmas

/-!
# A file system with symbolic links

An entry is a directory, a file or a link, which carries a path as text. Two things walk
along a path and go on at its target where they meet a link. `Resolves` says which place
a path denotes, whether or not there is anything: a name without an entry leads down to
where it would be created. `realpath` is the library call. It fails at a name without an
entry and after so many links, and then returns nothing.

`Shelters` says of a directory that no link below it leads out of it. From there only
paths that climb lead out (`Shelters.resolves`).

The characters are arbitrary; `sep` and `dot` are parameters.
-/

namespace DdeCooperation.Foundations

open ResolvedPath List

variable {α : Type*} [DecidableEq α]

inductive Entry (α : Type*) where
  | directory
  | file
  | link (target : List α)
deriving DecidableEq

structure LinkedFileSystem (sep dot : α) where
  entries : AList (fun _ : Location α ↦ Entry α)
  root : entries.lookup [] = some .directory
  parents : ∀ loc ∈ entries.keys, loc ≠ [] → entries.lookup loc.tail = some .directory
  names : ∀ loc ∈ entries.keys, ∀ name ∈ loc, Ordinary sep dot name

/-- Where a path starts. -/
def origin (sep : α) (loc : Location α) (path : List α) : Location α :=
  if path.head? = some sep then [] else loc

namespace LinkedFileSystem

variable {sep dot : α} (fs : LinkedFileSystem sep dot)

def IsDir (loc : Location α) : Prop := fs.entries.lookup loc = some .directory

instance (loc : Location α) : Decidable (fs.IsDir loc) := inferInstanceAs (Decidable (_ = _))

/-- The target of the link with a name in a directory. -/
def link (loc : Location α) (name : List α) : Option (List α) :=
  match fs.entries.lookup (name :: loc) with
  | some (.link target) => some target
  | some .directory | some .file | none => none

/-- Following the components from a location leads to another one. -/
inductive Resolves : Location α → List (List α) → Location α → Prop
  | done (loc : Location α) : Resolves loc [] loc
  | enter {loc dest : Location α} {name : List α} {rest : List (List α)}
      (hlink : fs.link loc name = none)
      (hrest : Resolves (ResolvedPath.enter dot true loc name) rest dest) :
      Resolves loc (name :: rest) dest
  | follow {loc dest : Location α} {name target : List α} {rest : List (List α)}
      (hlink : fs.link loc name = some target)
      (hrest : Resolves (origin sep loc target) (target.splitOn sep ++ rest) dest) :
      Resolves loc (name :: rest) dest

/-- The place that a path denotes for a process with a current directory. -/
def Denotes (cwd : Location α) (path : List α) (dest : Location α) : Prop :=
  fs.Resolves (origin sep cwd path) (path.splitOn sep) dest

/-! ## `realpath` -/

/-- The walk of `realpath`, where `jump` goes on behind a link. -/
def walkWith (jump : Location α → List (List α) → Option (Location α)) :
    Location α → List (List α) → Option (Location α)
  | loc, [] => some loc
  | loc, name :: rest =>
    if fs.IsDir loc then
      match fs.link loc name with
      | some target => jump (origin sep loc target) (target.splitOn sep ++ rest)
      | none =>
        if enter dot true loc name ∈ fs.entries then
          walkWith jump (enter dot true loc name) rest
        else none
    else none

def walk : ℕ → Location α → List (List α) → Option (Location α)
  | 0 => fs.walkWith fun _ _ ↦ none
  | links + 1 => fs.walkWith (walk links)

/-- The absolute path without links, for a system that follows so many of them. -/
def realpath (links : ℕ) (cwd : Location α) (path : List α) : Option (List α) :=
  if path = [] then none
  else (fs.walk links (origin sep cwd path) (path.splitOn sep)).map (pathTo sep)

variable {fs} {loc mid dest outer : Location α} {name target : List α}
  {first second rest : List (List α)}

/-! ## Entries -/

theorem IsDir.mem (h : fs.IsDir loc) : loc ∈ fs.entries := AList.lookup_isSome.mp (by rw [h]; rfl)

theorem isDir_of_mem (h : (name :: loc) ∈ fs.entries) : fs.IsDir loc :=
  fs.parents (name :: loc) (AList.mem_keys.mp h) (cons_ne_nil _ _)

theorem link_eq_some : fs.link loc name = some target ↔
    fs.entries.lookup (name :: loc) = some (.link target) := by
  unfold link
  split <;> simp_all

theorem mem_of_link (h : fs.link loc name = some target) : (name :: loc) ∈ fs.entries :=
  AList.lookup_isSome.mp (by rw [link_eq_some.mp h]; rfl)

theorem link_eq_none_of_not_mem (h : (name :: loc) ∉ fs.entries) : fs.link loc name = none := by
  rw [link, AList.lookup_eq_none.mpr h]

theorem link_eq_none_of_isDir (h : fs.IsDir (name :: loc)) : fs.link loc name = none := by
  rw [link, show fs.entries.lookup (name :: loc) = some .directory from h]

theorem ordinary_of_mem (h : loc ∈ fs.entries) (hname : name ∈ loc) : Ordinary sep dot name :=
  fs.names loc (AList.mem_keys.mp h) name hname

/-- There is no entry under a component that does not lead down. -/
theorem link_eq_none_of_not_ordinary (h : ¬ Ordinary sep dot name) : fs.link loc name = none :=
  link_eq_none_of_not_mem fun hmem ↦ h (ordinary_of_mem hmem mem_cons_self)

/-! ## Resolution -/

theorem Resolves.unique {dest' : Location α} (h : fs.Resolves loc rest dest)
    (h' : fs.Resolves loc rest dest') : dest = dest' := by
  induction h with
  | done => cases h'; rfl
  | enter hlink hrest ih =>
    cases h' with
    | enter hlink' hrest' => exact ih hrest'
    | follow hlink' hrest' => simp [hlink] at hlink'
  | follow hlink hrest ih =>
    cases h' with
    | enter hlink' hrest' => simp [hlink] at hlink'
    | follow hlink' hrest' =>
      rw [hlink, Option.some.injEq] at hlink'
      subst hlink'
      exact ih hrest'

theorem Resolves.append (h : fs.Resolves loc first mid) (h' : fs.Resolves mid second dest) :
    fs.Resolves loc (first ++ second) dest := by
  induction h with
  | done => exact h'
  | enter hlink hrest ih => exact .enter hlink (ih h')
  | follow hlink hrest ih =>
    refine .follow hlink ?_
    have hih := ih h'
    rwa [append_assoc] at hih

/-- A longer path passes through the place that its beginning denotes. -/
theorem Resolves.split (h : fs.Resolves loc (first ++ second) dest) :
    ∃ mid, fs.Resolves loc first mid ∧ fs.Resolves mid second dest := by
  generalize hpath : first ++ second = path at h
  induction h generalizing first with
  | done loc =>
    obtain ⟨rfl, rfl⟩ := append_eq_nil_iff.mp hpath
    exact ⟨loc, .done loc, .done loc⟩
  | @enter loc dest name rest hlink hrest ih =>
    cases first with
    | nil =>
      obtain rfl : second = name :: rest := hpath
      exact ⟨loc, .done loc, .enter hlink hrest⟩
    | cons name' first =>
      rw [cons_append, cons_eq_cons] at hpath
      obtain ⟨rfl, htail⟩ := hpath
      obtain ⟨mid, hfirst, hsecond⟩ := ih htail
      exact ⟨mid, .enter hlink hfirst, hsecond⟩
  | @follow loc dest name target rest hlink hrest ih =>
    cases first with
    | nil =>
      obtain rfl : second = name :: rest := hpath
      exact ⟨loc, .done loc, .follow hlink hrest⟩
    | cons name' first =>
      rw [cons_append, cons_eq_cons] at hpath
      obtain ⟨rfl, htail⟩ := hpath
      have hjump : (target.splitOn sep ++ first) ++ second = target.splitOn sep ++ rest := by
        rw [append_assoc, htail]
      obtain ⟨mid, hfirst, hsecond⟩ := ih hjump
      exact ⟨mid, .follow hlink hfirst, hsecond⟩

theorem resolves_append : fs.Resolves loc (first ++ second) dest ↔
    ∃ mid, fs.Resolves loc first mid ∧ fs.Resolves mid second dest :=
  ⟨Resolves.split, fun ⟨_, hfirst, hsecond⟩ ↦ hfirst.append hsecond⟩

theorem resolves_cons : fs.Resolves loc (name :: rest) dest ↔
    ∃ mid, fs.Resolves loc [name] mid ∧ fs.Resolves mid rest dest := by
  rw [← singleton_append, resolves_append]

theorem resolves_nil : fs.Resolves loc [] dest ↔ dest = loc := by
  constructor
  · rintro ⟨⟩
    rfl
  · rintro rfl
    exact .done _

/-- A component that stays where it is may be left out. -/
theorem resolves_skip (h : name = [] ∨ name = [dot]) :
    fs.Resolves loc (name :: rest) dest ↔ fs.Resolves loc rest dest := by
  have hlink : fs.link loc name = none := link_eq_none_of_not_ordinary fun hname ↦ by
    rcases h with rfl | rfl
    · exact hname.1 rfl
    · exact hname.2.1 rfl
  constructor
  · rintro (_ | ⟨_, hrest⟩ | ⟨hlink', _⟩)
    · rwa [enter_skip h] at hrest
    · simp [hlink] at hlink'
  · intro hrest
    refine .enter hlink ?_
    rwa [enter_skip h]

/-- Directories lead down by their names. -/
theorem resolves_isDir {inner : Location α} (h : fs.IsDir (inner ++ loc)) :
    fs.Resolves loc inner.reverse (inner ++ loc) := by
  induction inner with
  | nil => exact .done loc
  | cons name inner ih =>
    rw [cons_append] at h
    rw [reverse_cons]
    refine (ih (isDir_of_mem h.mem)).append (.enter (link_eq_none_of_isDir h) ?_)
    rw [enter_ordinary (ordinary_of_mem h.mem mem_cons_self)]
    exact .done _

/-- What `realpath` finds is the place that the path denotes. -/
theorem resolves_of_walk {links : ℕ} (h : fs.walk links loc rest = some dest) :
    fs.Resolves loc rest dest := by
  have hwith : ∀ jump : Location α → List (List α) → Option (Location α),
      (∀ loc rest, jump loc rest = some dest → fs.Resolves loc rest dest) →
        ∀ loc rest, fs.walkWith jump loc rest = some dest → fs.Resolves loc rest dest := by
    intro jump hjump loc rest hwalk
    induction rest generalizing loc with
    | nil =>
      rw [walkWith, Option.some.injEq] at hwalk
      exact resolves_nil.mpr hwalk.symm
    | cons name rest ih =>
      rw [walkWith] at hwalk
      split at hwalk
      · split at hwalk
        next target hlink => exact .follow hlink (hjump _ _ hwalk)
        next hlink =>
          split at hwalk
          · exact .enter hlink (ih _ hwalk)
          · cases hwalk
      · cases hwalk
  induction links generalizing loc rest with
  | zero => exact hwith _ (fun _ _ hnone ↦ by cases hnone) loc rest h
  | succ links ih => exact hwith _ (fun _ _ ↦ ih) loc rest h

/-- A name that occurs nowhere. -/
structure Unused (fs : LinkedFileSystem sep dot) (name : List α) : Prop where
  ordinary : Ordinary sep dot name
  unused : ∀ loc ∈ fs.entries, name ∉ loc

theorem Unused.link (h : fs.Unused name) : fs.link loc name = none :=
  link_eq_none_of_not_mem fun hmem ↦ h.unused _ hmem mem_cons_self

theorem Unused.resolves (h : fs.Unused name) : fs.Resolves loc [name] (name :: loc) := by
  refine .enter h.link ?_
  rw [enter_ordinary h.ordinary]
  exact .done _

/-- `realpath` does not get past a name without an entry. -/
theorem Unused.walk_eq_none (h : fs.Unused name) (links : ℕ) (loc : Location α)
    (first : List (List α)) : fs.walk links loc (first ++ name :: rest) = none := by
  have hwith : ∀ jump : Location α → List (List α) → Option (Location α),
      (∀ loc first, jump loc (first ++ name :: rest) = none) →
        ∀ loc first, fs.walkWith jump loc (first ++ name :: rest) = none := by
    intro jump hjump loc first
    induction first generalizing loc with
    | nil =>
      have hmem : enter dot true loc name ∉ fs.entries := by
        rw [enter_ordinary h.ordinary]
        exact fun hmem ↦ h.unused _ hmem mem_cons_self
      rw [nil_append, walkWith, h.link]
      dsimp only
      rw [if_neg hmem, ite_self]
    | cons other first ih =>
      rw [cons_append, walkWith]
      split
      · split
        · rw [← append_assoc]
          exact hjump _ _
        · rw [ih, ite_self]
      · rfl
  induction links generalizing loc first with
  | zero => exact hwith _ (fun _ _ ↦ rfl) loc first
  | succ links ih => exact hwith _ ih loc first

theorem Unused.realpath_eq_none (h : fs.Unused name) (links : ℕ) (cwd : Location α)
    {path : List α} (hmem : name ∈ path.splitOn sep) : fs.realpath links cwd path = none := by
  obtain ⟨first, rest, hsplit⟩ := append_of_mem hmem
  rw [realpath]
  split
  · rfl
  · rw [hsplit, h.walk_eq_none, Option.map_none]

/-- There are enough names. -/
theorem exists_unused (fs : LinkedFileSystem sep dot) {c : α} (hsep : c ≠ sep) (hdot : c ≠ dot)
    (avoid : List (List α)) : ∃ n, fs.Unused (List.replicate (n + 1) c) ∧
      List.replicate (n + 1) c ∉ avoid := by
  have hinjective : Function.Injective fun n ↦ replicate (n + 1) c := by
    intro m n heq
    simpa using congrArg length heq
  obtain ⟨_, ⟨n, rfl⟩, hfresh⟩ := (Set.infinite_range_of_injective hinjective).exists_notMem_finset
    (avoid ++ fs.entries.keys.flatten).toFinset
  rw [mem_toFinset, mem_append, not_or] at hfresh
  refine ⟨n, ⟨⟨cons_ne_nil _ _, ?_, ?_, ?_⟩, fun loc hloc hmem ↦ hfresh.2 ?_⟩, hfresh.1⟩
  · exact fun heq ↦ hdot (cons.inj heq).1
  · exact fun heq ↦ hdot (cons.inj heq).1
  · exact fun hmem ↦ hsep (eq_of_mem_replicate hmem).symm
  · exact mem_flatten.mpr ⟨loc, AList.mem_keys.mp hloc, hmem⟩

/-! ## Directories that shelter what is below them -/

/-- No link below the directory leads out of it. -/
def Shelters (fs : LinkedFileSystem sep dot) (dir : Location α) : Prop :=
  ∀ loc name target, dir <:+ loc → fs.link loc name = some target →
    ∀ dest, fs.Resolves (origin sep loc target) (target.splitOn sep) dest → dir <:+ dest

/-- A path that does not climb stays below the directory. -/
theorem Shelters.resolves {dir : Location α} (h : fs.Shelters dir)
    (hup : ∀ name ∈ rest, name ≠ [dot, dot]) (hloc : dir <:+ loc)
    (hresolves : fs.Resolves loc rest dest) : dir <:+ dest := by
  -- A link is replaced by the place it leads to, so that only the path itself shrinks.
  induction rest generalizing loc with
  | nil => rwa [resolves_nil.mp hresolves]
  | cons name rest ih =>
    rw [forall_mem_cons] at hup
    cases hresolves with
    | enter hlink hrest =>
      refine ih hup.2 ?_ hrest
      by_cases hskip : name = [] ∨ name = [dot]
      · rwa [enter_skip hskip]
      · rw [enter_name hskip hup.1]
        exact hloc.trans (suffix_cons _ _)
    | follow hlink hrest =>
      obtain ⟨mid, htarget, hrest⟩ := hrest.split
      exact ih hup.2 (h loc name _ hloc hlink mid htarget) hrest

end LinkedFileSystem

end DdeCooperation.Foundations
