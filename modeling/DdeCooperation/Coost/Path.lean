import DdeCooperation.Foundations.Links
import DdeCooperation.Web.Naming

/-!
# Paths of the coost library

`path::clean` returns the shortest path that is lexically the same, `path::join` joins
two elements and cleans the result, and `path::split` cuts a path after its last slash.
For absolute paths all three are statements about locations: `join` enters the components
of its second argument from the location of the first one.
-/

namespace DdeCooperation.Coost

open Foundations Foundations.ResolvedPath Web List LinkedFileSystem

/-- `path::clean`. -/
def clean (path : StdString) : StdString :=
  let resolved := resolve slash dot path
  if resolved.absolute then pathTo slash resolved.components
  else if resolved.components = [] then [dot]
  else [slash].intercalate resolved.components.reverse

/-- An element of a path with a slash behind it. -/
def terminated (element : StdString) : StdString := if element = [] then [] else element ++ [slash]

/-- `path::join`. -/
def join (path other : StdString) : StdString :=
  if terminated path ++ terminated other = [] then []
  else clean (terminated path ++ terminated other)

/-- `path::split`. -/
def split (path : StdString) : StdString × StdString :=
  (path.rdropWhile (· ≠ slash), path.rtakeWhile (· ≠ slash))

/-- The location of an absolute path, without regard to links. -/
def location (path : StdString) : Location UInt8 := (resolve slash dot path).components

/-- The components of a path that lead down. -/
def steps (path : StdString) : List StdString :=
  (path.splitOn slash).filter fun component ↦ component ≠ [] ∧ component ≠ [dot]

variable {path other : StdString} {loc : Location UInt8}

theorem clean_absolute (h : path.head? = some slash) : clean path = pathTo slash (location path) := by
  have habsolute : (resolve slash dot path).absolute = true := decide_eq_true h
  rw [clean, if_pos habsolute]
  rfl

theorem location_eq (h : path.head? = some slash) :
    location path = (path.splitOn slash).foldl (enter dot true) [] := by
  simp [location, resolve, h]

theorem ordinary_location (h : path.head? = some slash) {component : StdString}
    (hmem : component ∈ location path) : Ordinary slash dot component :=
  (ordinary_resolve h hmem).1

theorem location_pathTo (h : Ordinaries slash dot loc) : location (pathTo slash loc) = loc :=
  resolve_pathTo h

theorem splitOn_concat_slash (path : StdString) :
    (path ++ [slash]).splitOn slash = path.splitOn slash ++ [[]] := by
  rw [splitOn_append_cons_self, splitOn_nil]

/-- Joining to an absolute path enters the components of the other one. -/
theorem join_absolute (h : path.head? = some slash) (other : StdString) :
    join path other =
      pathTo slash ((other.splitOn slash).foldl (enter dot true) (location path)) := by
  have hne : path ≠ [] := by
    rintro rfl
    cases h
  have hhead : (terminated path ++ terminated other).head? = some slash := by
    rw [terminated, if_neg hne, append_assoc, head?_append, h]
    rfl
  have hvalue : terminated path ++ terminated other ≠ [] := by
    intro hnil
    rw [hnil] at hhead
    cases hhead
  rw [join, if_neg hvalue, clean_absolute hhead, location_eq hhead, location_eq h]
  congr 1
  rw [terminated, if_neg hne, terminated]
  split_ifs with hother
  · rw [append_nil, splitOn_concat_slash, foldl_append, hother]
    simp
  · rw [append_assoc, singleton_append, splitOn_append_cons_self,
      splitOn_concat_slash, foldl_append, foldl_append, foldl_cons,
      enter_skip (.inl rfl), foldl_nil]

theorem head?_join (h : path.head? = some slash) (other : StdString) :
    (join path other).head? = some slash := by
  rw [join_absolute h]
  rfl

theorem ordinary_foldl_enter (h : Ordinaries slash dot loc) (other : StdString) :
    Ordinaries slash dot ((other.splitOn slash).foldl (enter dot true) loc) := by
  intro component hmem
  rcases mem_foldl_enter hmem with hloc | ⟨hsplit, hempty, hdot, hdots⟩
  · exact h component hloc
  · exact ⟨hempty, hdot, hdots, (mem_splitOn hsplit).1⟩

theorem location_join (h : path.head? = some slash) (other : StdString) :
    location (join path other) = (other.splitOn slash).foldl (enter dot true) (location path) := by
  rw [join_absolute h, location]
  exact resolve_pathTo (ordinary_foldl_enter (fun _ ↦ ordinary_location h) other)

theorem join_eq_pathTo (h : path.head? = some slash) (other : StdString) :
    join path other = pathTo slash (location (join path other)) := by
  rw [location_join h, join_absolute h]

/-! ## Elements without pairs of dots -/

/-- A path that does not climb. -/
def Descending (path : StdString) : Prop := [dot, dot] ∉ path.splitOn slash

instance (path : StdString) : Decidable (Descending path) := inferInstanceAs (Decidable (_ ∉ _))

theorem foldl_enter_descending {absolute : Bool} {components : List StdString}
    (h : [dot, dot] ∉ components) : components.foldl (enter dot absolute) loc =
      (components.filter fun component ↦ component ≠ [] ∧ component ≠ [dot]).reverse ++ loc := by
  induction components generalizing loc with
  | nil => rfl
  | cons component components ih =>
    rw [mem_cons, not_or] at h
    rw [foldl_cons, ih h.2]
    by_cases hskip : component = [] ∨ component = [dot]
    · rw [enter_skip hskip, filter_cons_of_neg]
      simpa [imp_iff_not_or] using hskip
    · rw [enter_name hskip (Ne.symm h.1), filter_cons_of_pos, reverse_cons,
        append_assoc, singleton_append]
      simpa [not_or] using hskip

theorem location_join_descending (h : path.head? = some slash) (hother : Descending other) :
    location (join path other) = (steps other).reverse ++ location path := by
  rw [location_join h]
  exact foldl_enter_descending hother

theorem join_descending (h : path.head? = some slash) (hother : Descending other) :
    join path other = pathTo slash ((steps other).reverse ++ location path) := by
  rw [join_eq_pathTo h, location_join_descending h hother]

/-! ## Relative paths -/

/-- The relative path with the given names. -/
def relative (names : List StdString) : StdString := [slash].intercalate names

/-- A relative path that does not climb is cleaned of all that does not lead down. -/
theorem clean_relative (hhead : path.head? ≠ some slash) (h : Descending path)
    (hne : steps path ≠ []) : clean path = relative (steps path) := by
  have habsolute : (resolve slash dot path).absolute = false := decide_eq_false hhead
  have hcomponents : (resolve slash dot path).components = (steps path).reverse := by
    have hfold : (path.splitOn slash).foldl (enter dot false) [] = (steps path).reverse := by
      rw [foldl_enter_descending h, append_nil, steps]
    simpa [resolve, hhead] using hfold
  rw [clean, habsolute, hcomponents]
  simp [hne, relative]

section Relative

variable {names : List StdString} {name : StdString}

theorem splitOn_relative (hne : names ≠ []) (h : ∀ name ∈ names, slash ∉ name) :
    (relative names).splitOn slash = names :=
  splitOn_intercalate slash h hne

theorem filter_ordinary (h : Ordinaries slash dot names) :
    (names.filter fun component ↦ component ≠ [] ∧ component ≠ [dot]) = names :=
  filter_eq_self.mpr fun name hmem ↦ decide_eq_true ⟨(h name hmem).1, (h name hmem).2.1⟩

theorem steps_relative (hne : names ≠ []) (h : Ordinaries slash dot names) :
    steps (relative names) = names := by
  rw [steps, splitOn_relative hne fun name hmem ↦ (h name hmem).2.2.2, filter_ordinary h]

theorem descending_relative (hne : names ≠ []) (h : Ordinaries slash dot names) :
    Descending (relative names) := by
  rw [Descending, splitOn_relative hne fun name hmem ↦ (h name hmem).2.2.2]
  exact fun hmem ↦ (h _ hmem).2.2.1 rfl

theorem head?_relative (hname : name ≠ []) (names : List StdString) :
    (relative (name :: names)).head? = name.head? := by
  cases name with
  | nil => exact absurd rfl hname
  | cons c name =>
    cases names with
    | nil => simp [relative]
    | cons other names => simp [relative, intercalate_cons_cons]

theorem head?_relative_ne (hne : names ≠ []) (h : Ordinaries slash dot names) :
    (relative names).head? ≠ some slash := by
  cases names with
  | nil => exact absurd rfl hne
  | cons name names =>
    have hname := h name mem_cons_self
    rw [head?_relative hname.1]
    exact fun hhead ↦ hname.2.2.2 (mem_of_head? hhead)

theorem dots_relative (hne : names ≠ []) (h : ∀ name ∈ names, ¬ [dot, dot] <:+: name) :
    ¬ [dot, dot] <:+: relative names := by
  intro hpart
  obtain ⟨name, hmem, hname⟩ :=
    exists_part_of_part_intercalate (show slash ∉ [dot, dot] by decide) hne hpart
  exact h name hmem hname

/-- A relative path with slashes behind it. -/
theorem clean_splitOn (extra : List StdString) (hne : names ≠ [])
    (h : Ordinaries slash dot names) (hextra : ∀ component ∈ extra, component = [])
    (hsplit : path.splitOn slash = names ++ extra) : clean path = relative names := by
  have hpath : path = relative (names ++ extra) := by
    rw [relative, ← hsplit]
    exact (intercalate_splitOn slash).symm
  have hhead : path.head? ≠ some slash := by
    cases names with
    | nil => exact absurd rfl hne
    | cons name names =>
      have hname := h name mem_cons_self
      rw [hpath, cons_append, head?_relative hname.1]
      exact fun hhead ↦ hname.2.2.2 (mem_of_head? hhead)
  have hdescending : Descending path := by
    rw [Descending, hsplit, mem_append]
    rintro (hmem | hmem)
    · exact (h _ hmem).2.2.1 rfl
    · cases hextra _ hmem
  have hsteps : steps path = names := by
    have hnone : (extra.filter fun component ↦ component ≠ [] ∧ component ≠ [dot]) = [] := by
      rw [filter_eq_nil_iff]
      intro component hmem
      simp [hextra component hmem]
    rw [steps, hsplit, filter_append, filter_ordinary h, hnone, append_nil]
  rw [clean_relative hhead hdescending (by rwa [hsteps]), hsteps]

/-- A path below a location is the relative path after that of the location. -/
theorem pathTo_append_relative (hne : names ≠ []) (loc : Location UInt8) :
    pathTo slash (names.reverse ++ loc) = spell slash loc.reverse ++ [slash] ++ relative names := by
  have hrev : names.reverse ++ loc ≠ [] := by simp [hne]
  rw [pathTo_eq_spell hrev, reverse_append, reverse_reverse, spell_append,
    append_assoc, singleton_append, relative, cons_intercalate hne]

theorem relative_ne_nil (hne : names ≠ []) (h : Ordinaries slash dot names) :
    relative names ≠ [] := by
  intro hnil
  have hsplit := splitOn_relative hne fun name hmem ↦ (h name hmem).2.2.2
  rw [hnil, splitOn_nil] at hsplit
  exact (h [] (hsplit ▸ mem_singleton_self _)).1 rfl

theorem join_relative (hne : names ≠ []) (h : Ordinaries slash dot names)
    (hname : Ordinary slash dot name) : join (relative names) name = relative (names ++ [name]) := by
  have hvalue : terminated (relative names) ++ terminated name =
      relative names ++ slash :: (name ++ [slash]) := by
    rw [terminated, terminated, if_neg (relative_ne_nil hne h), if_neg hname.1, append_assoc,
      singleton_append]
  have hall : ∀ other ∈ names ++ [name], Ordinary slash dot other := by
    simpa [or_imp, forall_and] using ⟨h, hname⟩
  rw [join, hvalue, if_neg (by simp)]
  refine clean_splitOn [[]] (by simp) hall (by simp) ?_
  rw [splitOn_append_cons_self, splitOn_concat_slash,
    splitOn_relative hne fun name hmem ↦ (h name hmem).2.2.2,
    splitOn_eq_singleton hname.2.2.2, append_assoc]

theorem join_nil (hname : Ordinary slash dot name) : join [] name = relative [name] := by
  have hvalue : terminated [] ++ terminated name = name ++ [slash] := by
    rw [terminated, terminated, if_pos rfl, if_neg hname.1, nil_append]
  have hall : ∀ other ∈ [name], Ordinary slash dot other := by simpa using hname
  rw [join, hvalue, if_neg (by simp)]
  refine clean_splitOn [[]] (by simp) hall (by simp) ?_
  rw [splitOn_concat_slash, splitOn_eq_singleton hname.2.2.2]

/-- Joining nothing to a path that ends in a slash removes that slash. -/
theorem join_slash (hne : names ≠ []) (h : Ordinaries slash dot names) :
    join (relative names ++ [slash]) [] = relative names := by
  have hvalue : terminated (relative names ++ [slash]) ++ terminated [] =
      relative names ++ [slash] ++ [slash] := by
    rw [terminated, terminated, if_neg (by simp), if_pos rfl, append_nil]
  rw [join, hvalue, if_neg (by simp)]
  refine clean_splitOn [[], []] hne h (by simp) ?_
  rw [splitOn_concat_slash, splitOn_concat_slash,
    splitOn_relative hne fun name hmem ↦ (h name hmem).2.2.2, append_assoc]
  rfl

end Relative

/-! ## The directory of a path -/

variable {name : StdString}

theorem split_append (h : slash ∉ name) (path : StdString) :
    split (path ++ slash :: name) = (path ++ [slash], name) := by
  have hname : ∀ c ∈ name.reverse, (decide (c ≠ slash)) = true := by
    intro c hc
    refine decide_eq_true ?_
    rintro rfl
    exact h (mem_reverse.mp hc)
  simp only [split, rdropWhile, rtakeWhile, reverse_append, reverse_cons,
    append_assoc, singleton_append]
  rw [dropWhile_append_of_pos hname, takeWhile_append_of_pos hname,
    dropWhile_cons_of_neg (by simp), takeWhile_cons_of_neg (by simp)]
  simp

theorem split_pathTo (h : slash ∉ name) (loc : Location UInt8) :
    split (pathTo slash (name :: loc)) = (spell slash loc.reverse ++ [slash], name) := by
  rw [pathTo_eq_spell (cons_ne_nil _ _), reverse_cons, spell_concat, split_append h]

theorem head?_split_pathTo (h : slash ∉ name) (loc : Location UInt8) :
    (split (pathTo slash (name :: loc))).1.head? = some slash := by
  rw [split_pathTo h]
  by_cases hroot : loc = []
  · rw [hroot]
    rfl
  · rw [← pathTo_eq_spell hroot]
    rfl

/-- The directory part of a path is that of the directory. -/
theorem location_split_pathTo (h : slash ∉ name) (hloc : Ordinaries slash dot loc) :
    location (split (pathTo slash (name :: loc))).1 = loc := by
  have hordinary : Ordinaries slash dot loc.reverse :=
    fun component hmem ↦ hloc component (mem_reverse.mp hmem)
  rw [location_eq (head?_split_pathTo h loc), split_pathTo h, splitOn_concat_slash,
    splitOn_spell fun component hmem ↦ (hordinary component hmem).2.2.2, cons_append,
    foldl_cons, enter_skip (.inl rfl), foldl_append, foldl_enter_ordinary hordinary,
    foldl_cons, enter_skip (.inl rfl)]
  simp

section Links

variable {fs : LinkedFileSystem slash dot} {cwd dest : Location UInt8}

/-- Components that stay where they are do not matter to what a path denotes. -/
theorem resolves_steps {components : List StdString} : fs.Resolves loc
    (components.filter fun component ↦ component ≠ [] ∧ component ≠ [dot]) dest ↔
      fs.Resolves loc components dest := by
  induction components generalizing loc with
  | nil => rfl
  | cons component components ih =>
    by_cases hskip : component = [] ∨ component = [dot]
    · rw [filter_cons_of_neg (by simpa [imp_iff_not_or] using hskip), ih,
        resolves_skip hskip]
    · rw [filter_cons_of_pos (by simpa [not_or] using hskip), resolves_cons,
        resolves_cons]
      exact exists_congr fun mid ↦ and_congr_right fun _ ↦ ih

theorem denotes_pathTo (h : Ordinaries slash dot loc) :
    fs.Denotes cwd (pathTo slash loc) dest ↔ fs.Resolves [] loc.reverse dest := by
  have horigin : origin slash cwd (pathTo slash loc) = [] := rfl
  rw [LinkedFileSystem.Denotes, horigin, splitOn_pathTo fun component hmem ↦ (h component hmem).2.2.2,
    resolves_skip (.inl rfl)]
  split_ifs with hroot
  · rw [hroot, resolves_skip (.inl rfl)]
    rfl
  · rfl

/-- A joined path passes through the place that its first element denotes. -/
theorem denotes_join (h : path.head? = some slash) (hclean : path = pathTo slash (location path))
    (hother : Descending other) : fs.Denotes cwd (join path other) dest ↔
      ∃ mid, fs.Denotes cwd path mid ∧ fs.Resolves mid (other.splitOn slash) dest := by
  have hordinary := ordinary_foldl_enter (fun _ ↦ ordinary_location h) other
  have hpath : ∀ mid, fs.Denotes cwd path mid ↔ fs.Resolves [] (location path).reverse mid := by
    intro mid
    nth_rewrite 1 [hclean]
    exact denotes_pathTo fun _ ↦ ordinary_location h
  rw [join_absolute h, denotes_pathTo hordinary, foldl_enter_descending hother,
    reverse_append, reverse_reverse, resolves_append]
  simp only [hpath, resolves_steps]

end Links

end DdeCooperation.Coost
