import Mathlib.Data.List.Infix

/-!
# Lexical resolution of paths

A path is a list of characters, split into components at a separator. Resolving
it drops empty components and single dots, and lets a pair of dots cancel the
component before it. At the root of an absolute path a pair of dots has no effect;
at the start of a relative path it stays. One path is within another one when it
resolves to the other one followed by ordinary components.

What is appended to a path acts as a route: so many levels up, then down through
some components. The route ends within the path it starts from exactly when its
components begin with those that it left.

The characters are arbitrary; `sep` and `dot` are parameters.
-/

namespace DdeCooperation.Foundations

variable {α : Type*}

/-- A resolved path, with the innermost component first. -/
structure ResolvedPath (α : Type*) where
  absolute : Bool
  components : List (List α)

/-- A resolved continuation of a path: the levels it climbs and the components it then
enters, with the innermost one first. -/
structure Route (α : Type*) where
  ups : ℕ
  names : List (List α)

namespace ResolvedPath

/-- `inner` is `outer` or lies below it. -/
def Within (dot : α) (outer inner : ResolvedPath α) : Prop :=
  inner.absolute = outer.absolute ∧ outer.components <:+ inner.components ∧
    ∀ component ∈ inner.components.take (inner.components.length - outer.components.length),
      component ≠ [dot, dot]

variable {dot : α} {outer inner : ResolvedPath α}

theorem within_iff :
    Within dot outer inner ↔ inner.absolute = outer.absolute ∧ ∃ new,
      new ++ outer.components = inner.components ∧ ∀ component ∈ new, component ≠ [dot, dot] := by
  refine and_congr_right fun _ ↦ ⟨?_, ?_⟩
  · rintro ⟨⟨new, hnew⟩, hplain⟩
    refine ⟨new, hnew, ?_⟩
    rwa [← hnew, List.length_append, Nat.add_sub_cancel, List.take_left] at hplain
  · rintro ⟨new, hnew, hplain⟩
    refine ⟨⟨new, hnew⟩, ?_⟩
    rwa [← hnew, List.length_append, Nat.add_sub_cancel, List.take_left]

theorem within_refl (dot : α) (path : ResolvedPath α) : Within dot path path :=
  within_iff.mpr ⟨rfl, [], rfl, by simp⟩

/-- A directory on the way to a path within another one is within it too, or on the way to
it. -/
theorem Within.of_suffix {dir : ResolvedPath α} (h : Within dot outer inner)
    (habsolute : dir.absolute = inner.absolute) (hdir : dir.components <:+ inner.components)
    (hnot : ¬ dir.components <:+ outer.components) : Within dot outer dir := by
  obtain ⟨hsame, new, hnew, hplain⟩ := within_iff.mp h
  have houter : outer.components <:+ dir.components :=
    (List.suffix_or_suffix_of_suffix ⟨new, hnew⟩ hdir).resolve_right hnot
  obtain ⟨rest, hrest⟩ := houter
  refine within_iff.mpr ⟨habsolute.trans hsame, rest, hrest, fun component hmem ↦ ?_⟩
  obtain ⟨front, hfront⟩ := hdir
  have hparts : front ++ rest = new := by
    rw [← hrest, ← hnew, ← List.append_assoc] at hfront
    exact List.append_cancel_right hfront
  refine hplain component ?_
  rw [← hparts]
  exact List.mem_append_right _ hmem

variable [DecidableEq α]

instance (dot : α) (outer inner : ResolvedPath α) : Decidable (Within dot outer inner) :=
  inferInstanceAs (Decidable (_ ∧ _ ∧ _))

/-- One more component. -/
def enter (dot : α) (absolute : Bool) (components : List (List α)) (component : List α) :
    List (List α) :=
  if component = [] ∨ component = [dot] then components
  else if component = [dot, dot] then
    match components with
    | [] => if absolute then [] else [component]
    | last :: rest => if last = [dot, dot] then component :: components else rest
  else component :: components

def resolve (sep dot : α) (path : List α) : ResolvedPath α where
  absolute := path.head? = some sep
  components := (path.splitOn sep).foldl (enter dot (path.head? = some sep)) []

/-- One level up. -/
def up (dot : α) (absolute : Bool) (components : List (List α)) : List (List α) :=
  enter dot absolute components [dot, dot]

section

variable {dot : α} {absolute : Bool} {components : List (List α)} {component last : List α}

theorem enter_skip (h : component = [] ∨ component = [dot]) :
    enter dot absolute components component = components := by
  unfold enter
  rw [if_pos h]

theorem enter_dots : enter dot absolute components [dot, dot] = up dot absolute components := rfl

theorem up_cons (hlast : last ≠ [dot, dot]) :
    up dot absolute (last :: components) = components := by
  simp [up, enter, hlast]

theorem up_nil : up dot true [] = [] := by
  simp [up, enter]

theorem up_replicate (n : ℕ) : up dot false (List.replicate n [dot, dot]) =
    List.replicate (n + 1) [dot, dot] := by
  cases n <;> simp [up, enter, List.replicate_succ]

theorem enter_name (hskip : ¬ (component = [] ∨ component = [dot])) (hup : component ≠ [dot, dot]) :
    enter dot absolute components component = component :: components := by
  unfold enter
  rw [if_neg hskip, if_neg hup]

end

/-! ## The shape of a resolved path -/

/-- Pairs of dots remain only at the start of a relative path. -/
def Normal (dot : α) (absolute : Bool) (components : List (List α)) : Prop :=
  ∃ plain n, components = plain ++ List.replicate n [dot, dot] ∧
    (∀ component ∈ plain, component ≠ [dot, dot]) ∧ (absolute = true → n = 0)

variable {absolute : Bool}

theorem Normal.enter {components : List (List α)}
    (h : Normal dot absolute components) (component : List α) :
    Normal dot absolute (enter dot absolute components component) := by
  obtain ⟨plain, n, rfl, hplain, hn⟩ := h
  by_cases hskip : component = [] ∨ component = [dot]
  · rw [enter_skip hskip]
    exact ⟨plain, n, rfl, hplain, hn⟩
  · by_cases hup : component = [dot, dot]
    · rw [hup, enter_dots]
      cases plain with
      | cons last plain =>
        rw [List.cons_append, up_cons (hplain last List.mem_cons_self)]
        exact ⟨plain, n, rfl, fun other hother ↦ hplain other (List.mem_cons_of_mem _ hother), hn⟩
      | nil =>
        cases absolute with
        | true =>
          rw [hn rfl]
          exact ⟨[], 0, up_nil, by simp, fun _ ↦ rfl⟩
        | false => exact ⟨[], n + 1, up_replicate n, by simp, by simp⟩
    · rw [enter_name hskip hup]
      exact ⟨component :: plain, n, rfl, List.forall_mem_cons.mpr ⟨hup, hplain⟩, hn⟩

theorem normal_resolve (sep dot : α) (path : List α) :
    Normal dot (resolve sep dot path).absolute (resolve sep dot path).components :=
  List.foldlRecOn (motive := Normal dot (path.head? = some sep)) _ _
    ⟨[], 0, rfl, by simp, fun _ ↦ rfl⟩ fun _ h component _ ↦ h.enter component

variable {plain : List (List α)} {n k : ℕ}

/-- Levels up remove components, as long as there are any or the path is absolute. -/
theorem iterate_up_eq_drop
    (hplain : ∀ component ∈ plain, component ≠ [dot, dot]) (hn : absolute = true → n = 0)
    (hk : absolute = true ∨ k ≤ plain.length) :
    (up dot absolute)^[k] (plain ++ List.replicate n [dot, dot]) =
      (plain ++ List.replicate n [dot, dot]).drop k := by
  induction k generalizing plain with
  | zero => rfl
  | succ k ih =>
    rw [Function.iterate_succ_apply]
    cases plain with
    | nil =>
      have habsolute : absolute = true := by simpa using hk
      subst habsolute
      rw [hn rfl, List.replicate_zero, List.nil_append, up_nil, List.drop_nil]
      exact Function.iterate_fixed up_nil k
    | cons last plain =>
      rw [List.cons_append, up_cons (hplain last List.mem_cons_self), List.drop_succ_cons]
      refine ih (fun other hother ↦ hplain other (List.mem_cons_of_mem _ hother)) ?_
      simpa using hk

theorem iterate_up_replicate (dot : α) (n k : ℕ) :
    (up dot false)^[k] (List.replicate n [dot, dot]) = List.replicate (n + k) [dot, dot] := by
  induction k with
  | zero => rfl
  | succ k ih => rw [Function.iterate_succ_apply', ih, up_replicate, Nat.add_assoc]

/-- A relative path that is left behind altogether only keeps pairs of dots. -/
theorem iterate_up_eq_replicate
    (hplain : ∀ component ∈ plain, component ≠ [dot, dot]) (hk : plain.length ≤ k) :
    (up dot false)^[k] (plain ++ List.replicate n [dot, dot]) =
      List.replicate (n + (k - plain.length)) [dot, dot] := by
  have hsplit : k = (k - plain.length) + plain.length := by omega
  have hdrop := iterate_up_eq_drop (n := n) hplain (fun h : false = true ↦ nomatch h) (.inr le_rfl)
  rw [List.drop_left] at hdrop
  calc (up dot false)^[k] (plain ++ List.replicate n [dot, dot])
      = (up dot false)^[k - plain.length]
          ((up dot false)^[plain.length] (plain ++ List.replicate n [dot, dot])) := by
        rw [← Function.iterate_add_apply, ← hsplit]
    _ = (up dot false)^[k - plain.length] (List.replicate n [dot, dot]) := by rw [hdrop]
    _ = List.replicate (n + (k - plain.length)) [dot, dot] := iterate_up_replicate dot n _

/-- One more component adds itself, or nothing. -/
theorem enter_eq_cons_or_length_le (dot : α) (absolute : Bool) (components : List (List α))
    (component : List α) (habsolute : absolute = true ∨ components ≠ []) :
    enter dot absolute components component = component :: components ∨
      (enter dot absolute components component).length ≤ components.length := by
  unfold enter
  split
  · exact .inr le_rfl
  · split
    · cases components with
      | nil =>
        have htrue : absolute = true := habsolute.resolve_right fun h ↦ h rfl
        simp [htrue]
      | cons last rest =>
        dsimp only
        split
        · exact .inl rfl
        · exact .inr (Nat.le_succ _)
    · exact .inl rfl

end ResolvedPath

/-! ## Routes -/

namespace Route

open ResolvedPath List

variable [DecidableEq α]

def step (dot : α) (route : Route α) (component : List α) : Route α :=
  if component = [] ∨ component = [dot] then route
  else if component = [dot, dot] then
    match route.names with
    | [] => { route with ups := route.ups + 1 }
    | _ :: names => { route with names := names }
  else { route with names := component :: route.names }

/-- The route that the text after a separator describes. -/
def ofPath (sep dot : α) (path : List α) : Route α := (path.splitOn sep).foldl (step dot) ⟨0, []⟩

/-- Where the route leads from a directory. -/
def follow (dot : α) (absolute : Bool) (start : List (List α)) (route : Route α) :
    List (List α) :=
  route.names ++ (up dot absolute)^[route.ups] start

/-- The components of the route begin with those it has left, and it does not climb
above the start of a relative path. -/
def LeadsBack (dot : α) (path : ResolvedPath α) (route : Route α) : Prop :=
  path.components.take route.ups <:+ route.names ∧
    (path.absolute = true ∨ route.ups ≤ path.components.countP (· ≠ [dot, dot]))

instance (dot : α) (path : ResolvedPath α) (route : Route α) :
    Decidable (LeadsBack dot path route) :=
  inferInstanceAs (Decidable (_ ∧ _))

variable {dot : α} {route : Route α}

/-- Entering a component after a route is following the longer route. -/
theorem follow_step (absolute : Bool) (start : List (List α))
    (hplain : ∀ name ∈ route.names, name ≠ [dot, dot]) (component : List α) :
    (route.step dot component).follow dot absolute start =
        enter dot absolute (route.follow dot absolute start) component ∧
      ∀ name ∈ (route.step dot component).names, name ≠ [dot, dot] := by
  obtain ⟨ups, names⟩ := route
  unfold step
  by_cases hskip : component = [] ∨ component = [dot]
  · rw [if_pos hskip, enter_skip hskip]
    exact ⟨rfl, hplain⟩
  · rw [if_neg hskip]
    by_cases hup : component = [dot, dot]
    · rw [if_pos hup, hup, enter_dots]
      cases names with
      | nil => exact ⟨Function.iterate_succ_apply' _ _ _, hplain⟩
      | cons last names =>
        refine ⟨?_, fun name hname ↦ hplain name (mem_cons_of_mem _ hname)⟩
        exact (up_cons (hplain last mem_cons_self)).symm
    · rw [if_neg hup, enter_name hskip hup]
      exact ⟨rfl, forall_mem_cons.mpr ⟨hup, hplain⟩⟩

theorem follow_ofPath (sep dot : α) (absolute : Bool) (start : List (List α)) (path : List α) :
    (ofPath sep dot path).follow dot absolute start =
        (path.splitOn sep).foldl (enter dot absolute) start ∧
      ∀ name ∈ (ofPath sep dot path).names, name ≠ [dot, dot] := by
  suffices ∀ (components : List (List α)) (route : Route α),
      (∀ name ∈ route.names, name ≠ [dot, dot]) →
        (components.foldl (step dot) route).follow dot absolute start =
            components.foldl (enter dot absolute) (route.follow dot absolute start) ∧
          ∀ name ∈ (components.foldl (step dot) route).names, name ≠ [dot, dot] from
    this (path.splitOn sep) ⟨0, []⟩ (by simp)
  intro components
  induction components with
  | nil => exact fun route hplain ↦ ⟨rfl, hplain⟩
  | cons component components ih =>
    intro route hplain
    obtain ⟨hfollow, hplain⟩ := follow_step absolute start hplain component
    rw [foldl_cons, foldl_cons, ← hfollow]
    exact ih _ hplain

variable {sep dot : α} {base : List α}

/-- A path that goes on after a separator follows the route of its continuation. -/
theorem resolve_append (hbase : base ≠ []) (rest : List α) :
    resolve sep dot (base ++ sep :: rest) =
      { absolute := (resolve sep dot base).absolute
        components := (ofPath sep dot rest).follow dot (resolve sep dot base).absolute
          (resolve sep dot base).components } := by
  have hhead : (base ++ sep :: rest).head? = base.head? := by
    cases base with
    | nil => exact absurd rfl hbase
    | cons => rfl
  rw [(follow_ofPath sep dot _ _ rest).1]
  simp only [resolve, hhead, splitOn_append_cons_self, foldl_append]

/-- A name after a separator is one more component. -/
theorem resolve_append_name {name : List α} (hbase : base ≠ []) (hname : sep ∉ name) :
    resolve sep dot (base ++ sep :: name) =
      { absolute := (resolve sep dot base).absolute
        components := enter dot (resolve sep dot base).absolute
          (resolve sep dot base).components name } := by
  rw [resolve_append hbase, (follow_ofPath sep dot _ _ name).1, splitOn_eq_singleton hname]
  rfl

theorem countP_components {plain : List (List α)} {n : ℕ}
    (hplain : ∀ component ∈ plain, component ≠ [dot, dot]) :
    (plain ++ List.replicate n [dot, dot]).countP (· ≠ [dot, dot]) = plain.length := by
  have hall : plain.countP (· ≠ [dot, dot]) = plain.length :=
    countP_eq_length.mpr fun component hmem ↦ decide_eq_true (hplain component hmem)
  rw [countP_append, hall, countP_replicate]
  simp

/-- A route ends within the path it starts from if and only if it leads back. -/
theorem within_follow_iff {path : ResolvedPath α}
    (hnormal : Normal dot path.absolute path.components)
    (hnames : ∀ name ∈ route.names, name ≠ [dot, dot]) :
    Within dot path ⟨path.absolute, route.follow dot path.absolute path.components⟩ ↔
      route.LeadsBack dot path := by
  obtain ⟨absolute, components⟩ := path
  obtain ⟨plain, n, hcomponents, hplain, hn⟩ := hnormal
  dsimp only at hcomponents hn ⊢
  rw [within_iff, LeadsBack, hcomponents, countP_components hplain]
  dsimp only
  by_cases hk : absolute = true ∨ route.ups ≤ plain.length
  · have hfollow := iterate_up_eq_drop hplain hn hk
    rw [follow, hfollow]
    constructor
    · rintro ⟨-, new, hnew, -⟩
      refine ⟨?_, hk⟩
      rw [← suffix_append_self_iff, take_append_drop]
      exact ⟨new, hnew⟩
    · rintro ⟨⟨new, hnew⟩, -⟩
      refine ⟨rfl, new, ?_, fun component hmem ↦ hnames component ?_⟩
      · rw [← hnew, append_assoc, take_append_drop]
      · rw [← hnew]
        exact mem_append_left _ hmem
  · refine iff_of_false ?_ fun h ↦ hk h.2
    -- A relative path that is left behind resolves to more pairs of dots than it has.
    rintro ⟨-, new, hnew, hnewPlain⟩
    obtain ⟨habsolute, hups⟩ := not_or.mp hk
    have hrelative : absolute = false := Bool.eq_false_iff.mpr habsolute
    rw [hrelative, follow, iterate_up_eq_replicate hplain (by omega)] at hnew
    have hcount := congrArg (count [dot, dot]) hnew
    simp only [count_append, count_replicate_self] at hcount
    rw [count_eq_zero_of_not_mem fun hmem ↦ hnewPlain _ hmem rfl,
      count_eq_zero_of_not_mem fun hmem ↦ hplain _ hmem rfl,
      count_eq_zero_of_not_mem fun hmem ↦ hnames _ hmem rfl] at hcount
    omega

/-- A continuation ends within a path if and only if its route leads back. -/
theorem within_append_iff (hbase : base ≠ []) (rest : List α) :
    Within dot (resolve sep dot base) (resolve sep dot (base ++ sep :: rest)) ↔
      (ofPath sep dot rest).LeadsBack dot (resolve sep dot base) := by
  rw [resolve_append hbase]
  exact within_follow_iff (normal_resolve sep dot base) (follow_ofPath sep dot false [] rest).2

end Route

end DdeCooperation.Foundations
