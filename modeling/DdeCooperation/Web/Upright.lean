import DdeCooperation.Foundations.Volume
import DdeCooperation.Web.Containment

/-!
# Names that do not lead back up

`createNotExistPath` takes a path that the system does not find as one where nothing is, and
creates what is missing. This is wrong for a path with a pair of dots behind something that
is missing: once that has been created, the path leads to what was there all the time, and
the call that creates an empty file cuts an old one off.

Targets have no such pairs, since they are in normal form. But the parent of a target as a
`BaseKit::Path` may end in one: for the system `..\x` is a name, for `BaseKit::Path` it is
the name `x` in the directory `..`. A path is `Tame` when neither it nor its parent leads
back up. The paths that the client tries for an `Upright` name, one without a component that
begins with `..\`, are tame, and trying a tame path leaves everything as it was.
-/

namespace DdeCooperation.Web.FileClient

open Foundations BaseKit ResolvedPath List Path

/-- No component begins with two dots and a backslash. -/
def Upright (name : StdString) : Prop :=
  ∀ component ∈ name.splitOn slash, ¬ [dot, dot, backslash] <+: component

instance (name : StdString) : Decidable (Upright name) :=
  inferInstanceAs (Decidable (∀ component ∈ name.splitOn slash, _))

/-- No pair of dots is a component. -/
def Down (path : StdString) : Prop := [dot, dot] ∉ path.splitOn slash

/-- Nor is one left when separators at the end are dropped. -/
def Firm (path : StdString) : Prop := Down path ∧ Down (path.rdropWhile isSeparator)

structure Tame (path : StdString) : Prop where
  way : [dot, dot] ∉ (path.splitOn slash).dropLast
  parent : Firm (Path.parent path)

/-! ## Components -/

section Components

variable {path name rest : StdString} {c : UInt8}

/-- What is behind a text belongs to its last component. -/
theorem splitOn_append : ∃ init last, path.splitOn slash = init ++ [last] ∧
    slash ∉ last ∧ ∀ rest, (path ++ rest).splitOn slash = init ++ (last ++ rest).splitOn slash := by
  cases hsplit : splitLast (· = slash) path with
  | none =>
    have hslash : slash ∉ path :=
      fun hmem ↦ of_decide_eq_false (splitLast_eq_none.mp hsplit slash hmem) rfl
    exact ⟨[], path, splitOn_eq_singleton hslash, hslash, fun _ ↦ rfl⟩
  | some parts =>
    obtain ⟨outer, b, last⟩ := parts
    obtain ⟨hpath, hb, hlast⟩ := of_splitLast_eq_some hsplit
    have hslash : slash ∉ last := fun hmem ↦ of_decide_eq_false (hlast slash hmem) rfl
    rw [of_decide_eq_true hb] at hpath
    refine ⟨outer.splitOn slash, last, ?_, hslash, fun rest ↦ ?_⟩
    · rw [hpath, splitOn_append_cons_self, splitOn_eq_singleton hslash]
    · rw [hpath, append_assoc, cons_append, splitOn_append_cons_self]

/-- The components before the last one, of a text that is cut off. -/
theorem mem_dropLast_of_cut {component : StdString} (h : rest <+: path)
    (hmem : component ∈ (rest.splitOn slash).dropLast) :
    component ∈ (path.splitOn slash).dropLast := by
  obtain ⟨more, rfl⟩ := h
  obtain ⟨init, last, hsplit, -, happend⟩ := splitOn_append
  rw [hsplit, dropLast_concat] at hmem
  rw [happend, dropLast_append_of_ne_nil (splitOn_ne_nil _ _)]
  exact mem_append_left _ hmem

/-- A text without slash behind another one. -/
theorem mem_splitOn_append {component : StdString} (hname : slash ∉ name)
    (h : component ∈ (path ++ name).splitOn slash) :
    component ∈ path.splitOn slash ∨ name <:+ component := by
  obtain ⟨init, last, hsplit, hlast, happend⟩ := splitOn_append
  have hslash : slash ∉ last ++ name := by
    rw [List.mem_append, not_or]
    exact ⟨hlast, hname⟩
  rw [happend, List.splitOn_eq_singleton hslash, List.mem_append, List.mem_singleton] at h
  rw [hsplit]
  rcases h with hinit | rfl
  · exact .inl (mem_append_left _ hinit)
  · exact .inr (suffix_append _ _)

/-- A pair of dots needs two bytes. -/
theorem down_of_length_lt (h : path.length < 2) : Down path := by
  intro hmem
  have hpart : [dot, dot] <:+: [slash].intercalate (path.splitOn slash) := part_of_intercalate hmem
  rw [intercalate_splitOn] at hpart
  have hlength := hpart.length_le
  simp only [length_cons, length_nil] at hlength
  omega

theorem way_append (h : Down path) (hname : slash ∉ name) :
    [dot, dot] ∉ ((Path.append path name).splitOn slash).dropLast := by
  rcases eq_nil_or_concat' path with rfl | ⟨before, last, rfl⟩
  · rw [Path.append, if_pos rfl, splitOn_eq_singleton hname]
    simp
  · cases hlast : isSeparator last with
    | true =>
      obtain ⟨init, tail, hsplit, htail, happend⟩ := splitOn_append
      have hslash : slash ∉ tail ++ name := by
        rw [List.mem_append, not_or]
        exact ⟨htail, hname⟩
      rw [Path.append_of_separator hlast, append_cons, happend,
        splitOn_eq_singleton hslash, dropLast_concat]
      rw [Down, hsplit, List.mem_append, not_or] at h
      exact h.1
    | false =>
      rw [Path.append_of_not_separator hlast, splitOn_append_cons_self,
        splitOn_eq_singleton hname, dropLast_concat]
      exact h

end Components

/-! ## Parents -/

section Parents

variable {path name before rest : StdString} {c : UInt8}

theorem firm_of_length_lt (h : path.length < 2) : Firm path := ⟨down_of_length_lt h,
    down_of_length_lt ((List.rdropWhile_prefix isSeparator path).length_le.trans_lt h)⟩

theorem firm_take_one : Firm (path.take 1) := firm_of_length_lt (by simp only [length_take]; omega)

theorem firm_rdropWhile (h : Down (path.rdropWhile isSeparator)) :
    Firm (path.rdropWhile isSeparator) :=
  ⟨h, by rwa [rdropWhile_idempotent]⟩

/-- The parent of what is appended to a firm path is firm again. -/
theorem Firm.parent_append (h : Firm path) (hname : ∀ b ∈ name, isBreak b = false) :
    Firm (Path.parent (Path.append path name)) := by
  rcases eq_nil_or_concat' path with rfl | ⟨before, last, rfl⟩
  · rw [Path.append, if_pos rfl, Path.parent_of_noBreak hname]
    exact firm_of_length_lt (by simp)
  · cases hlast : isSeparator last with
    | true =>
      have hdrop : (before ++ [last]).rdropWhile isSeparator = before.rdropWhile isSeparator :=
        rdropWhile_concat_pos _ _ _ hlast
      rw [Path.append_of_separator hlast, Path.parent_append_separator before hlast hname]
      split_ifs
      · exact firm_of_length_lt (by simp)
      · exact firm_of_length_lt (by simp)
      · exact h
      · exact firm_take_one
      · exact firm_of_length_lt (by simp)
      · rw [← hdrop]
        exact firm_rdropWhile h.2
    | false =>
      rw [Path.append_of_not_separator hlast, Path.parent_append_separator _ rfl hname]
      split_ifs
      · exact firm_of_length_lt (by simp)
      · exact firm_of_length_lt (by simp)
      · constructor
        · have hdown := h.1
          rw [Down, List.splitOn_append_cons_self, List.mem_append, not_or]
          exact ⟨hdown, by simp⟩
        · rw [rdropWhile_concat_pos _ _ _ rfl]
          exact h.2
      · exact firm_take_one
      · exact firm_of_length_lt (by simp)
      · exact firm_rdropWhile h.2

theorem Firm.tame_append (h : Firm path) (hname : ∀ b ∈ name, isBreak b = false) :
    Tame (Path.append path name) :=
  ⟨way_append h.1 (slash_not_mem hname), h.parent_append hname⟩

theorem firm_download (h : Down path) : Firm (Path.append path (ascii "Download")) := by
  have hslash : slash ∉ ascii "Download" := by decide
  have hlong : ∀ component : StdString, ascii "Download" <:+ component → [dot, dot] ≠ component := by
    rintro component hsuffix rfl
    have hlength := hsuffix.length_le
    revert hlength
    decide
  have hdown : Down (Path.append path (ascii "Download")) := by
    intro hmem
    unfold Path.append at hmem
    split_ifs at hmem
    · rw [splitOn_eq_singleton hslash, mem_singleton] at hmem
      exact hlong _ suffix_rfl hmem
    · rcases mem_splitOn_append hslash hmem with hold | hsuffix
      · exact h hold
      · exact hlong _ hsuffix rfl
    · rw [List.splitOn_append_cons_self, List.mem_append, List.splitOn_eq_singleton hslash,
        mem_singleton] at hmem
      rcases hmem with hold | hnew
      · exact h hold
      · exact hlong _ suffix_rfl hnew
  refine ⟨hdown, ?_⟩
  obtain ⟨outer, last, hlast, hseparator⟩ := append_last path leaf_download
  rw [hlast, rdropWhile_concat_neg _ _ _ (by simp [hseparator]), ← hlast]
  exact hdown

/-- What comes before a separator in an upright path does not end in a pair of dots. -/
theorem down_before (hway : [dot, dot] ∉ (path.splitOn slash).dropLast) (hupright : Upright path)
    (hpath : path = before ++ c :: rest) (hc : isSeparator c = true) : Down before := by
  obtain ⟨init, last, hsplit, hlast, happend⟩ := splitOn_append
  rw [Down, hsplit, List.mem_append, List.mem_singleton, not_or]
  rw [hpath, happend, List.dropLast_append_of_ne_nil (List.splitOn_ne_nil _ _), List.mem_append,
    not_or] at hway
  refine ⟨hway.1, ?_⟩
  rintro rfl
  by_cases hslash : c = slash
  · apply hway.2
    rw [hslash, splitOn_append_cons_self, splitOn_eq_singleton hlast,
      dropLast_append_of_ne_nil (splitOn_ne_nil _ _)]
    exact mem_append_left _ mem_cons_self
  · have hback : c = backslash := by
      simp only [isSeparator, Bool.or_eq_true, decide_eq_true_eq] at hc
      exact hc.resolve_right hslash
    obtain ⟨first, others, hfirst⟩ := exists_splitOn_append
      (show slash ∉ [dot, dot, backslash] by decide) rest
    apply hupright ([dot, dot, backslash] ++ first) _ (prefix_append _ _)
    rw [hpath, happend, hback]
    refine mem_append_right _ ?_
    have hsame : [dot, dot] ++ backslash :: rest = [dot, dot, backslash] ++ rest := rfl
    rw [hsame, hfirst]
    exact mem_cons_self

theorem exists_separator (before : StdString) (hc : isSeparator c = true) (rest : StdString) :
    ∃ d rest', before ++ c :: rest = before.rdropWhile isSeparator ++ d :: rest' ∧
      isSeparator d = true := by
  induction before using reverseRecOn generalizing c rest with
  | nil => exact ⟨c, rest, rfl, hc⟩
  | append_singleton before last ih =>
    by_cases hlast : isSeparator last = true
    · rw [rdropWhile_concat_pos _ _ _ hlast, append_assoc]
      exact ih hlast (c :: rest)
    · rw [rdropWhile_concat_neg _ _ _ hlast]
      exact ⟨c, rest, rfl, hc⟩

theorem firm_parent (hway : [dot, dot] ∉ (path.splitOn slash).dropLast) (hupright : Upright path) :
    Firm (Path.parent path) := by
  have hshape := Path.parentShape path
  have hstripped : ∀ {before c name}, Path.Cut path before c name →
      Down (before.rdropWhile isSeparator) := by
    intro before c name hcut
    obtain ⟨d, rest, hrest, hd⟩ := exists_separator before hcut.separator name
    exact down_before hway hupright (hcut.eq.trans hrest) hd
  generalize Path.parent path = result at hshape ⊢
  cases hshape with
  | none => exact firm_of_length_lt (by simp)
  | first => exact firm_take_one
  | @drive before c name hcut =>
    constructor
    · have hdown := down_before hway hupright hcut.eq hcut.separator
      by_cases hslash : c = slash
      · rw [hslash, Down, List.splitOn_append_cons_self, List.mem_append, not_or]
        exact ⟨hdown, by simp⟩
      · intro hmem
        have hsingle : slash ∉ [c] := fun h ↦ hslash (mem_singleton.mp h).symm
        rcases mem_splitOn_append hsingle hmem with hold | ⟨front, hfront⟩
        · exact hdown hold
        · have hdot : c = dot := (append_singleton_inj.mp
            (hfront.trans (show [dot, dot] = [dot] ++ [dot] from rfl))).2
          have hseparator := hcut.separator
          rw [hdot] at hseparator
          cases hseparator
    · rw [rdropWhile_concat_pos _ _ _ hcut.separator]
      exact hstripped hcut
  | plain hcut => exact firm_rdropWhile (hstripped hcut)

end Parents

/-! ## Targets -/

section Targets

variable {savedir name other : StdString}

theorem Upright.append_slash (h : Upright name) (h' : Upright other) :
    Upright (name ++ slash :: other) := by
  intro component hmem
  rw [List.splitOn_append_cons_self, List.mem_append] at hmem
  exact hmem.elim (h component) (h' component)

theorem upright_of_noBreak (h : ∀ b ∈ name, isBreak b = false) : Upright name := by
  intro component hmem hstart
  have hback : backslash ∈ component := hstart.subset (by simp)
  have hbreak := h backslash ((mem_splitOn hmem).2 backslash hback)
  cases hbreak

theorem upright_join (hsavedir : Upright savedir) (hname : Upright name) :
    Upright (StdPath.join savedir name) := by
  unfold StdPath.join
  split_ifs with habsolute hopen
  · exact hname
  · rcases eq_nil_or_concat' savedir with rfl | ⟨front, last, rfl⟩
    · exact hname
    · have hlast : last = slash := by
        rcases hopen with hnil | hlast
        · simp at hnil
        · rw [getLast?_concat] at hlast
          exact Option.some.inj hlast
      rw [hlast] at hsavedir ⊢
      rw [append_assoc, singleton_append]
      refine Upright.append_slash (fun component hmem ↦ hsavedir component ?_) hname
      rw [splitOn_append_cons_self]
      exact mem_append_left _ hmem
  · exact hsavedir.append_slash hname

/-- The target of an upright name is tame. -/
theorem tame_target (habsolute : savedir.head? = some slash) (hsavedir : Upright savedir)
    (hname : Upright name) : Tame (target savedir name) := by
  have hjoin := StdPath.join_absolute habsolute name
  have hupright := upright_join hsavedir hname
  obtain ⟨ending, hspelled⟩ := spelled_lexicallyNormal hjoin
  have hends : ∀ component ∈ ending, component = [] := by
    rcases hspelled.ends with rfl | rfl <;> simp
  have hway : [dot, dot] ∉ (target savedir name).splitOn slash := by
    rw [target, hspelled.splitOn, List.mem_cons, List.mem_append, not_or, not_or]
    refine ⟨by simp, fun hmem ↦ (hspelled.ordinary _ hmem).2.2.1 rfl, fun hmem ↦ ?_⟩
    have hnil := hends _ hmem
    simp at hnil
  refine ⟨fun hmem ↦ hway (mem_of_mem_dropLast hmem),
    firm_parent (fun hmem ↦ hway (mem_of_mem_dropLast hmem)) ?_⟩
  intro component hmem
  rw [target, hspelled.splitOn, List.mem_cons, List.mem_append, List.mem_reverse] at hmem
  rcases hmem with rfl | hresolved | hend
  · simp
  · have hfold : component ∈ ((StdPath.join savedir name).splitOn slash).foldl (enter dot true) [] := by
      simpa [resolve, hjoin] using hresolved
    rcases mem_foldl_enter hfold with hnil | ⟨hsplit, -⟩
    · cases hnil
    · exact hupright component hsplit
  · rw [hends component hend]
    simp

end Targets

end DdeCooperation.Web.FileClient
