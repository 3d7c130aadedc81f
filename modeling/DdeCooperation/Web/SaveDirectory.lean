import DdeCooperation.Web.Naming

/-!
# Where received files are stored

The client checks once, on the text of the resolved target, that a name stays in the save
directory. It then works on other texts: the parents of the target as `BaseKit::Path`
computes them, names with a number, shortened names, the redirection to `Download`. This
module follows these texts to the locations that they denote.

A path is `Anchored` when creating it with its parents only creates entries below the save
directory. The parents of a target are anchored since they begin with the save directory,
and what the client appends to an anchored path below the save directory is anchored again.
-/

namespace DdeCooperation.Web.FileClient

open Foundations BaseKit ResolvedPath List Path Directory Process FileSystem

/-- Strictly below a location. -/
def Inside (outer loc : Location UInt8) : Prop := outer <:+ loc ∧ loc ≠ outer

instance (outer loc : Location UInt8) : Decidable (Inside outer loc) :=
  inferInstanceAs (Decidable (_ ∧ _))

/-- The location that a path denotes. -/
def located (process : Process UInt8) (path : StdString) : Location UInt8 := process.locate slash dot path

theorem inside_cons {outer loc : Location UInt8} {name : StdString} (h : outer <:+ loc) :
    Inside outer (name :: loc) := by
  refine ⟨h.trans (suffix_cons _ _), ?_⟩
  rintro rfl
  have hlength := h.length_le
  rw [length_cons] at hlength
  omega

theorem cStr_eq {path : StdString} (h : 0 ∉ path) : cStr path = path := by
  rw [cStr, takeWhile_eq_self_iff]
  intro b hb
  simp only [decide_eq_true_eq]
  rintro rfl
  exact h hb

/-! ## Creating below the save directory -/

section Grows

variable {process : Process UInt8} {dir : Location UInt8} {path : StdString} {fs fs' : FileSystem UInt8}

/-- On the way to the save directory, or below it. -/
def Comparable (dir loc : Location UInt8) : Prop := loc <:+ dir ∨ dir <:+ loc

theorem inside_of_not_mem {loc : Location UInt8} (hdir : fs.IsDir dir) (h : Comparable dir loc)
    (hmem : loc ∉ fs.nodes) : Inside dir loc := by
  rcases h with habove | hbelow
  · exact absurd (hdir.of_suffix habove).mem hmem
  · refine ⟨hbelow, ?_⟩
    rintro rfl
    exact hmem hdir.mem

theorem grows_create (hzero : 0 ∉ path) (hdir : fs.IsDir dir)
    (hpath : Comparable dir (located process path)) (h : Directory.create process path fs = .ok fs') :
    Grows (Inside dir) fs fs' := by
  unfold create at h
  rw [cStr_eq hzero] at h
  split at h
  · cases h
  · cases h
    exact .refl _ _
  · split at h
    · cases h
      exact grows_mkdir ‹_› (inside_of_not_mem hdir hpath)
    · cases h

theorem grows_writeEmpty (hzero : 0 ∉ path) (hdir : fs.IsDir dir)
    (hpath : Comparable dir (located process path)) (h : File.writeEmpty process path fs = .ok fs') :
    Grows (Inside dir) fs fs' := by
  unfold File.writeEmpty at h
  rw [cStr_eq hzero] at h
  split at h
  · cases h
    exact grows_creat ‹_› (inside_of_not_mem hdir hpath)
  · cases h

/-- The parents of the path lead to one that is there with the save directory, past locations
on the way to it or below it. -/
inductive Anchored (process : Process UInt8) (dir : Location UInt8) : StdString → Prop
  | found {path : StdString} (hzero : 0 ∉ path)
      (hfound : ∀ fs : FileSystem UInt8, fs.IsDir dir →
        process.status slash dot path fs = some .directory) : Anchored process dir path
  | step {path : StdString} (hzero : 0 ∉ path)
      (hpath : Comparable dir (located process path))
      (hparent : Path.parent path ≠ [] → Anchored process dir (Path.parent path)) :
      Anchored process dir path

theorem grows_createTree (hdir : fs.IsDir dir) (h : Anchored process dir path) :
    Grows (Inside dir) fs (Directory.createTree process path fs).1 := by
  induction h generalizing fs with
  | @found path hzero hfound =>
    have hexists : isDirectoryExists process path fs = .error .refused ∨
        isDirectoryExists process path fs = .ok true := by
      rw [isDirectoryExists, type, cStr_eq hzero, stat, hfound fs hdir]
      split_ifs
      · exact .inl rfl
      · exact .inr rfl
    rw [createTree_eq, createTreeWith]
    rcases hexists with hexists | hexists <;> rw [hexists] <;> exact .refl _ _
  | @step path hzero hpath hparent ih =>
    rw [createTree_eq]
    exact createTreeWith_induction (.refl _ _) (fun hnil ↦ ih hnil hdir) fun h hc ↦
      h.trans (grows_create hzero (h.dirs dir hdir) hpath hc)

theorem grows_tryCreate (isfile : Bool) (hzero : 0 ∉ path) (hdir : fs.IsDir dir)
    (hpath : dir <:+ located process path) (hparent : Anchored process dir (Path.parent path)) :
    Grows (Inside dir) fs (tryCreate process isfile path fs).1 := by
  have htree := grows_createTree hdir hparent
  unfold tryCreate
  split
  · exact .refl _ _
  · exact .refl _ _
  · split
    · rename_i houter
      rwa [houter] at htree
    · rename_i houter
      rw [houter] at htree
      have hdir' := htree.dirs dir hdir
      split
      · exact htree
      · rename_i hmade
        cases isfile with
        | true => exact htree.trans (grows_writeEmpty hzero hdir' (.inr hpath) hmade)
        | false => exact htree.trans (grows_create hzero hdir' (.inr hpath) hmade)

end Grows

/-! ## Paths that the client may append to -/

section Anchor

variable {process : Process UInt8} {dir : Location UInt8} {path name : StdString}

/-- A path to the save directory or below it, whose creation stays there. -/
structure Anchor (process : Process UInt8) (dir : Location UInt8) (path : StdString) : Prop where
  absolute : path.head? = some slash
  zero : 0 ∉ path
  settled : Path.Settled path
  anchored : Anchored process dir path
  below : dir <:+ located process path

/-- A path below the save directory that the client may try to create. -/
structure Target (process : Process UInt8) (dir : Location UInt8) (path : StdString) : Prop where
  zero : 0 ∉ path
  below : dir <:+ located process path
  parent : Anchor process dir (Path.parent path)

theorem Anchor.ne_nil (h : Anchor process dir path) : path ≠ [] := by
  rintro rfl
  cases h.absolute

theorem located_append_slash (hpath : path ≠ []) (hname : slash ∉ name) :
    located process (path ++ slash :: name) = enter dot true (located process path) name := by
  rw [located, locate_append_sep hpath, splitOn_eq_singleton hname]
  rfl

/-- The last component of an absolute path is entered last. -/
theorem located_last {outer last : StdString} (habsolute : (outer ++ slash :: last).head? = some slash)
    (hlast : slash ∉ last) : located process (outer ++ slash :: last) =
      enter dot true ((outer.splitOn slash).foldl (enter dot true) []) last := by
  rw [located, locate, start, if_pos habsolute, splitOn_append_cons_self,
    foldl_append, splitOn_eq_singleton hlast]
  rfl

theorem exists_last (habsolute : path.head? = some slash) :
    ∃ outer last, path = outer ++ slash :: last ∧ slash ∉ last := by
  cases hsplit : splitLast (· = slash) path with
  | none =>
    cases path with
    | nil => cases habsolute
    | cons c rest =>
      have hc : c = slash := Option.some.inj habsolute
      have hnone := splitLast_eq_none.mp hsplit c mem_cons_self
      rw [hc] at hnone
      cases hnone
  | some parts =>
    obtain ⟨outer, c, last⟩ := parts
    obtain ⟨hpath, hc, hlast⟩ := of_splitLast_eq_some hsplit
    rw [of_decide_eq_true hc] at hpath
    exact ⟨outer, last, hpath, fun hmem ↦ of_decide_eq_false (hlast slash hmem) rfl⟩

theorem ordinary_of_mem {c : UInt8} (hc : c ∈ name) (hne : c ≠ dot) (hslash : slash ∉ name) :
    Ordinary slash dot name := by
  refine ⟨?_, ?_, ?_, hslash⟩
  · rintro rfl
    cases hc
  · rintro rfl
    exact hne (mem_singleton.mp hc)
  · rintro rfl
    simp only [mem_cons, not_mem_nil, or_false, or_self] at hc
    exact hne hc

/-- The name of a directory does not end with a backslash. -/
abbrev Unspoiled (dir : Location UInt8) : Prop :=
  ∀ name ∈ dir.head?, name.getLast? ≠ some backslash

theorem located_append_backslash {before : StdString}
    (habsolute : (before ++ [backslash]).head? = some slash)
    (hbelow : dir <:+ located process (before ++ [backslash]))
    (hdir : Unspoiled dir) (hname : Leaf name) :
    ∃ entry loc, located process (before ++ backslash :: name) = entry :: loc ∧
      Ordinary slash dot entry ∧ dir <:+ loc := by
  obtain ⟨outer, last, hpath, hlast⟩ := exists_last habsolute
  obtain ⟨front, hfront⟩ : ∃ front, last = front ++ [backslash] := by
    rcases eq_nil_or_concat' last with rfl | ⟨front, c, rfl⟩
    · have hend := (append_singleton_inj.mp hpath).2
      cases hend
    · rw [← cons_append, ← append_assoc] at hpath
      rw [(append_singleton_inj.mp hpath).2]
      exact ⟨front, rfl⟩
  have hmem : backslash ∈ last := by
    rw [hfront]
    simp
  have hlong : slash ∉ last ++ name := by
    rw [mem_append, not_or]
    exact ⟨hlast, hname.ordinary.2.2.2⟩
  have hpath' : before ++ backslash :: name = outer ++ slash :: (last ++ name) := by
    rw [append_cons, hpath, append_assoc, cons_append]
  have habsolute' : (outer ++ slash :: (last ++ name)).head? = some slash := by
    rw [← cons_append, ← append_assoc, ← hpath, head?_append_of_ne_nil _ (by simp)]
    exact habsolute
  rw [hpath] at habsolute hbelow
  rw [located_last habsolute hlast, enter_ordinary (ordinary_of_mem hmem (by decide) hlast)] at hbelow
  have hordinary : Ordinary slash dot (last ++ name) :=
    ordinary_of_mem (mem_append_left _ hmem) (by decide) hlong
  rw [hpath', located_last habsolute' hlong, enter_ordinary hordinary]
  refine ⟨_, _, rfl, hordinary, ?_⟩
  rcases suffix_cons_iff.mp hbelow with heq | hsuffix
  · exact absurd (by rw [hfront]; simp) (hdir last (by rw [heq]; rfl))
  · exact hsuffix

/-- What is appended to an anchored path leads to an entry below the save directory. A
backslash at the end of the path is part of the new entry's name. -/
theorem Anchor.located_append (h : Anchor process dir path)
    (hdir : Unspoiled dir) (hname : Leaf name) :
    ∃ entry loc, located process (Path.append path name) = entry :: loc ∧
      Ordinary slash dot entry ∧ dir <:+ loc := by
  obtain ⟨before, last, rfl⟩ := (eq_nil_or_concat' path).resolve_left h.ne_nil
  have hslash := hname.ordinary.2.2.2
  cases hlast : isSeparator last with
  | false =>
    rw [append_of_not_separator hlast, located_append_slash h.ne_nil hslash,
      enter_ordinary hname.ordinary]
    exact ⟨name, _, rfl, hname.ordinary, h.below⟩
  | true =>
    rw [append_of_separator hlast]
    have hbefore : before ≠ [] := by
      rintro rfl
      rcases h.settled [] last rfl hlast with hnone | hnone <;> cases hnone
    by_cases hbackslash : last = slash
    · subst hbackslash
      have hbelow := h.below
      rw [located_append_slash hbefore (by simp), enter_skip (.inl rfl)] at hbelow
      rw [located_append_slash hbefore hslash, enter_ordinary hname.ordinary]
      exact ⟨name, _, rfl, hname.ordinary, hbelow⟩
    · have hback : last = backslash := by simpa [isSeparator, hbackslash] using hlast
      subst hback
      exact located_append_backslash h.absolute h.below hdir hname

theorem Anchor.append_ordinary (h : Anchor process dir path)
    (hdir : Unspoiled dir) (hname : Leaf name) :
    Inside dir (located process (Path.append path name)) := by
  obtain ⟨entry, loc, hloc, -, hbelow⟩ := h.located_append hdir hname
  rw [hloc]
  exact inside_cons hbelow

theorem mem_append {b : UInt8} (h : b ∈ Path.append path name) :
    b ∈ path ∨ b ∈ name ∨ b = slash := by
  unfold Path.append at h
  split_ifs at h
  · exact .inr (.inl h)
  · exact (List.mem_append.mp h).imp_right .inl
  · exact (List.mem_append.mp h).imp_right fun hrest ↦ (List.mem_cons.mp hrest).symm

theorem prefix_append (path name : StdString) : path <+: Path.append path name := by
  unfold Path.append
  split_ifs with hnil
  · rw [hnil]
    exact List.nil_prefix
  · exact List.prefix_append _ _
  · exact List.prefix_append _ _

/-- A separator behind a drive changes nothing. -/
theorem Anchor.drive (h : Anchor process dir path)
    (hlast : path.getLast? = some question ∨ path.getLast? = some colon) :
    Anchor process dir (path ++ [slash]) := by
  have hzero : 0 ∉ path ++ [slash] := by
    simp only [List.mem_append, List.mem_singleton, not_or]
    exact ⟨h.zero, by decide⟩
  have hloc : located process (path ++ [slash]) = located process path := by
    rw [located_append_slash h.ne_nil (by simp), enter_skip (.inl rfl)]
  constructor
  · rw [head?_append_of_ne_nil _ h.ne_nil]
    exact h.absolute
  · exact hzero
  · intro before c heq hc
    rwa [← (append_singleton_inj.mp heq).1]
  · refine .step hzero (.inr (by rw [hloc]; exact h.below)) fun hparent ↦ ?_
    exact absurd (Path.parent_drive hlast) hparent
  · rw [hloc]
    exact h.below

theorem Anchor.parent_append (h : Anchor process dir path) (hne : name ≠ [])
    (hname : ∀ b ∈ name, isBreak b = false) : Anchor process dir (Path.parent (Path.append path name)) := by
  rcases Path.parent_append h.ne_nil h.settled hne hname with heq | ⟨hlast, heq⟩
  · rwa [heq]
  · rw [heq]
    exact h.drive hlast

/-- What is appended to an anchored path can be tried. -/
theorem Anchor.target (h : Anchor process dir path) (hdir : Unspoiled dir) (hname : Leaf name) :
    Target process dir (Path.append path name) := by
  constructor
  · intro hmem
    rcases mem_append hmem with hpath | hleaf | hslash
    · exact h.zero hpath
    · exact hname.noZero hleaf
    · cases hslash
  · exact (h.append_ordinary hdir hname).1
  · exact h.parent_append hname.ne_nil hname.noBreak

theorem append_last (path : StdString) (hname : Leaf name) :
    ∃ before last, Path.append path name = before ++ [last] ∧ isSeparator last = false := by
  obtain ⟨before, last, rfl⟩ := (eq_nil_or_concat' name).resolve_left hname.ne_nil
  have hbreak := hname.noBreak last (mem_append_right _ mem_cons_self)
  have hseparator : isSeparator last = false := (Bool.or_eq_false_iff.mp hbreak).1
  unfold append
  split_ifs
  · exact ⟨before, last, rfl, hseparator⟩
  · exact ⟨path ++ before, last, (append_assoc _ _ _).symm, hseparator⟩
  · exact ⟨path ++ slash :: before, last, by simp, hseparator⟩

theorem Anchor.append (h : Anchor process dir path) (hdir : Unspoiled dir) (hname : Leaf name) :
    Anchor process dir (Path.append path name) := by
  have htarget := h.target hdir hname
  constructor
  · obtain ⟨rest, hrest⟩ := prefix_append path name
    rw [← hrest, head?_append_of_ne_nil _ h.ne_nil]
    exact h.absolute
  · exact htarget.zero
  · obtain ⟨before, last, hlast, hseparator⟩ := append_last path hname
    rw [hlast]
    exact settled_of_last hseparator
  · exact .step htarget.zero (.inr htarget.below) fun _ ↦ htarget.parent.anchored
  · exact htarget.below

end Anchor

/-! ## Attempts and the search -/

section Search

variable {process : Process UInt8} {isfile : Bool} {dir : Location UInt8} {path : StdString}
  {fs fs' : FileSystem UInt8}

/-- What an attempt at a path may do: create below the save directory, and give back the path
itself, nothing, or another path below the save directory. -/
structure Keeps (process : Process UInt8) (dir : Location UInt8) (path : StdString)
    (fs : FileSystem UInt8) (result : Attempt) : Prop where
  grows : Grows (Inside dir) fs result.1
  path : ∀ usable new, result.2 = .ok (usable, new) →
    new = path ∨ new = [] ∨ Inside dir (located process new)

theorem filename_zero (hzero : 0 ∉ path) : 0 ∉ Path.filename path := by
  unfold Path.filename
  split
  · exact hzero
  · obtain ⟨hpath, -, -⟩ := of_splitLast_eq_some ‹_›
    rw [hpath] at hzero
    simp only [List.mem_append, List.mem_cons, not_or] at hzero
    split_ifs
    · exact hzero.2.2
    · decide
    · simp

theorem Target.short (h : Target process dir path) (hdir : Unspoiled dir)
    (hlong : nameMax ≤ (Path.filename path).length) :
    Target process dir (shortPath path) ∧ Inside dir (located process (shortPath path)) := by
  have hleaf := leaf_shortName hlong (filename_noBreak path) (filename_zero h.zero)
  exact ⟨h.parent.target hdir hleaf, h.parent.append_ordinary hdir hleaf⟩

theorem keeps_createNotExistPathWith {again : StdString → FileSystem UInt8 → Attempt}
    (h : Target process dir path) (hfs : fs.IsDir dir)
    (hagain : nameMax ≤ (Path.filename path).length → ∀ fs : FileSystem UInt8, fs.IsDir dir →
      Keeps process dir (shortPath path) fs (again (shortPath path) fs) ∧
        Inside dir (located process (shortPath path))) :
    Keeps process dir path fs (createNotExistPathWith process isfile again path fs) := by
  have hgrows := grows_tryCreate isfile h.zero hfs h.below h.parent.anchored
  unfold createNotExistPathWith
  split
  · rename_i htry
    rw [htry] at hgrows
    refine ⟨hgrows, fun usable new hnew ↦ .inl ?_⟩
    cases hnew
    rfl
  · rename_i htry
    rw [htry] at hgrows
    refine ⟨hgrows, fun usable new hnew ↦ .inl ?_⟩
    cases husable : isUsable process isfile path _ with
    | error =>
      rw [husable] at hnew
      cases hnew
    | ok =>
      rw [husable] at hnew
      cases hnew
      rfl
  · rename_i fs' e htry
    rw [htry] at hgrows
    split_ifs with hlong
    · obtain ⟨hkeeps, hinside⟩ := hagain hlong fs' (hgrows.dirs dir hfs)
      refine ⟨hgrows.trans hkeeps.grows, fun usable new hnew ↦ .inr ?_⟩
      rcases hkeeps.path usable new hnew with rfl | hrest
      · exact .inr hinside
      · exact hrest
    · refine ⟨hgrows, fun usable new hnew ↦ .inr (.inl ?_)⟩
      cases hnew
      rfl

theorem keeps_createNotExistPath (isfile : Bool) (h : Target process dir path) (hfs : fs.IsDir dir)
    (hdir : Unspoiled dir) :
    Keeps process dir path fs (createNotExistPath process isfile path fs) := by
  apply keeps_createNotExistPathWith h hfs
  intro hlong fs hfs
  obtain ⟨hshort, hinside⟩ := h.short hdir hlong
  refine ⟨keeps_createNotExistPathWith hshort hfs fun hlonger ↦ ?_, hinside⟩
  rw [filename_shortPath hlong, length_shortName hlong] at hlonger
  exact absurd hlonger (by decide)

/-- A path that can only lead to directories with entries is never given back for a file. -/
theorem not_usable_of_crowded (hzero : 0 ∉ path)
    (hcrowded : ∀ (fs : FileSystem UInt8) (loc : Location UInt8),
      process.find slash dot path fs = some loc → fs.IsDir loc ∧ fs.isEmpty loc = false)
    (hshort : ¬ nameMax ≤ (Path.filename path).length) (new : StdString) :
    (createNotExistPath process true path fs).2 ≠ .ok (true, new) := by
  have hwrite : ∀ fs fs', File.writeEmpty process path fs ≠ .ok fs' := by
    intro fs fs' hwrite
    unfold File.writeEmpty at hwrite
    rw [cStr_eq hzero] at hwrite
    split at hwrite
    · rename_i hcreat
      unfold Process.creat at hcreat
      split at hcreat
      · cases hcreat
      · obtain ⟨loc, hfind, hmake⟩ := Option.bind_eq_some_iff.mp hcreat
        rw [makeFile, dif_neg fun h ↦ h.1 (hcrowded fs loc hfind).1] at hmake
        cases hmake
    · cases hwrite
  have husable : ∀ fs, isUsable process true path fs ≠ .ok true := by
    intro fs husable
    unfold isUsable at husable
    rw [Path.type, Directory.isDirectoryEmpty, cStr_eq hzero, Process.stat, Process.status,
      Process.isDirectoryEmpty] at husable
    cases hrefuses : process.refuses path with
    | true => simp [hrefuses] at husable
    | false =>
      cases hfind : process.find slash dot path fs with
      | none => simp [hrefuses, hfind] at husable
      | some loc =>
        obtain ⟨hloc, hempty⟩ := hcrowded fs loc hfind
        have hlookup : fs.nodes.lookup loc = some .directory := hloc
        simp [hrefuses, hfind, hlookup, hloc, hempty] at husable
  rw [createNotExistPath, createNotExistPathWith]
  split
  · rename_i htry
    unfold tryCreate at htry
    split at htry
    · cases htry
    · cases htry
    · split at htry
      · cases htry
      · split at htry
        · cases htry
        · rename_i hmade
          exact absurd hmade (hwrite _ _)
  · intro hnew
    cases hres : isUsable process true path _ with
    | error =>
      rw [hres] at hnew
      cases hnew
    | ok usable =>
      rw [hres] at hnew
      cases hnew
      exact husable _ hres
  · rw [if_neg hshort]
    intro hnew
    cases hnew

/-- Everything created, and the path that is returned, is strictly below a location. -/
structure Confined (process : Process UInt8) (dir : Location UInt8) (fs : FileSystem UInt8)
    (result : FileSystem UInt8 × Outcome) : Prop where
  created : ∀ loc ∈ result.1.nodes, loc ∈ fs.nodes ∨ Inside dir loc
  returned : ∀ path, result.2 = .returned path → path ≠ [] → Inside dir (located process path)

theorem confined_refl (fs : FileSystem UInt8) (outcome : Outcome)
    (h : ∀ path, outcome = .returned path → path = []) : Confined process dir fs (fs, outcome) :=
  ⟨fun _ hmem ↦ .inl hmem, fun path hpath hne ↦ absurd (h path hpath) hne⟩

theorem Confined.of_grows {result : FileSystem UInt8 × Outcome}
    (hgrows : Grows (Inside dir) fs fs') (h : Confined process dir fs' result) :
    Confined process dir fs result := by
  refine ⟨fun loc hmem ↦ ?_, h.returned⟩
  rcases h.created loc hmem with hmiddle | hinside
  · exact hgrows.news loc hmiddle
  · exact .inr hinside

theorem confined_search {parent filename : StdString} (hparent : Anchor process dir parent)
    (hdir : Unspoiled dir)
    (hbreak : ∀ b ∈ filename, isBreak b = false) (hzero : 0 ∉ filename)
    (hfs : fs.IsDir dir) (rounds i : ℕ) :
    Confined process dir fs (search process isfile parent filename rounds i fs) := by
  induction rounds generalizing i fs with
  | zero => exact confined_refl fs .searching fun _ h ↦ nomatch h
  | succ rounds ih =>
    have hleaf := leaf_numbered hbreak hzero i
    have hkeeps := keeps_createNotExistPath isfile (hparent.target hdir hleaf) hfs hdir
    have hinside := hparent.append_ordinary hdir hleaf
    rw [search]
    split
    · rename_i htry
      rw [htry] at hkeeps
      exact .of_grows hkeeps.grows (confined_refl _ _ fun _ h ↦ nomatch h)
    · rename_i htry
      rw [htry] at hkeeps
      refine ⟨hkeeps.grows.news, fun path hpath hne ↦ ?_⟩
      cases hpath
      rcases hkeeps.path _ _ rfl with rfl | hnil | hnew
      · exact hinside
      · exact absurd hnil hne
      · exact hnew
    · rename_i htry
      rw [htry] at hkeeps
      split_ifs
      · refine .of_grows hkeeps.grows (confined_refl _ _ fun path hpath ↦ ?_)
        cases hpath
        rfl
      · exact .of_grows hkeeps.grows (ih (hkeeps.grows.dirs dir hfs) (i + 1))

theorem leaf_download : Leaf (ascii "Download") :=
  ⟨by decide, noBreak_of_all (by decide), by decide⟩

/-- A path in the way of the search: it can be tried, and it is only given back for a file or
directory strictly below the save directory. -/
structure Candidate (process : Process UInt8) (isfile : Bool) (dir : Location UInt8) (path : StdString) :
    Prop where
  target : Target process dir path
  returned : ∀ fs : FileSystem UInt8,
    (createNotExistPath process isfile path fs).2 = .ok (true, path) → Inside dir (located process path)

/-- A pair of dots after a directory leads back to a directory with an entry in it. -/
theorem crowded_dots {entry : StdString} {loc : Location UInt8} (hne : path ≠ [])
    (hloc : located process path = entry :: loc) (hentry : Ordinary slash dot entry)
    (hfind : process.find slash dot (path ++ slash :: [dot, dot]) fs = some dir) :
    fs.IsDir dir ∧ fs.isEmpty dir = false := by
  rw [find_append_sep hne (by decide)] at hfind
  obtain ⟨middle, hmiddle, hdots⟩ := Option.bind_eq_some_iff.mp hfind
  have hlocated : middle = entry :: loc := (locate_of_find hmiddle).trans hloc
  split_ifs at hdots with hdir
  rw [hlocated, enter_dots, up_cons hentry.2.2.1] at hdots
  cases hdots
  rw [hlocated] at hdir
  refine ⟨fs.parents entry _ hdir.mem, Bool.eq_false_iff.mpr fun hempty ↦ ?_⟩
  exact isEmpty_iff.mp hempty entry hdir.mem

theorem leaf_or_dots {name : StdString} (hne : name ≠ []) (hbreak : ∀ b ∈ name, isBreak b = false)
    (hzero : 0 ∉ name) : Leaf name ∨ name = [dot] ∨ name = [dot, dot] := by
  by_cases hdot : name = [dot]
  · exact .inr (.inl hdot)
  · by_cases hdots : name = [dot, dot]
    · exact .inr (.inr hdots)
    · exact .inl ⟨⟨hne, hdot, hdots, slash_not_mem hbreak⟩, hbreak, hzero⟩

/-- The last part of a path in the directory `Download` of an anchored path. When it is a pair
of dots, it leads to a directory that has `Download` in it. -/
theorem candidate_download {parent name : StdString} (h : Anchor process dir parent)
    (hdir : Unspoiled dir) (hne : name ≠ [])
    (hbreak : ∀ b ∈ name, isBreak b = false) (hzero : 0 ∉ name) :
    Candidate process true dir (Path.append (Path.append parent (ascii "Download")) name) := by
  have hdownload := h.append hdir leaf_download
  obtain ⟨entry, loc, hloc, hentry, hbelow⟩ := h.located_append hdir leaf_download
  obtain ⟨before, last, hlast, hseparator⟩ := append_last parent leaf_download
  generalize append parent (ascii "Download") = outer at *
  rcases leaf_or_dots hne hbreak hzero with hleaf | hdots
  · exact ⟨hdownload.target hdir hleaf, fun _ _ ↦ hdownload.append_ordinary hdir hleaf⟩
  · have happend : append outer name = outer ++ slash :: name := by
      rw [hlast, append_of_not_separator hseparator]
    have hlocated : located process (append outer name) = enter dot true (entry :: loc) name := by
      rw [happend, located_append_slash hdownload.ne_nil (slash_not_mem hbreak), hloc]
    have hzeros : 0 ∉ append outer name := by
      intro hmem
      rcases mem_append hmem with hpath | hname | hslash
      · exact hdownload.zero hpath
      · exact hzero hname
      · cases hslash
    have hparent := hdownload.parent_append hne hbreak
    rcases hdots with rfl | rfl
    · rw [enter_skip (.inr rfl)] at hlocated
      refine ⟨⟨hzeros, ?_, hparent⟩, fun _ _ ↦ ?_⟩ <;> rw [hlocated]
      · exact (inside_cons hbelow).1
      · exact inside_cons hbelow
    · rw [enter_dots, up_cons hentry.2.2.1] at hlocated
      refine ⟨⟨hzeros, by rwa [hlocated], hparent⟩, fun fs hreturned ↦ ?_⟩
      have hshort : ¬ nameMax ≤ (filename (append outer [dot, dot])).length := by
        rw [filename_append hne hbreak]
        decide
      refine absurd hreturned (not_usable_of_crowded hzeros (fun fs dir hfind ↦ ?_) hshort _)
      rw [happend] at hfind
      exact crowded_dots hdownload.ne_nil hloc hentry hfind

theorem filename_ne_nil (h : Path.parent path ≠ []) : Path.filename path ≠ [] := by
  intro hnil
  apply h
  unfold filename at hnil
  split at hnil
  · rw [hnil]
    rfl
  · obtain ⟨hpath, hbreak, hname⟩ := of_splitLast_eq_some ‹_›
    split_ifs at hnil with hne hseparator
    · exact absurd hnil hne
    · rename_i last _ _
      have hcolon : last = colon := by simpa [isBreak, hseparator] using hbreak
      rw [hpath, hcolon]
      exact parent_eq_nil_of_colon hname

theorem candidate_redirect (isfile : Bool) (hdir : Unspoiled dir)
    (h : Target process dir path) (hinside : Inside dir (located process path)) (home : Option StdString)
    (fs : FileSystem UInt8) : Candidate process isfile dir (redirect process isfile home path fs) := by
  have hplain : Candidate process isfile dir path := ⟨h, fun _ _ ↦ hinside⟩
  unfold redirect
  cases isfile with
  | false => exact hplain
  | true =>
    rw [if_pos rfl]
    split
    · exact hplain
    · split
      · exact candidate_download h.parent hdir (filename_ne_nil h.parent.ne_nil)
          (filename_noBreak path) (filename_zero h.zero)
      · exact hplain

/-- Everything stays below the save directory when the target does, and its parent. -/
theorem confined_of_target {home : Option StdString} {savedir name : StdString} {rounds : ℕ}
    (hdir : Unspoiled dir) (hfs : fs.IsDir dir)
    (h : passes (target savedir name) (base savedir) → Target process dir (target savedir name) ∧
      Inside dir (located process (target savedir name))) :
    Confined process dir fs (createNextAvailableName process isfile home savedir rounds name fs) := by
  unfold createNextAvailableName
  by_cases hpasses : passes (target savedir name) (base savedir)
  · rw [if_pos hpasses]
    obtain ⟨htarget, hinside⟩ := h hpasses
    have hcandidate := candidate_redirect isfile hdir htarget hinside home fs
    dsimp only
    generalize redirect process isfile home (target savedir name) fs = path at *
    have hkeeps := keeps_createNotExistPath isfile hcandidate.target hfs hdir
    split
    · rename_i htry
      rw [htry] at hkeeps
      exact .of_grows hkeeps.grows (confined_refl _ _ fun _ h ↦ nomatch h)
    · rename_i new htry
      have hreturned := hcandidate.returned fs
      rw [htry] at hkeeps hreturned
      refine ⟨hkeeps.grows.news, fun path' hpath hne ↦ ?_⟩
      cases hpath
      rcases hkeeps.path _ _ rfl with rfl | hnil | hnew
      · exact hreturned rfl
      · exact absurd hnil hne
      · exact hnew
    · rename_i htry
      rw [htry] at hkeeps
      exact .of_grows hkeeps.grows (confined_search hcandidate.target.parent hdir
        (filename_noBreak path) (filename_zero hcandidate.target.zero)
        (hkeeps.grows.dirs dir hfs) rounds 1)
  · rw [if_neg hpasses]
    refine confined_refl _ _ fun path hpath ↦ ?_
    cases hpath
    rfl

end Search

end DdeCooperation.Web.FileClient
