import DdeCooperation.Web.SaveDirectory

/-!
# Received files and the save directory

For which names everything that the client creates, and every path it returns, is strictly
below the save directory, whatever the file system holds and refuses. The check that the
client makes is about the resolved text of the target and takes a backslash for a separator,
as does `BaseKit::Path`; the system does not. Four kinds of names make a difference. The
target can be the save directory itself. It can go on after the save directory with a
backslash, which makes it a sibling. Its parent can be empty, because of a colon or a
question mark, so that a numbered name is relative to the current directory. And its parent
can be `..` in the save directory, cut off from a name such as `..\x`, so that a numbered
name is beside the save directory.

All other names are safe, and for each of these there is a file system where the client
leaves the save directory.
-/

namespace DdeCooperation.Web.FileClient

open Foundations BaseKit ResolvedPath List Path FileSystem Process StdPath

variable {path rest : StdString} {rounds : ℕ} {loc other : Location UInt8}

/-! ## Texts in normal form -/

/-- An absolute path in normal form, perhaps with a separator at its end. -/
structure Spelled (path : StdString) (names ending : List StdString) : Prop where
  text : path = spell slash (names ++ ending)
  ends : ending = [] ∨ ending = [[]]
  nonempty : names ++ ending ≠ []
  ordinary : ∀ component ∈ names, Ordinary slash dot component

namespace Spelled

variable {process : Process UInt8} {fs : FileSystem UInt8} {path : StdString}
  {names ending : List StdString}

variable (h : Spelled path names ending)

include h

theorem noSlash : ∀ component ∈ names ++ ending, slash ∉ component := by
  rw [forall_mem_append]
  refine ⟨fun component hmem ↦ (h.ordinary component hmem).2.2.2, ?_⟩
  rcases h.ends with rfl | rfl <;> simp

theorem splitOn : path.splitOn slash = [] :: (names ++ ending) := by
  rw [h.text, splitOn_spell h.noSlash]

theorem absolute : path.head? = some slash := by
  rw [h.text, head?_spell h.nonempty]

theorem ne_nil : path ≠ [] := by
  rintro rfl
  cases h.absolute

theorem located_eq (process : Process UInt8) : located process path = names.reverse := by
  rw [located, h.text, locate_spell h.nonempty h.noSlash, foldl_append,
    foldl_enter_ordinary h.ordinary, append_nil]
  rcases h.ends with rfl | rfl
  · rfl
  · rw [foldl_cons, foldl_nil, enter_skip (.inl rfl)]

theorem find_eq (hdir : fs.IsDir names.reverse) :
    process.find slash dot path fs = some names.reverse := by
  have hslash := (forall_mem_append.mp h.noSlash).2
  rw [h.text, find_spell_append h.nonempty h.ordinary hslash hdir]
  rcases h.ends with rfl | rfl
  · rfl
  · rw [walk, if_pos hdir, enter_skip (.inl rfl)]
    rfl

end Spelled

theorem spelled_lexicallyNormal (h : path.head? = some slash) :
    ∃ ending, Spelled (lexicallyNormal path)
      (resolve slash dot path).components.reverse ending := by
  obtain ⟨ending, hending, hroot, htext⟩ := lexicallyNormal_absolute h
  refine ⟨ending, htext, hending, fun hnil ↦ ?_, fun component hmem ↦ ?_⟩
  · obtain ⟨hnames, hempty⟩ := append_eq_nil_iff.mp hnil
    have hfull := hroot (reverse_eq_nil_iff.mp hnames)
    rw [hempty] at hfull
    cases hfull
  · exact (ordinary_resolve h (mem_reverse.mp hmem)).1

/-- The normal form of an absolute path has no other bytes. -/
theorem mem_lexicallyNormal {b : UInt8} (h : path.head? = some slash)
    (hmem : b ∈ lexicallyNormal path) : b ∈ path := by
  obtain ⟨ending, hspelled⟩ := spelled_lexicallyNormal h
  rw [hspelled.text, spell, mem_flatMap] at hmem
  obtain ⟨component, hcomponent, hmem⟩ := hmem
  rcases mem_cons.mp hmem with rfl | hmem
  · exact mem_of_mem_head? h
  · rcases List.mem_append.mp hcomponent with hname | hend
    · exact (ordinary_resolve h (mem_reverse.mp hname)).2 b hmem
    · rcases hspelled.ends with rfl | rfl
      · cases hend
      · rw [mem_singleton.mp hend] at hmem
        cases hmem

theorem lexicallyNormal_zero (h : path.head? = some slash) (hzero : 0 ∉ path) :
    0 ∉ lexicallyNormal path :=
  fun hmem ↦ hzero (mem_lexicallyNormal h hmem)

/-! ## The save directory -/

/-- An absolute path other than the root, without zero bytes, to a directory whose name does
not end in a backslash. -/
structure SaveDirectory where
  path : StdString
  absolute : path.head? = some slash
  noZero : 0 ∉ path
  notRoot : (resolve slash dot path).components ≠ []
  noBackslash : ∀ name ∈ (resolve slash dot path).components.head?, name.getLast? ≠ some backslash

namespace SaveDirectory

variable (savedir : SaveDirectory)

def location : Location UInt8 := (resolve slash dot savedir.path).components

def names : List StdString := savedir.location.reverse

theorem ordinary : Ordinaries slash dot savedir.names :=
  fun _ hmem ↦ (ordinary_resolve savedir.absolute (mem_reverse.mp hmem)).1

variable {savedir} in
theorem ordinary_head {entry : StdString} {outer : Location UInt8}
    (h : savedir.location = entry :: outer) : Ordinary slash dot entry :=
  savedir.ordinary entry (by simp [names, h])

theorem names_ne_nil : savedir.names ≠ [] := fun hnil ↦ savedir.notRoot (reverse_eq_nil_iff.mp hnil)

theorem reverse_names : savedir.names.reverse = savedir.location := reverse_reverse _

theorem location_suffix (extra : List StdString) :
    savedir.location <:+ (savedir.names ++ extra).reverse := by
  rw [reverse_append, savedir.reverse_names]
  exact suffix_append _ _

/-- The text of the save directory ends in a byte that is no separator. -/
theorem spell_names : ∃ outer b, spell slash savedir.names = outer ++ [b] ∧ isSeparator b = false := by
  obtain ⟨init, last, hnames⟩ := (eq_nil_or_concat' savedir.names).resolve_left savedir.names_ne_nil
  have hordinary := savedir.ordinary last (by rw [hnames]; simp)
  have hhead : last ∈ savedir.location.head? := by
    rw [← savedir.reverse_names, hnames]
    simp
  obtain ⟨front, b, hlast⟩ := (eq_nil_or_concat' last).resolve_left hordinary.1
  refine ⟨spell slash init ++ slash :: front, b, ?_, ?_⟩
  · rw [hnames, spell_concat, hlast]
    simp
  · have hslash : b ≠ slash := by
      rintro rfl
      exact hordinary.2.2.2 (by rw [hlast]; simp)
    have hbackslash : b ≠ backslash := by
      rintro rfl
      exact savedir.noBackslash last hhead (by rw [hlast]; simp)
    simp [isSeparator, hslash, hbackslash]

theorem base_eq : base savedir.path = spell slash savedir.names := by
  obtain ⟨ending, hspelled⟩ := spelled_lexicallyNormal savedir.absolute
  obtain ⟨outer, b, hspell, hb⟩ := savedir.spell_names
  have hdrop : (outer ++ [b]).rdropWhile isSeparator = outer ++ [b] :=
    rdropWhile_concat_neg _ _ _ (by simp [hb])
  have htext : lexicallyNormal savedir.path = spell slash (savedir.names ++ ending) := hspelled.text
  rw [base, htext]
  rcases hspelled.ends with rfl | rfl
  · rw [append_nil, hspell, hdrop]
  · rw [spell_concat, rdropWhile_concat_pos _ _ _ rfl, hspell, hdrop]

theorem exists_base : ∃ outer b, base savedir.path = outer ++ [b] ∧ isSeparator b = false :=
  savedir.base_eq ▸ savedir.spell_names

theorem spelled : Spelled (base savedir.path) savedir.names [] where
  text := by rw [savedir.base_eq, append_nil]
  ends := .inl rfl
  nonempty := by
    rw [append_nil]
    exact savedir.names_ne_nil
  ordinary := savedir.ordinary

theorem located_base (process : Process UInt8) :
    located process (base savedir.path) = savedir.location := by
  rw [savedir.spelled.located_eq, savedir.reverse_names]

theorem one_lt_length_base : 1 < (base savedir.path).length := by
  obtain ⟨outer, b, hspell, hb⟩ := savedir.exists_base
  have habsolute := savedir.spelled.absolute
  rw [hspell] at habsolute ⊢
  cases outer with
  | nil =>
    have hslash : b = slash := Option.some.inj habsolute
    rw [hslash] at hb
    cases hb
  | cons => simp

theorem join_absolute (name : StdString) : (join savedir.path name).head? = some slash :=
  StdPath.join_absolute savedir.absolute name

theorem target_zero {name : StdString} (hzero : 0 ∉ name) : 0 ∉ target savedir.path name := by
  apply lexicallyNormal_zero (savedir.join_absolute name)
  unfold join
  split_ifs
  · exact hzero
  · rw [List.mem_append, not_or]
    exact ⟨savedir.noZero, hzero⟩
  · rw [List.mem_append, List.mem_cons, not_or, not_or]
    exact ⟨savedir.noZero, by decide, hzero⟩

theorem spelled_target (name : StdString) :
    ∃ names ending, Spelled (target savedir.path name) names ending :=
  have ⟨ending, h⟩ := spelled_lexicallyNormal (savedir.join_absolute name)
  ⟨_, ending, h⟩

end SaveDirectory

/-- The resolved target is refused; or it goes on after the save directory with a slash, and
its parent as a `BaseKit::Path` is neither empty nor `..` in the save directory. -/
def Safe (savedir name : StdString) : Prop :=
  passes (target savedir name) (base savedir) →
    (base savedir ++ [slash] <+: target savedir name ∧
      target savedir name ≠ base savedir ++ [slash]) ∧
    Path.parent (target savedir name) ≠ [] ∧
    Path.parent (target savedir name) ≠ base savedir ++ [slash, dot, dot]

instance (savedir name : StdString) : Decidable (Safe savedir name) :=
  inferInstanceAs (Decidable (_ → _))

/-! ## Safe names -/

section Sufficiency

variable {process : Process UInt8} {savedir : SaveDirectory}

variable {r : StdString}

/-- The components of a text that goes on after another one. -/
theorem splitOn_of_prefix (h : r <+: rest) :
    ∃ mid last tail, r.splitOn slash = mid ++ [last] ∧ tail ≠ [] ∧ rest.splitOn slash = mid ++ tail := by
  obtain ⟨more, rfl⟩ := h
  obtain ⟨mid, last, first, others, hr, hrest⟩ := exists_splitOn_of_append slash r more
  exact ⟨mid, last, _, hr, cons_ne_nil _ _, hrest⟩

/-- A text after the save directory whose components, but the last, lead down. -/
def Descends (rest : StdString) : Prop :=
  ∀ mid last, rest.splitOn slash = mid ++ [last] → ∀ component ∈ mid, Ordinary slash dot component

theorem Descends.of_prefix (h : Descends rest) (hr : r <+: rest) : Descends r := by
  obtain ⟨mid, last, tail, hsplit, htail, hrest⟩ := splitOn_of_prefix hr
  intro mid' last' hsplit' component hmem
  have hmid : mid = mid' := (append_singleton_inj.mp (hsplit.symm.trans hsplit')).1
  obtain ⟨front, final, rfl⟩ := (eq_nil_or_concat' tail).resolve_left htail
  rw [← append_assoc] at hrest
  exact h _ _ hrest component (mem_append_left _ (hmid ▸ hmem))

/-- Such a text leads below the save directory, or to what contains it. -/
theorem Descends.located (process : Process UInt8) (savedir : SaveDirectory) (h : Descends rest) :
    savedir.location <:+ located process (base savedir.path ++ slash :: rest) ∨
      rest = [dot, dot] ∧ located process (base savedir.path ++ slash :: rest) = savedir.location.tail := by
  obtain ⟨mid, last, hsplit⟩ :=
    (eq_nil_or_concat' (rest.splitOn slash)).resolve_left (splitOn_ne_nil _ _)
  have hmid := h mid last hsplit
  have hloc : FileClient.located process (base savedir.path ++ slash :: rest) =
      enter dot true (mid.reverse ++ savedir.location) last := by
    rw [FileClient.located, locate_append_sep savedir.spelled.ne_nil, hsplit, foldl_append,
      foldl_enter_ordinary hmid, ← savedir.located_base process]
    rfl
  rw [hloc]
  by_cases hskip : last = [] ∨ last = [dot]
  · rw [enter_skip hskip]
    exact .inl (suffix_append _ _)
  · by_cases hdots : last = [dot, dot]
    · rw [hdots, enter_dots]
      rcases eq_nil_or_concat' mid with rfl | ⟨init, component, rfl⟩
      · right
        constructor
        · have hjoin : [slash].intercalate (rest.splitOn slash) = rest := intercalate_splitOn slash
          rw [← hjoin, hsplit, hdots]
          rfl
        · cases hdir : savedir.location with
          | nil => exact absurd hdir savedir.notRoot
          | cons name outer => exact up_cons (SaveDirectory.ordinary_head hdir).2.2.1
      · left
        have hcomponent := hmid component (by simp)
        rw [reverse_append, reverse_singleton, singleton_append, cons_append,
          up_cons hcomponent.2.2.1]
        exact suffix_append _ _
    · rw [enter_name hskip hdots]
      exact .inl ((suffix_append _ _).trans (suffix_cons _ _))

/-- The texts between the save directory and a target are anchored: the parent of such a text
is one again, or empty. -/
theorem anchored_of_prefix (hrest : Descends rest)
    (hzero : 0 ∉ base savedir.path ++ slash :: rest) (hbase : base savedir.path <+: path)
    (hpath : path <+: base savedir.path ++ slash :: rest) : Anchored process savedir.location path := by
  induction hn : path.length using Nat.strong_induction_on generalizing path with
  | _ n ih =>
    obtain ⟨more, rfl⟩ := hbase
    have hnozero : 0 ∉ base savedir.path ++ more := fun hmem ↦ hzero (hpath.subset hmem)
    rw [prefix_append_right_inj] at hpath
    rcases prefix_cons_iff.mp hpath with rfl | ⟨r, rfl, hr⟩
    · refine .found hnozero fun fs hdir ↦ ?_
      rw [← savedir.reverse_names] at hdir
      rw [append_nil, status, savedir.spelled.find_eq hdir]
      exact hdir
    · refine .step hnozero ?_ fun hparent ↦ ?_
      · rcases (hrest.of_prefix hr).located process savedir with hbelow | ⟨-, habove⟩
        · exact .inr hbelow
        · rw [habove]
          exact .inl (tail_suffix _)
      · obtain ⟨outer, b, hspell, hb⟩ := savedir.exists_base
        have hprefix := (prefix_parent (congrArg (· ++ slash :: r) hspell) hb rfl).resolve_left hparent
        rw [← hspell] at hprefix
        have hshorter : (parent (base savedir.path ++ slash :: r)).length <
            (base savedir.path ++ slash :: r).length := length_parent_lt (by simp)
        refine ih _ (by omega) hprefix ((Path.parent_prefix _).trans ?_) rfl
        rwa [prefix_append_right_inj, cons_prefix_cons, and_iff_right rfl]

theorem eq_nil_of_splitOn (h : rest.splitOn slash = [[]]) : rest = [] := by
  have hjoin : [slash].intercalate (rest.splitOn slash) = rest := intercalate_splitOn slash
  rw [h] at hjoin
  exact hjoin.symm

/-- A target after the save directory and a slash has the save directory's components first. -/
theorem Spelled.after_base {names ending : List StdString}
    (h : Spelled path names ending) (hpath : path = base savedir.path ++ slash :: rest)
    (hrest : rest ≠ []) :
    ∃ extra, extra ≠ [] ∧ names = savedir.names ++ extra ∧ rest.splitOn slash = extra ++ ending := by
  have hsplit := h.splitOn
  rw [hpath, splitOn_append_cons_self, savedir.spelled.splitOn, append_nil, cons_append,
    cons_inj_right] at hsplit
  rcases append_eq_append_iff.mp hsplit with ⟨extra, hnames, hextra⟩ | ⟨less, hless, hending⟩
  · refine ⟨extra, ?_, hnames, hextra⟩
    rintro rfl
    rcases h.ends with rfl | rfl
    · exact splitOn_ne_nil _ _ hextra
    · exact hrest (eq_nil_of_splitOn hextra)
  · rcases h.ends with rfl | rfl
    · exact absurd (append_eq_nil_iff.mp hending.symm).2 (splitOn_ne_nil _ _)
    · rcases append_eq_singleton_iff.mp hending.symm with ⟨-, hnil⟩ | ⟨-, hnil⟩
      · exact absurd (eq_nil_of_splitOn hnil) hrest
      · exact absurd hnil (splitOn_ne_nil _ _)

/-- What stands after the save directory and a slash. -/
theorem exists_rest (h : base savedir.path ++ [slash] <+: path ∧ path ≠ base savedir.path ++ [slash]) :
    ∃ rest, rest ≠ [] ∧ path = base savedir.path ++ slash :: rest := by
  obtain ⟨⟨rest, rfl⟩, hne⟩ := h
  refine ⟨rest, ?_, by simp⟩
  rintro rfl
  exact hne (append_nil _)

/-- A safe target that is not refused can be tried, and is below the save directory. -/
theorem target_of_safe {name : StdString} (hzero : 0 ∉ name) (h : Safe savedir.path name)
    (hpasses : passes (target savedir.path name) (base savedir.path)) :
    Target process savedir.location (target savedir.path name) ∧
      Inside savedir.location (located process (target savedir.path name)) := by
  obtain ⟨hafter, hparent, hdots⟩ := h hpasses
  obtain ⟨names, ending, hspelled⟩ := savedir.spelled_target name
  have hnozero := savedir.target_zero hzero
  generalize target savedir.path name = path at *
  obtain ⟨rest, hne, hrest⟩ := exists_rest hafter
  obtain ⟨extra, hextra, rfl, hsplit⟩ := hspelled.after_base hrest hne
  have hinside : Inside savedir.location (located process path) := by
    rw [hspelled.located_eq, reverse_append, savedir.reverse_names]
    refine ⟨suffix_append _ _, fun heq ↦ hextra ?_⟩
    rwa [append_left_eq_self, reverse_eq_nil_iff] at heq
  have hdescends : Descends rest := by
    intro mid last hmid component hmem
    apply hspelled.ordinary
    rw [hsplit] at hmid
    apply mem_append_right
    rcases hspelled.ends with rfl | rfl
    · rw [append_nil] at hmid
      rw [hmid]
      exact mem_append_left _ hmem
    · rwa [(append_singleton_inj.mp hmid).1]
  obtain ⟨outer, b, hspell, hb⟩ := savedir.exists_base
  have hprefix : base savedir.path <+: parent path := by
    have hcut : path = outer ++ [b] ++ slash :: rest := by rw [hrest, hspell]
    rw [hspell]
    exact (prefix_parent hcut hb rfl).resolve_left hparent
  have hwithin : parent path <+: base savedir.path ++ slash :: rest := by
    rw [← hrest]
    exact parent_prefix path
  refine ⟨⟨hnozero, hinside.1, ?_⟩, hinside⟩
  constructor
  · obtain ⟨more, hmore⟩ := parent_prefix path
    have habsolute := hspelled.absolute
    rwa [← hmore, head?_append_of_ne_nil _ hparent] at habsolute
  · exact fun hmem ↦ hnozero ((Path.parent_prefix path).subset hmem)
  · exact settled_parent (savedir.one_lt_length_base.trans_le hprefix.length_le)
  · exact anchored_of_prefix hdescends (by rwa [← hrest]) hprefix hwithin
  · obtain ⟨more, hmore⟩ := hprefix
    rw [← hmore] at hwithin hdots ⊢
    rw [prefix_append_right_inj] at hwithin
    rcases prefix_cons_iff.mp hwithin with rfl | ⟨r, rfl, hr⟩
    · rw [append_nil, savedir.located_base]
    · refine ((hdescends.of_prefix hr).located process savedir).resolve_right ?_
      rintro ⟨rfl, -⟩
      exact hdots rfl

end Sufficiency

/-! ## Ways out -/

section Necessity

/-- A process that nothing is refused to. -/
def permissive (cwd : Location UInt8) : Process UInt8 := { cwd := cwd }

variable {cwd loc : Location UInt8} {isfile : Bool} {path savedir name : StdString}
  {fs : FileSystem UInt8}

/-- A path that leads to a directory. -/
structure Leads (cwd : Location UInt8) (path : StdString) (fs : FileSystem UInt8)
    (loc : Location UInt8) : Prop where
  zero : 0 ∉ path
  find : (permissive cwd).find slash dot path fs = some loc
  dir : fs.IsDir loc

theorem Leads.ne_nil (h : Leads cwd path fs loc) : path ≠ [] := by
  rintro rfl
  cases h.find

theorem Leads.located_eq (h : Leads cwd path fs loc) : located (permissive cwd) path = loc :=
  (locate_of_find h.find).symm

/-- A directory that is there is taken if it is empty. -/
theorem createNotExistPath_of_leads (h : Leads cwd path fs loc) :
    createNotExistPath (permissive cwd) isfile path fs = (fs, .ok (fs.isEmpty loc, path)) := by
  have hlookup : fs.nodes.lookup loc = some .directory := h.dir
  have htype : type (permissive cwd) path fs = .ok (some .directory) := by
    rw [type, cStr_eq h.zero, stat, status, h.find, Option.bind_some, hlookup]
    rfl
  have hempty : Directory.isDirectoryEmpty (permissive cwd) path fs = .ok (fs.isEmpty loc) := by
    have hanswer : (permissive cwd).isDirectoryEmpty slash dot path fs = some (fs.isEmpty loc) := by
      rw [isDirectoryEmpty, h.find, Option.bind_some, if_pos h.dir]
      rfl
    rw [Directory.isDirectoryEmpty, cStr_eq h.zero, hanswer]
  have husable : isUsable (permissive cwd) isfile path fs = .ok (fs.isEmpty loc) := by
    rw [isUsable, htype]
    exact hempty
  have htry : tryCreate (permissive cwd) isfile path fs = (fs, .ok false) := by
    rw [tryCreate, htype]
  rw [createNotExistPath, createNotExistPathWith, htry]
  dsimp only
  rw [husable]
  rfl

theorem redirect_none : redirect (permissive cwd) isfile none path fs = path := by
  cases isfile <;> rfl

theorem createNextAvailableName_empty (hpasses : passes (target savedir name) (base savedir))
    (h : Leads cwd (target savedir name) fs loc) (hempty : fs.isEmpty loc = true) :
    createNextAvailableName (permissive cwd) isfile none savedir rounds name fs =
      (fs, .returned (target savedir name)) := by
  rw [createNextAvailableName, if_pos hpasses]
  simp only [redirect_none, createNotExistPath_of_leads h, hempty]

theorem createNextAvailableName_crowded (hpasses : passes (target savedir name) (base savedir))
    (h : Leads cwd (target savedir name) fs loc) (hempty : fs.isEmpty loc = false) :
    createNextAvailableName (permissive cwd) isfile none savedir rounds name fs =
      search (permissive cwd) isfile (Path.parent (target savedir name))
        (Path.filename (target savedir name)) rounds 1 fs := by
  rw [createNextAvailableName, if_pos hpasses]
  simp only [redirect_none, createNotExistPath_of_leads h, hempty]

variable {parent filename : StdString} {i : ℕ}

theorem search_empty
    (h : Leads cwd (Path.append parent (numbered filename i)) fs loc) (hempty : fs.isEmpty loc = true) :
    search (permissive cwd) isfile parent filename (rounds + 1) i fs =
      (fs, .returned (Path.append parent (numbered filename i))) := by
  simp only [search, createNotExistPath_of_leads h, hempty]

theorem search_crowded
    (h : Leads cwd (Path.append parent (numbered filename i)) fs loc) (hempty : fs.isEmpty loc = false) :
    search (permissive cwd) isfile parent filename (rounds + 1) i fs =
      search (permissive cwd) isfile parent filename rounds (i + 1) fs := by
  simp only [search, createNotExistPath_of_leads h, hempty, if_neg h.ne_nil]

theorem not_confined_of_returned {process : Process UInt8} {dir : Location UInt8}
    (hpath : path ≠ []) (houtside : ¬ Inside dir (located process path)) :
    ¬ Confined process dir fs (fs, .returned path) :=
  fun h ↦ houtside (h.returned path rfl hpath)

end Necessity

section Escapes

variable {savedir : SaveDirectory} {isfile : Bool} {name : StdString}
  {names ending extra : List StdString} {rest : StdString}

/-- Somewhere the client leaves the save directory. -/
def Escapes (savedir : SaveDirectory) (isfile : Bool) (name : StdString) : Prop :=
  ∃ process home rounds fs, fs.IsDir savedir.location ∧
    ¬ Confined process savedir.location fs
      (createNextAvailableName process isfile home savedir.path rounds name fs)

variable {fs : FileSystem UInt8}

theorem Spelled.leads (h : Spelled path names ending)
    (cwd : Location UInt8) (hzero : 0 ∉ path) (hdir : fs.IsDir names.reverse) :
    Leads cwd path fs names.reverse :=
  ⟨hzero, h.find_eq hdir, hdir⟩

variable {entry : StdString}

variable (hzero : 0 ∉ name)
  (hpasses : passes (target savedir.path name) (base savedir.path))

include hzero hpasses

/-- A target outside the save directory, or at it, is returned if it is an empty directory. -/
theorem escapes_of_outside (hspelled : Spelled (target savedir.path name) names ending)
    (houtside : ¬ Inside savedir.location names.reverse)
    (hbeside : ∀ entry, ¬ (entry :: names.reverse) <:+ savedir.location) :
    Escapes savedir isfile name := by
  let fs := ofDirectories [savedir.location, names.reverse]
  have hdir : fs.IsDir names.reverse := isDir_ofDirectories (by simp) suffix_rfl
  have hempty : fs.isEmpty names.reverse = true := by
    apply isEmpty_ofDirectories
    simp only [forall_mem_cons]
    exact ⟨hbeside, fun _ ↦ not_suffix_cons_self, by simp⟩
  have hleads := hspelled.leads [] (savedir.target_zero hzero) hdir
  refine ⟨permissive [], none, 0, fs, isDir_ofDirectories (by simp) suffix_rfl, ?_⟩
  rw [createNextAvailableName_empty hpasses hleads hempty]
  apply not_confined_of_returned hleads.ne_nil
  rwa [hleads.located_eq]

/-- The target is the save directory. -/
theorem escapes_of_base (h : target savedir.path name = base savedir.path ∨
    target savedir.path name = base savedir.path ++ [slash]) : Escapes savedir isfile name := by
  obtain ⟨names, ending, hspelled⟩ := savedir.spelled_target name
  have hlocated : names.reverse = savedir.location := by
    rw [← hspelled.located_eq (permissive []), ← savedir.located_base (permissive [])]
    rcases h with h | h <;> rw [h]
    rw [located_append_slash savedir.spelled.ne_nil (by simp), enter_skip (.inl rfl)]
  apply escapes_of_outside hzero hpasses hspelled
  · rw [hlocated]
    exact fun hinside ↦ hinside.2 rfl
  · rw [hlocated]
    exact fun _ ↦ not_suffix_cons_self

/-- The target goes on after the save directory with a backslash. -/
theorem escapes_of_backslash
    (h : target savedir.path name = base savedir.path ++ backslash :: rest) :
    Escapes savedir isfile name := by
  obtain ⟨names, ending, hspelled⟩ := savedir.spelled_target name
  have htext := hspelled.text
  rw [h, savedir.base_eq] at htext
  apply escapes_of_outside hzero hpasses hspelled
  · rintro ⟨hsuffix, -⟩
    rw [← savedir.reverse_names, reverse_suffix] at hsuffix
    obtain ⟨extra, rfl⟩ := hsuffix
    rw [append_assoc, spell_append, append_cancel_left_eq] at htext
    have hhead := congrArg head? htext
    cases hmore : extra ++ ending with
    | nil =>
      rw [hmore] at hhead
      cases hhead
    | cons =>
      rw [hmore, head?_spell (cons_ne_nil _ _)] at hhead
      cases hhead
  · intro entry hsuffix
    rw [← savedir.reverse_names, ← reverse_concat, reverse_suffix] at hsuffix
    obtain ⟨more, hmore⟩ := hsuffix
    have hlength := congrArg length htext
    rw [← hmore, spell_append, spell_concat, spell_append] at hlength
    simp only [length_append, length_cons] at hlength
    have hending : (spell slash ending).length ≤ 1 := by
      rcases hspelled.ends with rfl | rfl <;> decide
    omega

omit hzero hpasses

/-- A target below the save directory with something in it, and an empty directory elsewhere. -/
def crowded (names : List StdString) (other : Location UInt8) : FileSystem UInt8 :=
  ofDirectories [[97] :: names.reverse, other]

theorem crowded_isDir (h : loc <:+ names.reverse) : (crowded names other).IsDir loc :=
  isDir_ofDirectories mem_cons_self (h.trans (suffix_cons _ _))

theorem crowded_not_isEmpty (h : loc <:+ names.reverse) :
    (crowded names other).isEmpty loc = false := by
  obtain ⟨more, hmore⟩ := h
  obtain ⟨init, entry, hinit⟩ := (eq_nil_or_concat' ([97] :: more)).resolve_left (cons_ne_nil _ _)
  have hsuffix : (entry :: loc) <:+ [97] :: names.reverse := by
    refine ⟨init, ?_⟩
    rw [← hmore, ← cons_append, hinit, append_assoc, singleton_append]
  exact not_isEmpty_ofDirectories mem_cons_self hsuffix

theorem crowded_other (h : ¬ other <:+ [97] :: names.reverse) :
    (crowded names other).IsDir other ∧ (crowded names other).isEmpty other = true := by
  refine ⟨isDir_ofDirectories (by simp) suffix_rfl, isEmpty_ofDirectories ?_⟩
  simp only [forall_mem_cons]
  exact ⟨fun entry hsuffix ↦ h ((suffix_cons _ _).trans hsuffix), fun _ ↦ not_suffix_cons_self,
    by simp⟩

theorem leaf_numbered_filename (hzero : 0 ∉ path) (i : ℕ) :
    Leaf (numbered (Path.filename path) i) :=
  leaf_numbered (filename_noBreak path) (filename_zero hzero) i

variable {outer : Location UInt8}

theorem getLast?_of_suffix (h : outer <:+ loc) (hne : outer ≠ []) :
    outer.getLast? = loc.getLast? := by
  obtain ⟨more, rfl⟩ := h
  rw [getLast?_append_of_ne_nil _ hne]

/-- The target has no parent, so that its number makes it relative to the current directory. -/
theorem escapes_of_no_parent (hzero : 0 ∉ name)
    (hpasses : passes (target savedir.path name) (base savedir.path))
    (hspelled : Spelled (target savedir.path name) (savedir.names ++ extra) ending)
    (hparent : Path.parent (target savedir.path name) = []) : Escapes savedir isfile name := by
  have hnozero := savedir.target_zero hzero
  have hleaf := leaf_numbered_filename hnozero 1
  have hbelow := savedir.location_suffix extra
  obtain ⟨outer, first, hfirst⟩ := (eq_nil_or_concat' savedir.location).resolve_left savedir.notRoot
  have hlast : savedir.location.getLast? = some first := by
    rw [hfirst, getLast?_concat]
  -- The current directory is at the top, under a name that is not on the way to the target.
  let other : Location UInt8 := [numbered (filename (target savedir.path name)) 1, first ++ [97]]
  have hfresh : ∀ loc : Location UInt8, loc.getLast? = some first → loc.getLast? ≠ other.getLast? := by
    intro loc hloc heq
    rw [hloc] at heq
    have hlong : first = first ++ [97] := Option.some.inj heq
    rw [self_eq_append_right] at hlong
    cases hlong
  have hother : ¬ other <:+ [97] :: (savedir.names ++ extra).reverse := by
    intro hsuffix
    refine hfresh _ ?_ (getLast?_of_suffix hsuffix (cons_ne_nil _ _)).symm
    rw [← hlast]
    exact (getLast?_of_suffix (hbelow.trans (suffix_cons _ _)) savedir.notRoot).symm
  obtain ⟨hotherDir, hotherEmpty⟩ := crowded_other hother
  have htarget : (crowded (savedir.names ++ extra) other).IsDir (savedir.names ++ extra).reverse :=
    crowded_isDir suffix_rfl
  have hleads := hspelled.leads [first ++ [97]] hnozero htarget
  have hfound : Leads [first ++ [97]] (append (parent (target savedir.path name))
        (numbered (filename (target savedir.path name)) 1))
      (crowded (savedir.names ++ extra) other) other := by
    rw [hparent, append, if_pos rfl]
    refine ⟨hleaf.noZero, ?_, hotherDir⟩
    have hslash := hleaf.ordinary.2.2.2
    have hrelative : (numbered (filename (target savedir.path name)) 1).head? ≠ some slash :=
      fun hhead ↦ hslash (mem_of_mem_head? hhead)
    have hcwd : (crowded (savedir.names ++ extra) other).IsDir [first ++ [97]] :=
      hotherDir.of_suffix (suffix_cons _ _)
    rw [find, if_neg hleaf.ne_nil, start, if_neg hrelative, splitOn_eq_singleton hslash]
    change walk dot _ [first ++ [97]] _ = _
    rw [walk, if_pos hcwd, enter_ordinary hleaf.ordinary]
    rfl
  refine ⟨permissive [first ++ [97]], none, 1, crowded (savedir.names ++ extra) other,
    crowded_isDir hbelow, ?_⟩
  rw [createNextAvailableName_crowded hpasses hleads (crowded_not_isEmpty suffix_rfl),
    search_empty hfound hotherEmpty]
  apply not_confined_of_returned hfound.ne_nil
  rw [hfound.located_eq]
  exact fun hinside ↦ hfresh _ hlast (getLast?_of_suffix hinside.1 savedir.notRoot)

theorem numbered_ne (filename : StdString) : numbered filename 1 ≠ numbered filename 2 := by
  have htag : tag 1 ≠ tag 2 := by decide
  unfold numbered
  split
  · exact fun heq ↦ htag (append_cancel_left heq)
  · exact fun heq ↦ htag (append_cancel_left (append_cancel_right heq))

/-- A number behind `..` in the save directory leads beside it. -/
theorem leads_beside {number : StdString} (hlocation : savedir.location = entry :: outer)
    (hparent : Path.parent path = base savedir.path ++ [slash, dot, dot]) (hzero : 0 ∉ path)
    (hleaf : Leaf number) (hdir : fs.IsDir savedir.location) (hnumber : fs.IsDir (number :: outer)) :
    Leads [] (Path.append (Path.parent path) number) fs (number :: outer) := by
  have htext : append (parent path) number = spell slash (savedir.names ++ [[dot, dot], number]) := by
    have hdots : base savedir.path ++ [slash, dot, dot] = base savedir.path ++ [slash, dot] ++ [dot] := by
      simp
    rw [hparent, hdots, append_of_not_separator rfl, savedir.base_eq, spell_append, spell_cons,
      spell_singleton]
    simp
  refine ⟨fun hmem ↦ ?_, ?_, hnumber⟩
  · rcases mem_append hmem with hpath | hname | hslash
    · exact hzero ((Path.parent_prefix path).subset hpath)
    · exact hleaf.noZero hname
    · cases hslash
  · have hslash : ∀ component ∈ [[dot, dot], number], slash ∉ component := by
      simp only [forall_mem_cons]
      exact ⟨by decide, hleaf.ordinary.2.2.2, by simp⟩
    have houter : fs.IsDir outer := hnumber.of_suffix (suffix_cons _ _)
    rw [htext, find_spell_append (by simp) savedir.ordinary hslash (by rwa [savedir.reverse_names]),
      savedir.reverse_names, walk, if_pos hdir, hlocation, enter_dots, up_cons (SaveDirectory.ordinary_head hlocation).2.2.1,
      walk, if_pos houter, enter_ordinary hleaf.ordinary]
    rfl

/-- The parent of the target is `..` in the save directory, so that its number puts it beside
the save directory. -/
theorem escapes_of_dots_parent (hzero : 0 ∉ name)
    (hpasses : passes (target savedir.path name) (base savedir.path))
    (hspelled : Spelled (target savedir.path name) (savedir.names ++ extra) ending)
    (hparent : Path.parent (target savedir.path name) = base savedir.path ++ [slash, dot, dot]) :
    Escapes savedir isfile name := by
  have hnozero := savedir.target_zero hzero
  have hbelow := savedir.location_suffix extra
  obtain ⟨entry, outer, hlocation⟩ := exists_cons_of_ne_nil savedir.notRoot
  change savedir.location = entry :: outer at hlocation
  generalize hfilename : filename (target savedir.path name) = filename at *
  -- Of the first two numbers one does not give the name of the save directory.
  obtain ⟨i, hi, hne⟩ : ∃ i, (i = 1 ∨ i = 2 ∧ numbered filename 1 = entry) ∧ numbered filename i ≠ entry := by
    by_cases hfirst : numbered filename 1 = entry
    · exact ⟨2, .inr ⟨rfl, hfirst⟩, hfirst ▸ (numbered_ne filename).symm⟩
    · exact ⟨1, .inl rfl, hfirst⟩
  let fs := crowded (savedir.names ++ extra) (numbered filename i :: outer)
  have hother : ¬ (numbered filename i :: outer) <:+ [97] :: (savedir.names ++ extra).reverse := by
    intro hsuffix
    have hsame := suffix_of_suffix_length_le hsuffix (hbelow.trans (suffix_cons [97] _))
      (by rw [hlocation]; rfl)
    rw [hlocation] at hsame
    exact hne (cons.inj (hsame.eq_of_length rfl)).1
  obtain ⟨hotherDir, hotherEmpty⟩ := crowded_other hother
  have hdir : fs.IsDir savedir.location := crowded_isDir hbelow
  have hbeside : ∀ j, fs.IsDir (numbered filename j :: outer) →
      Leads [] (append (parent (target savedir.path name)) (numbered filename j)) fs
        (numbered filename j :: outer) := by
    intro j hj
    have hleaf : Leaf (numbered filename j) := hfilename ▸ leaf_numbered_filename hnozero j
    exact leads_beside hlocation hparent hnozero hleaf hdir hj
  refine ⟨permissive [], none, 2, fs, hdir, ?_⟩
  rw [createNextAvailableName_crowded hpasses
    (hspelled.leads [] hnozero (crowded_isDir suffix_rfl)) (crowded_not_isEmpty suffix_rfl),
    hfilename]
  have hfound := hbeside i hotherDir
  have hreturned : search (permissive []) isfile (parent (target savedir.path name)) filename 2 1 fs =
      (fs, .returned (append (parent (target savedir.path name)) (numbered filename i))) := by
    rcases hi with rfl | ⟨rfl, hfirst⟩
    · exact search_empty hfound hotherEmpty
    · have hsaved : numbered filename 1 :: outer = savedir.location := by rw [hfirst, hlocation]
      have hcrowded : fs.isEmpty (numbered filename 1 :: outer) = false := by
        rw [hsaved]
        exact crowded_not_isEmpty hbelow
      rw [search_crowded (hbeside 1 (by rwa [hsaved])) hcrowded]
      exact search_empty hfound hotherEmpty
  rw [hreturned]
  apply not_confined_of_returned hfound.ne_nil
  rw [hfound.located_eq, hlocation]
  exact fun hinside ↦ hne (cons.inj (hinside.1.eq_of_length rfl)).1.symm

/-- A name that is not safe escapes. -/
theorem escapes_of_not_safe (hzero : 0 ∉ name) (h : ¬ Safe savedir.path name) :
    Escapes savedir isfile name := by
  obtain ⟨hpasses, hunsafe⟩ := Classical.not_imp.mp h
  by_cases hafter : base savedir.path ++ [slash] <+: target savedir.path name ∧
      target savedir.path name ≠ base savedir.path ++ [slash]
  · obtain ⟨rest, hne, hrest⟩ := exists_rest hafter
    obtain ⟨names, ending, hspelled⟩ := savedir.spelled_target name
    obtain ⟨extra, -, rfl, -⟩ := hspelled.after_base hrest hne
    by_cases hparent : parent (target savedir.path name) = []
    · exact escapes_of_no_parent hzero hpasses hspelled hparent
    · apply escapes_of_dots_parent hzero hpasses hspelled
      by_contra hdots
      exact hunsafe ⟨hafter, hparent, hdots⟩
  · rcases hpasses with hbase | ⟨⟨more, hmore⟩, hseparator⟩
    · exact escapes_of_base hzero (.inl hbase) (.inl hbase)
    · have hpasses : passes (target savedir.path name) (base savedir.path) := .inr ⟨⟨more, hmore⟩, hseparator⟩
      rw [← hmore, drop_left] at hseparator
      cases more with
      | nil => cases hseparator
      | cons c rest =>
        by_cases hslash : c = slash
        · subst hslash
          apply escapes_of_base hzero hpasses
          right
          by_contra hne
          refine hafter ⟨⟨rest, ?_⟩, hne⟩
          rwa [append_assoc, singleton_append]
        · have hback : c = backslash := by simpa [isSeparator, hslash] using hseparator
          exact escapes_of_backslash hzero hpasses (by rw [← hmore, hback])

end Escapes

/-- A save directory with a separator at its end, as the session manager sets it. -/
def downloads : SaveDirectory where
  path := ascii "/home/u/"
  absolute := by decide
  noZero := by decide
  notRoot := by decide
  noBackslash := by decide

end DdeCooperation.Web.FileClient
