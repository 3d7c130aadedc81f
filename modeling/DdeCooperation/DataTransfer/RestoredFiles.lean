import Mathlib.Data.List.DropRight
import DdeCooperation.Foundations.LexicalPath

/-!
# Moving received files to where they came from

Data transfer receives the files of another machine into one directory, together with
`transfer.json`, whose list `user_file` says where each file stood in the home directory.
When the transfer is complete, `SettingHelper::setFile` moves every file to its place; when
it is interrupted, a handler moves those that were finished. The source is named by the
last part of an entry in the one case, and by what follows its first separator in the
other. The target is the entry itself, appended to the home directory. If something is
there already, `moveFile` puts a number into the name.

The file system is a parameter, of which only this is used: `mkpath` makes directories on
the way to the path it is given, after resolving it, and the home directory is there.
Nothing of what is done leaves the home directory and the received directory, on any file
system, if and only if the entries do not lead out of them.
-/

namespace DdeCooperation.DataTransfer

open Foundations ResolvedPath List

abbrev Text := List Char

def resolved (path : Text) : ResolvedPath Char := resolve '/' '.' path

/-- What Qt does to the file system. -/
structure Disk (δ : Type) where
  /-- `QFile::exists`. -/
  isPresent : Text → δ → Bool
  isDir : Text → δ → Bool
  /-- The directories that `QDir::mkpath` makes for a resolved path. -/
  mkpath : ResolvedPath Char → δ → δ × List (ResolvedPath Char)
  /-- Renames, or copies and removes, and whether this succeeds. -/
  move : Text → Text → δ → δ × Bool
  write : Text → δ → δ
  removeRecursively : Text → δ → δ

/-- The directories and the file that the two handlers work with. -/
structure Site where
  /-- `QDir::homePath`. -/
  home : Text
  /-- The received directory. -/
  fileDir : Text
  /-- Where unfinished entries are recorded, in the cache of the user. -/
  tempPath : Text
  home_absolute : home.head? = some '/'
  fileDir_ne_nil : fileDir ≠ []
  tempPath_within : Within '.' (resolved home) (resolved tempPath)

/-- `mkpath` makes directories on the way to a path, and the home directory is there. -/
def Disk.Lawful {δ : Type} (site : Site) (disk : Disk δ) : Prop :=
  ∀ path d, ∀ dir ∈ (disk.mkpath path d).2, dir.absolute = path.absolute ∧
    dir.components <:+ path.components ∧ ¬ dir.components <:+ (resolved site.home).components

inductive Action where
  | made (dir : ResolvedPath Char)
  | wrote (path : Text)
  | moved (src dst : Text)

/-! ## Names -/

/-- `QFileInfo::fileName` and `section('/', -1)`. -/
def fileName (path : Text) : Text := path.rtakeWhile (· ≠ '/')

/-- What stands before the last name, with the separator. -/
def parentText (path : Text) : Text := path.rdropWhile (· ≠ '/')

/-- `QFileInfo::path` of a path with a directory. -/
def dirPath (path : Text) : Text := (parentText path).dropLast

/-- `QFileInfo::absolutePath` of an absolute path, resolved. -/
def absolutePath (path : Text) : ResolvedPath Char :=
  if path.getLast? = some '/' then resolved path
  else { resolved path with components := (resolved path).components.tail }

/-- `mid(indexOf('/') + 1)`. -/
def afterFirst (path : Text) : Text :=
  if '/' ∈ path then (path.dropWhile (· ≠ '/')).tail else path

/-- The last part of `split(".")`, if there are two or more. -/
def suffixOf (isDir : Bool) (name : Text) : Text :=
  if ¬ isDir ∧ '.' ∈ name then '.' :: name.rtakeWhile (· ≠ '.') else []

def baseName (isDir : Bool) (name : Text) : Text :=
  let suffix := suffixOf isDir name
  if suffix.isSuffixOf name then name.take (name.length - suffix.length) else name

def numbered (isDir : Bool) (name : Text) (i : ℕ) : Text :=
  baseName isDir name ++ '(' :: (toString i).toList ++ ')' :: suffixOf isDir name

section Handlers

variable {δ : Type} (disk : Disk δ) (rounds : ℕ)

/-- The loop of `moveFile`, for a number of rounds. -/
def search (isDir : Bool) (dst : Text) (d : δ) : ℕ → ℕ → Option Text
  | 0, _ => none
  | rounds + 1, i =>
    let next := parentText dst ++ '/' :: numbered isDir (fileName dst) i
    if disk.isPresent next d then search isDir dst d rounds (i + 1) else some next

/-- The state is missing when the loop goes on after the rounds. -/
def moveFile (src dst : Text) (d : δ) : Option δ × List Action :=
  let target := if disk.isPresent dst d then search disk (disk.isDir src d) dst d rounds 1
    else some dst
  match target with
  | none => (none, [])
  | some dst =>
    let (d, dirs) := disk.mkpath (absolutePath dst) d
    (some (disk.move src dst d).1, dirs.map .made ++ [.moved src dst])

/-- One entry is moved to its place. -/
def restore (site : Site) (source : Text → Text) (file : Text) (d : δ) :
    Option δ × List Action :=
  let target := site.home ++ '/' :: file
  let (d, dirs) := if disk.isDir (dirPath target) d then (d, [])
    else disk.mkpath (resolved (dirPath target)) d
  let (d, actions) := moveFile disk rounds (site.fileDir ++ '/' :: source file) target d
  (d, dirs.map .made ++ actions)

/-- A loop over entries, which stops where an entry never ends. -/
def forEach (body : Text → δ → Option δ × List Action) : List Text → δ → Option δ × List Action
  | [], d => (some d, [])
  | file :: files, d =>
    match body file d with
    | (none, actions) => (none, actions)
    | (some d, actions) => ((forEach body files d).1, actions ++ (forEach body files d).2)

def setFile (site : Site) (userFile : List Text) (d : δ) : Option δ × List Action :=
  forEach (restore disk rounds site fileName) userFile d

/-- The entries that count as finished: each uses up a finished file that ends like it. -/
def finishedEntries : List Text → List Text → List Text
  | _, [] => []
  | finshedFiles, file :: files =>
    match finshedFiles.find? fun key ↦ (afterFirst file).isSuffixOf key with
    | some key => file :: finishedEntries (finshedFiles.erase key) files
    | none => finishedEntries finshedFiles files

/-- The handler that `recordTranferJob` installs; `userFile` is missing when there is no
file or no object in it. -/
def interruption (site : Site) (finshedFiles : List Text) (userFile : Option (List Text))
    (d : δ) : Option δ × List Action :=
  match userFile with
  | none => (some d, [])
  | some userFile =>
    match forEach (restore disk rounds site afterFirst) (finishedEntries finshedFiles userFile)
      d with
    | (none, actions) => (none, actions)
    | (some d, actions) =>
      (some (disk.removeRecursively site.fileDir (disk.write site.tempPath d)),
        actions ++ [.wrote site.tempPath])

end Handlers

namespace Site

variable (site : Site)

/-- Directories and files are made, and files moved, within the home directory; what is
moved was received. -/
def Contains : Action → Prop
  | .made dir => Within '.' (resolved site.home) dir
  | .wrote path => Within '.' (resolved site.home) (resolved path)
  | .moved src dst => Within '.' (resolved site.fileDir) (resolved src) ∧
      Within '.' (resolved site.home) (resolved dst)

instance (action : Action) : Decidable (site.Contains action) := by
  cases action <;> unfold Contains <;> infer_instance

/-- On any file system, nothing that a handler does leaves the two directories. -/
def StaysInside (handler : ∀ {δ : Type}, Disk δ → ℕ → δ → Option δ × List Action) : Prop :=
  ∀ (δ : Type) (disk : Disk δ), disk.Lawful site → ∀ rounds d,
    ∀ action ∈ (handler disk rounds d).2, site.Contains action

/-- From the home directory, the entry and its directory lead back into it; from the
received directory, the name of the source does. -/
def Confined (source : Text → Text) (file : Text) : Prop :=
  (Route.ofPath '/' '.' (dirPath file)).LeadsBack '.' (resolved site.home) ∧
    (Route.ofPath '/' '.' file).LeadsBack '.' (resolved site.home) ∧
    (Route.ofPath '/' '.' (source file)).LeadsBack '.' (resolved site.fileDir)

instance (source : Text → Text) (file : Text) : Decidable (site.Confined source file) :=
  inferInstanceAs (Decidable (_ ∧ _ ∧ _))

end Site

/-! ## Parts of a path -/

theorem parentText_append (base path : Text) :
    parentText (base ++ '/' :: path) = base ++ '/' :: parentText path := by
  unfold parentText
  induction path using reverseRecOn with
  | nil => exact rdropWhile_concat_neg _ _ _ (by decide)
  | append_singleton path c ih =>
    rw [← cons_append, ← append_assoc, rdropWhile_concat, rdropWhile_concat]
    split
    · exact ih
    · rw [append_assoc, cons_append]

variable {base path : Text}

theorem fileName_append : fileName (base ++ '/' :: path) = fileName path := by
  unfold fileName
  induction path using reverseRecOn with
  | nil => exact rtakeWhile_concat_neg _ _ _ (by decide)
  | append_singleton path c ih =>
    rw [← cons_append, ← append_assoc, rtakeWhile_concat, rtakeWhile_concat, ih]

theorem sep_notMem_fileName (path : Text) : '/' ∉ fileName path := by
  intro hmem
  have hne := mem_rtakeWhile_imp hmem
  exact of_decide_eq_true hne rfl

theorem parentText_append_fileName (path : Text) : parentText path ++ fileName path = path :=
  rdropWhile_append_rtakeWhile

/-- Before the last name there is nothing, or a directory and a separator. -/
theorem parentText_cases :
    parentText path = [] ∧ dirPath path = [] ∨ parentText path = dirPath path ++ ['/'] := by
  by_cases hempty : parentText path = []
  · refine .inl ⟨hempty, ?_⟩
    rw [dirPath, hempty]
    rfl
  · refine .inr ?_
    have hlast := rdropWhile_last_not _ _ hempty
    rw [decide_eq_true_eq, not_not] at hlast
    conv_lhs => rw [← dropLast_append_getLast hempty]
    exact congrArg (fun c ↦ dirPath path ++ [c]) hlast

variable {base : Text}

theorem resolved_append_sep (hbase : base ≠ []) : resolved (base ++ ['/']) = resolved base := by
  rw [resolved, Route.resolve_append_name hbase not_mem_nil, enter_skip (.inl rfl)]
  rfl

/-- What stands before the last name resolves to the directory, with the separator or
without. -/
theorem resolved_parentText (base path : Text) :
    resolved (base ++ '/' :: parentText path) = resolved (base ++ '/' :: dirPath path) := by
  rcases parentText_cases with ⟨hparent, hdir⟩ | hparent
  · rw [hparent, hdir]
  · rw [hparent, ← cons_append, ← append_assoc]
    exact resolved_append_sep (by simp)

theorem resolved_dirPath_append (hbase : base ≠ []) :
    resolved (dirPath (base ++ '/' :: path)) = resolved (base ++ '/' :: dirPath path) := by
  rw [dirPath, parentText_append]
  rcases parentText_cases with ⟨hparent, hdir⟩ | hparent
  · rw [hparent, hdir, dropLast_concat, resolved_append_sep hbase]
  · rw [hparent, ← cons_append, ← append_assoc, dropLast_concat]

theorem resolved_append (hbase : base ≠ []) (path : Text) :
    resolved (base ++ '/' :: path) =
      { absolute := (resolved base).absolute
        components := enter '.' (resolved base).absolute
          (resolved (base ++ '/' :: dirPath path)).components (fileName path) } := by
  have habsolute : (resolved (base ++ '/' :: dirPath path)).absolute =
      (resolved base).absolute := by
    rw [resolved, Route.resolve_append hbase]
    rfl
  rcases parentText_cases with ⟨hparent, hdir⟩ | hparent
  · have hpath := parentText_append_fileName path
    rw [hparent, nil_append] at hpath
    rw [hdir, resolved_append_sep hbase, resolved]
    conv_lhs => rw [← hpath]
    exact Route.resolve_append_name hbase (sep_notMem_fileName path)
  · have hpath := parentText_append_fileName path
    rw [hparent, append_assoc, singleton_append] at hpath
    have hnext : resolve '/' '.' (base ++ '/' :: dirPath path ++ '/' :: fileName path) = _ :=
      Route.resolve_append_name (by simp) (sep_notMem_fileName path)
    rw [append_assoc, cons_append, hpath] at hnext
    rw [resolved, hnext]
    exact congrArg (fun b ↦ (⟨b, enter '.' b _ _⟩ : ResolvedPath Char)) habsolute

/-! ## Numbered names -/

theorem length_le_baseName_add (isDir : Bool) (name : Text) :
    name.length ≤ (baseName isDir name).length + (suffixOf isDir name).length := by
  unfold baseName
  dsimp only
  split
  · rw [length_take]
    omega
  · exact Nat.le_add_right _ _

theorem numbered_ne (isDir : Bool) (name : Text) (i : ℕ) : numbered isDir name i ≠ name := by
  intro h
  have hlength := congrArg length h
  simp only [numbered, length_append, length_cons] at hlength
  have hle := length_le_baseName_add isDir name
  omega

variable {name : Text} {isDir : Bool} {c : Char}

theorem mem_of_mem_baseName (h : c ∈ baseName isDir name) : c ∈ name := by
  unfold baseName at h
  dsimp only at h
  split at h
  · exact mem_of_mem_take h
  · exact h

theorem mem_of_mem_suffixOf (h : c ∈ suffixOf isDir name) : c = '.' ∨ c ∈ name := by
  unfold suffixOf at h
  split at h
  · exact (mem_cons.mp h).imp_right fun hmem ↦ (rtakeWhile_suffix _ _).subset hmem
  · exact absurd h not_mem_nil

variable {i : ℕ}

theorem sep_notMem_digits : '/' ∉ (toString i).toList := by
  intro hmem
  rw [Nat.toString_eq_repr, Nat.toList_repr] at hmem
  have hdigit := Nat.isDigit_of_mem_toDigits (by decide) (by decide) hmem
  exact absurd hdigit (by decide)

theorem sep_notMem_numbered (hname : '/' ∉ name) : '/' ∉ numbered isDir name i := by
  simp only [numbered, mem_append, mem_cons, not_or]
  refine ⟨⟨fun h ↦ hname (mem_of_mem_baseName h), by decide, sep_notMem_digits⟩, by decide,
    fun h ↦ ?_⟩
  rcases mem_of_mem_suffixOf h with hdot | hmem
  · exact absurd hdot (by decide)
  · exact hname hmem

variable {isDir : Bool} {name : Text}

/-- A numbered name is an ordinary component. -/
theorem enter_numbered (absolute : Bool) (components : List Text) :
    enter '.' absolute components (numbered isDir name i) =
      numbered isDir name i :: components := by
  have hparen : '(' ∈ numbered isDir name i := by simp [numbered]
  have hnot : ∀ text : Text, '(' ∉ text → numbered isDir name i ≠ text :=
    fun text htext heq ↦ htext (heq ▸ hparen)
  refine enter_name (not_or.mpr ⟨hnot _ not_mem_nil, hnot _ (by decide)⟩) (hnot _ (by decide))

/-- A numbered target lies in the directory of the target. -/
theorem resolved_numbered (hbase : base ≠ []) :
    resolved (parentText (base ++ '/' :: path) ++
        '/' :: numbered isDir (fileName (base ++ '/' :: path)) i) =
      { absolute := (resolved base).absolute
        components := numbered isDir (fileName path) i ::
          (resolved (base ++ '/' :: dirPath path)).components } := by
  rw [parentText_append, fileName_append, resolved, Route.resolve_append_name (by simp)
    (sep_notMem_numbered (sep_notMem_fileName path)), enter_numbered]
  have hparent := resolved_parentText base path
  rw [resolved] at hparent
  rw [hparent, resolved, Route.resolve_append hbase]
  rfl

/-! ## Entries that do not lead out -/

variable {site : Site} {source : Text → Text} {file : Text} {δ : Type} {disk : Disk δ} {d : δ}
  {rounds : ℕ}

theorem Site.home_ne_nil (site : Site) : site.home ≠ [] := by
  intro hempty
  have habsolute := site.home_absolute
  rw [hempty] at habsolute
  cases habsolute

theorem Site.confined_iff (site : Site) (source : Text → Text) (file : Text) :
    site.Confined source file ↔
      Within '.' (resolved site.home) (resolved (site.home ++ '/' :: dirPath file)) ∧
      Within '.' (resolved site.home) (resolved (site.home ++ '/' :: file)) ∧
      Within '.' (resolved site.fileDir) (resolved (site.fileDir ++ '/' :: source file)) :=
  and_congr (Route.within_append_iff site.home_ne_nil _).symm
    (and_congr (Route.within_append_iff site.home_ne_nil _).symm
      (Route.within_append_iff site.fileDir_ne_nil _).symm)

variable {dst : Text}

theorem search_eq_some {next : Text} {i : ℕ} (h : search disk isDir dst d rounds i = some next) :
    ∃ k, next = parentText dst ++ '/' :: numbered isDir (fileName dst) k := by
  induction rounds generalizing i with
  | zero => cases h
  | succ rounds ih =>
    simp only [search] at h
    split at h
    · exact ih h
    · exact ⟨i, (Option.some.inj h).symm⟩

variable {action : Action}

theorem contains_made (hlawful : disk.Lawful site) {path : ResolvedPath Char}
    (hdst : Within '.' (resolved site.home) (resolved dst))
    (habsolute : path.absolute = (resolved dst).absolute)
    (hpath : path.components <:+ (resolved dst).components)
    (h : action ∈ (disk.mkpath path d).2.map Action.made) : site.Contains action := by
  obtain ⟨dir, hdir, rfl⟩ := mem_map.mp h
  obtain ⟨hsame, hsuffix, hnot⟩ := hlawful path d dir hdir
  exact hdst.of_suffix (hsame.trans habsolute) (hsuffix.trans hpath) hnot

theorem absolutePath_suffix :
    (absolutePath path).absolute = (resolved path).absolute ∧
      (absolutePath path).components <:+ (resolved path).components := by
  unfold absolutePath
  split
  · exact ⟨rfl, suffix_rfl⟩
  · exact ⟨rfl, tail_suffix _⟩

/-- The target, with a number or without, lies in the directory of the entry. -/
theorem contains_moveFile (hlawful : disk.Lawful site) (h : site.Confined source file)
    (haction : action ∈ (moveFile disk rounds (site.fileDir ++ '/' :: source file)
    (site.home ++ '/' :: file) d).2) : site.Contains action := by
  obtain ⟨hdir, htarget, hsource⟩ := (site.confined_iff source file).mp h
  have hdone : ∀ dst, Within '.' (resolved site.home) (resolved dst) →
      action ∈ (disk.mkpath (absolutePath dst) d).2.map Action.made ++
        [.moved (site.fileDir ++ '/' :: source file) dst] → site.Contains action := by
    intro dst hdst hmem
    rcases mem_append.mp hmem with hmade | hmoved
    · exact contains_made hlawful hdst absolutePath_suffix.1 absolutePath_suffix.2 hmade
    · rw [mem_singleton.mp hmoved]
      exact ⟨hsource, hdst⟩
  unfold moveFile at haction
  dsimp only at haction
  split at haction
  · exact absurd haction not_mem_nil
  · next dst hdst =>
    refine hdone dst ?_ haction
    split at hdst
    · obtain ⟨k, hnext⟩ := search_eq_some hdst
      rw [hnext, resolved_numbered site.home_ne_nil]
      obtain ⟨-, new, hnew, hplain⟩ := within_iff.mp hdir
      refine within_iff.mpr ⟨rfl, _ :: new, congrArg (cons _) hnew, ?_⟩
      refine forall_mem_cons.mpr ⟨fun hdots ↦ ?_, hplain⟩
      -- a numbered name has a bracket
      have hparen : '(' ∈ numbered (disk.isDir (site.fileDir ++ '/' :: source file) d)
        (fileName file) k := by simp [numbered]
      rw [hdots] at hparen
      exact absurd hparen (by decide)
    · rw [← Option.some.inj hdst]
      exact htarget

theorem contains_restore (hlawful : disk.Lawful site) (h : site.Confined source file)
    (haction : action ∈ (restore disk rounds site source file d).2) : site.Contains action := by
  have hdir := ((site.confined_iff source file).mp h).1
  rw [← resolved_dirPath_append site.home_ne_nil] at hdir
  unfold restore at haction
  dsimp only at haction
  rcases mem_append.mp haction with hmade | hmoved
  · split at hmade
    · exact absurd hmade not_mem_nil
    · exact contains_made hlawful hdir rfl suffix_rfl hmade
  · exact contains_moveFile hlawful h hmoved

variable {files : List Text}

theorem mem_forEach {body : Text → δ → Option δ × List Action}
    (h : action ∈ (forEach body files d).2) : ∃ file ∈ files, ∃ d, action ∈ (body file d).2 := by
  induction files generalizing d with
  | nil => exact absurd h not_mem_nil
  | cons file files ih =>
    unfold forEach at h
    split at h
    · next actions hbody => exact ⟨file, mem_cons_self, d, by rw [hbody]; exact h⟩
    · next next actions hbody =>
      rcases mem_append.mp h with hfirst | hrest
      · exact ⟨file, mem_cons_self, d, by rw [hbody]; exact hfirst⟩
      · obtain ⟨other, hother, state, hmem⟩ := ih hrest
        exact ⟨other, mem_cons_of_mem _ hother, state, hmem⟩

/-! ## Entries that lead out -/

/-- A file system on which certain paths are there, and every directory that is not on the
way to the home directory is made. -/
def Site.bareDisk (site : Site) (present : Text → Bool) : Disk Unit where
  isPresent path _ := present path
  isDir _ _ := false
  mkpath path _ :=
    ((), if path.components.isSuffixOf (resolved site.home).components then [] else [path])
  move _ _ _ := ((), true)
  write _ _ := ()
  removeRecursively _ _ := ()

theorem lawful_bareDisk (present : Text → Bool) : (site.bareDisk present).Lawful site := by
  intro path d dir hdir
  simp only [Site.bareDisk] at hdir
  split at hdir
  · exact absurd hdir not_mem_nil
  · next hnot =>
    rw [mem_singleton.mp hdir]
    exact ⟨rfl, suffix_rfl, fun h ↦ hnot (isSuffixOf_iff_suffix.mpr h)⟩

/-- The name with the number 1, beside a path. -/
def firstNumbered (path : Text) : Text :=
  parentText path ++ '/' :: numbered false (fileName path) 1

theorem firstNumbered_ne : firstNumbered path ≠ path := by
  intro h
  conv_rhs at h => rw [← parentText_append_fileName path]
  have hname := append_cancel_left h
  refine sep_notMem_fileName path ?_
  rw [← hname]
  exact mem_cons_self

variable {present : Text → Bool}

theorem moveFile_bareDisk
    (hfree : ∀ path, present path = true → present (firstNumbered path) = false) (src dst : Text) :
    ∃ made, moveFile (site.bareDisk present) 1 src dst () =
      (some (), made ++ [.moved src (if present dst then firstNumbered dst else dst)]) := by
  unfold moveFile
  cases hpresent : present dst with
  | false =>
    have hdst : (site.bareDisk present).isPresent dst () = false := hpresent
    rw [hdst]
    exact ⟨_, rfl⟩
  | true =>
    have hdst : (site.bareDisk present).isPresent dst () = true := hpresent
    have hnext : (site.bareDisk present).isPresent
        (parentText dst ++ '/' :: numbered ((site.bareDisk present).isDir src ()) (fileName dst) 1)
        () = false := hfree dst hpresent
    simp only [hdst, search, hnext, Bool.false_eq_true, if_false, if_true]
    exact ⟨_, rfl⟩

theorem restore_bareDisk
    (hfree : ∀ path, present path = true → present (firstNumbered path) = false) :
    (restore (site.bareDisk present) 1 site source file ()).1 = some () ∧
      .moved (site.fileDir ++ '/' :: source file)
          (if present (site.home ++ '/' :: file) then firstNumbered (site.home ++ '/' :: file)
            else site.home ++ '/' :: file) ∈
        (restore (site.bareDisk present) 1 site source file ()).2 ∧
      ((resolved (dirPath (site.home ++ '/' :: file))).components <:+
          (resolved site.home).components ∨
        .made (resolved (dirPath (site.home ++ '/' :: file))) ∈
          (restore (site.bareDisk present) 1 site source file ()).2) := by
  obtain ⟨made, hmove⟩ := moveFile_bareDisk hfree (site.fileDir ++ '/' :: source file)
    (site.home ++ '/' :: file)
  unfold restore
  dsimp only
  rw [hmove]
  refine ⟨rfl, mem_append_right _ (mem_append_right _ mem_cons_self), ?_⟩
  by_cases hdir : (resolved (dirPath (site.home ++ '/' :: file))).components <:+
      (resolved site.home).components
  · exact .inl hdir
  · refine .inr (mem_append_left _ ?_)
    simp [Site.bareDisk, hdir]

theorem mem_forEach_of_mem {body : Text → Unit → Option Unit × List Action}
    (hbody : ∀ file, (body file ()).1 = some ()) (hfile : file ∈ files)
    (h : action ∈ (body file ()).2) : action ∈ (forEach body files ()).2 := by
  induction files with
  | nil => exact absurd hfile not_mem_nil
  | cons first files ih =>
    have hstate := hbody first
    unfold forEach
    split
    · next actions hnone =>
      rw [hnone] at hstate
      cases hstate
    · next d actions hsome =>
      rcases mem_cons.mp hfile with heq | hrest
      · rw [heq, hsome] at h
        exact mem_append_left _ h
      · exact mem_append_right _ (ih hrest)

/-- An entry of which no run leaves the two directories does not lead out of them. -/
theorem confined_of_contains (h : ∀ present : Text → Bool,
      (∀ path, present path = true → present (firstNumbered path) = false) →
      ∀ action ∈ (restore (site.bareDisk present) 1 site source file ()).2, site.Contains action) :
    site.Confined source file := by
  -- First, nothing is there.
  have hbare : ∀ path, (fun _ : Text ↦ false) path = true →
      (fun _ : Text ↦ false) (firstNumbered path) = false := fun _ _ ↦ rfl
  obtain ⟨-, hmoved, hmade⟩ := restore_bareDisk hbare
  obtain ⟨hsource, htarget⟩ := h _ hbare _ hmoved
  rw [resolved_dirPath_append site.home_ne_nil] at hmade
  have hdir := hmade.imp_right (h _ hbare _)
  refine (site.confined_iff source file).mpr ⟨hdir.elim (fun hsuffix ↦ ?_) id, htarget, hsource⟩
  have habsolute : (resolved site.home).absolute = true := decide_eq_true site.home_absolute
  -- The directory of the entry is on the way to the home directory: it is not above it.
  have hlength : (resolved site.home).components.length ≤
      (resolved (site.home ++ '/' :: dirPath file)).components.length := by
    by_contra hlt
    have hparts := resolved_append site.home_ne_nil file
    have hhome : (resolved site.home).components =
        fileName file :: (resolved (site.home ++ '/' :: dirPath file)).components := by
      have hle := htarget.2.1
      rw [if_neg Bool.false_ne_true, hparts] at hle
      rcases enter_eq_cons_or_length_le '.' (resolved site.home).absolute
        (resolved (site.home ++ '/' :: dirPath file)).components (fileName file)
        (.inl habsolute) with hcons | hshort
      · rw [hcons] at hle
        refine hle.eq_of_length (le_antisymm hle.length_le ?_)
        rw [length_cons]
        omega
      · exact absurd (le_trans hle.length_le hshort) hlt
    -- Then the entry is the home directory itself, and a number leads out of it.
    have htaken : ∀ path, (· == site.home ++ '/' :: file) path = true →
        (· == site.home ++ '/' :: file) (firstNumbered path) = false := by
      intro path hpath
      rw [eq_of_beq hpath]
      exact beq_eq_false_iff_ne.mpr firstNumbered_ne
    obtain ⟨-, hnumbered, -⟩ := restore_bareDisk htaken
    have hnext := (h _ htaken _ hnumbered).2.2.1
    rw [if_pos (beq_self_eq_true _), firstNumbered, resolved_numbered site.home_ne_nil,
      hhome] at hnext
    have hsame := hnext.eq_of_length rfl
    exact numbered_ne false (fileName file) 1 (cons.inj hsame).1.symm
  have heq := hsuffix.eq_of_length (le_antisymm hsuffix.length_le hlength)
  refine within_iff.mpr ⟨?_, [], heq.symm, by simp⟩
  rw [resolved, Route.resolve_append site.home_ne_nil]
  rfl

theorem staysInside_forEach (files : List Text) :
    (site.StaysInside fun disk rounds ↦ forEach (restore disk rounds site source) files) ↔
      ∀ file ∈ files, site.Confined source file := by
  constructor
  · intro h file hfile
    refine confined_of_contains fun present hfree action haction ↦ ?_
    refine h Unit (site.bareDisk present) (lawful_bareDisk present) 1 () action ?_
    exact mem_forEach_of_mem (fun other ↦ (restore_bareDisk hfree).1) hfile haction
  · intro h δ disk hlawful rounds d action haction
    obtain ⟨file, hfile, state, hmem⟩ := mem_forEach haction
    exact contains_restore hlawful (h file hfile) hmem

theorem mem_interruption {finshedFiles userFile : List Text} :
    (action ∈ (forEach (restore disk rounds site afterFirst)
        (finishedEntries finshedFiles userFile) d).2 →
      action ∈ (interruption disk rounds site finshedFiles (some userFile) d).2) ∧
    (action ∈ (interruption disk rounds site finshedFiles (some userFile) d).2 →
      action ∈ (forEach (restore disk rounds site afterFirst)
        (finishedEntries finshedFiles userFile) d).2 ∨ action = .wrote site.tempPath) := by
  unfold interruption
  dsimp only
  split
  · next hforEach =>
    rw [hforEach]
    exact ⟨id, .inl⟩
  · next hforEach =>
    rw [hforEach]
    refine ⟨mem_append_left _, fun h ↦ ?_⟩
    exact (mem_append.mp h).imp_right mem_singleton.mp

/-- What `setFile` and the handler of an interruption do stays in the home directory and the
received directory, on any file system, if and only if the entries that they move do not
lead out of these. -/
theorem staysInside_iff_confined (site : Site) (userFile : List Text) (finshedFiles : List Text)
    (recorded : Option (List Text)) :
    ((site.StaysInside fun disk rounds ↦ setFile disk rounds site userFile) ↔
      ∀ file ∈ userFile, site.Confined fileName file) ∧
    ((site.StaysInside fun disk rounds ↦ interruption disk rounds site finshedFiles recorded) ↔
      ∀ file ∈ finishedEntries finshedFiles (recorded.getD []),
        site.Confined afterFirst file) := by
  refine ⟨staysInside_forEach userFile, ?_⟩
  rw [← staysInside_forEach]
  cases recorded with
  | none =>
    refine iff_of_true ?_ ?_
    · exact fun _ _ _ _ _ _ haction ↦ absurd haction not_mem_nil
    · exact fun _ _ _ _ _ _ haction ↦ absurd haction not_mem_nil
  | some userFile =>
    constructor
    · intro h δ disk hlawful rounds d action haction
      exact h δ disk hlawful rounds d action (mem_interruption.1 haction)
    · intro h δ disk hlawful rounds d action haction
      rcases mem_interruption.2 haction with hmoved | hwrote
      · exact h δ disk hlawful rounds d action hmoved
      · rw [hwrote]
        exact site.tempPath_within

def sampleSite : Site where
  home := "/home/u".toList
  fileDir := "/home/u/Downloads/temp".toList
  tempPath := "/home/u/.cache/transfer-temp.json".toList
  home_absolute := rfl
  fileDir_ne_nil := by decide
  tempPath_within := by decide

/-- An entry that starts with two dots is moved out of the home directory by both handlers,
and one that ends with them moves what is not received. -/
theorem not_staysInside_dots :
    (∃ action ∈ (setFile (sampleSite.bareDisk fun _ ↦ false) 1 sampleSite
      ["../evil.txt".toList] ()).2, ¬ sampleSite.Contains action) ∧
    (∃ action ∈ (setFile (sampleSite.bareDisk fun _ ↦ false) 1 sampleSite
      ["docs/..".toList] ()).2, ¬ sampleSite.Contains action) ∧
    (∃ action ∈ (interruption (sampleSite.bareDisk fun _ ↦ false) 1 sampleSite
      ["/home/u/Downloads/temp/evil.txt".toList] (some ["../evil.txt".toList]) ()).2,
        ¬ sampleSite.Contains action) ∧
    (sampleSite.bareDisk fun _ ↦ false).Lawful sampleSite := by
  refine ⟨by decide, by decide, by decide, lawful_bareDisk _⟩

end DdeCooperation.DataTransfer
