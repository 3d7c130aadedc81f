import DdeCooperation.Coost.Path

/-!
# Where a receiving job writes

A remote that sends files names the directory below the storage directory where they
go, and for every block of data the file in it. `getSaveFullpath` turns the two into a
path, or into nothing. It refuses names that climb. Then it compares what `realpath`
makes of the path and of the storage directory, to stop links that lead out.

The comparison is one of texts, so that it lets a neighbour through whose name begins
like the storage directory. It is with the storage directory and not with the save
directory. Where `realpath` fails for the path and for its parent there is none. And the
save directory itself is only checked for a log message. `confined_iff_sheltered` says
what is left: a job is confined if and only if its save directory lies in the storage
directory and has no link below it that leads out. The check by `realpath` does not
spare any directory with such a link.
-/

namespace DdeCooperation.Daemon

open Foundations Web BaseKit List Coost LinkedFileSystem

/-- `isPathWithinDir`. -/
def isPathWithinDir (target baseDir : StdString) : Bool :=
  let targetStr := StdPath.lexicallyNormal target
  let resolvedBase := StdPath.lexicallyNormal baseDir
  let baseStr := resolvedBase.rdropWhile isSeparator
  targetStr = resolvedBase ||
    baseStr.length < targetStr.length && baseStr.isPrefixOf targetStr &&
      (targetStr.drop baseStr.length).head?.any isSeparator

/-- The part of a `TransferJob` that decides where it writes. `_file_name_maps` has the names
that entries were created under because their own were taken. -/
structure SavingJob where
  storageDir : StdString
  savedir : StdString
  acName : StdString → StdString := fun _ ↦ []

namespace SavingJob

/-- `_save_fulldir`. `initJob` checks that it is in the storage directory, logs a failure and
keeps it. -/
def saveFulldir (job : SavingJob) : StdString := join job.storageDir job.savedir

/-- The name with its first component as it was created. -/
def acfilename (job : SavingJob) (filename : StdString) : StdString :=
  if slash ∈ filename then
    let acFirst := job.acName (filename.takeWhile (· ≠ slash))
    if acFirst = [] then filename else acFirst ++ filename.dropWhile (· ≠ slash)
  else
    let reName := job.acName filename
    if reName = [] then filename else reName

section Realpath

variable (realpath : StdString → Option StdString)

/-- The comparison of the resolved paths, where there are two. -/
def leadsOut (job : SavingJob) (fullpath : StdString) : Bool :=
  match realpath job.storageDir, (realpath fullpath).or (realpath (split fullpath).1) with
  | some rootPath, some fullPath => !rootPath.isPrefixOf fullPath
  | some _, none | none, some _ | none, none => false

def getSaveFullpath (job : SavingJob) (rootdir filename : StdString) : StdString :=
  if filename = [] then []
  else if [dot, dot] <:+: filename ∨ filename.head? = some slash ∨
      filename.head? = some backslash then []
  else
    let fullpath := join rootdir (job.acfilename filename)
    if job.leadsOut realpath fullpath then []
    else if isPathWithinDir fullpath rootdir then fullpath
    else []

/-- The path of a block. `pushQueque` sets the root directory of every block to the save
directory. -/
def savePath (job : SavingJob) (filename : StdString) : StdString :=
  job.getSaveFullpath realpath job.saveFulldir filename

end Realpath

/-! ## Confinement -/

section System

variable (fs : LinkedFileSystem slash dot) (links : ℕ) (cwd : Location UInt8)

/-- The place a path denotes is in the directory that another one denotes. -/
def LiesWithin (outer path : StdString) : Prop :=
  ∀ dest, fs.Denotes cwd path dest → ∃ dir, fs.Denotes cwd outer dir ∧ dir <:+ dest

/-- Whatever name a block has, it is written in the save directory and in the storage
directory. The names that the job has recorded are paths below its save directory, which do
not climb. -/
def Confined (storageDir savedir : StdString) : Prop :=
  ∀ acName filename, (∀ name, Descending (acName name)) →
    savePath (fs.realpath links cwd) ⟨storageDir, savedir, acName⟩ filename ≠ [] →
      LiesWithin fs cwd (join storageDir savedir)
          (savePath (fs.realpath links cwd) ⟨storageDir, savedir, acName⟩ filename) ∧
        LiesWithin fs cwd storageDir
          (savePath (fs.realpath links cwd) ⟨storageDir, savedir, acName⟩ filename)

/-- The save directory is in the storage directory, and no link below it leads out of it. -/
structure Sheltered (storageDir savedir : StdString) : Prop where
  within : LiesWithin fs cwd storageDir (join storageDir savedir)
  shelters : ∀ dir, fs.Denotes cwd (join storageDir savedir) dir → fs.Shelters dir

end System

variable {fs : LinkedFileSystem slash dot} {links : ℕ} {cwd : Location UInt8}
  {realpath : StdString → Option StdString} {job : SavingJob}
  {filename storageDir savedir : StdString}

/-! ## What is accepted -/

theorem descending_of_dots (h : ¬ [dot, dot] <:+: filename) : Descending filename :=
  fun hmem ↦ h ((infix_iff_splitOn (by decide)).mpr ⟨_, hmem, infix_rfl⟩)

theorem descending_acfilename (hnames : ∀ name, Descending (job.acName name))
    (h : Descending filename) :
    Descending (job.acfilename filename) := by
  unfold acfilename
  split_ifs with hslash
  · dsimp only
    split_ifs
    · exact h
    · -- The name is cut at its first slash, where both parts are split.
      obtain ⟨rest, hrest⟩ : ∃ rest, filename.dropWhile (· ≠ slash) = slash :: rest := by
        have hne : filename.dropWhile (· ≠ slash) ≠ [] := by
          rw [Ne, dropWhile_eq_nil_iff]
          exact fun hall ↦ by simpa using hall slash hslash
        have hhead := head_dropWhile_not (fun c ↦ decide (c ≠ slash)) hne
        refine ⟨(filename.dropWhile (· ≠ slash)).tail, ?_⟩
        conv_lhs => rw [← cons_head_tail hne]
        rw [show (filename.dropWhile (· ≠ slash)).head hne = slash by simpa using hhead]
      have hsplit : filename.splitOn slash =
          (filename.takeWhile (· ≠ slash)).splitOn slash ++ rest.splitOn slash := by
        rw [← splitOn_append_cons_self, ← hrest, takeWhile_append_dropWhile]
      rw [Descending, hsplit, mem_append, not_or] at h
      rw [Descending, hrest, splitOn_append_cons_self, mem_append, not_or]
      exact ⟨hnames _, h.2⟩
  · dsimp only
    split_ifs
    · exact h
    · exact hnames _

/-- A path that is returned is the save directory with a name that does not climb. -/
theorem savePath_eq_join (hnames : ∀ name, Descending (job.acName name))
    (h : job.savePath realpath filename ≠ []) :
    job.savePath realpath filename = join job.saveFulldir (job.acfilename filename) ∧
      Descending (job.acfilename filename) := by
  revert h
  unfold savePath getSaveFullpath
  split_ifs with hempty hname
  · exact fun h ↦ absurd rfl h
  · exact fun h ↦ absurd rfl h
  · have hdescending := descending_of_dots (not_or.mp hname).1
    dsimp only
    split_ifs
    · exact fun h ↦ absurd rfl h
    · exact fun _ ↦ ⟨rfl, descending_acfilename hnames hdescending⟩
    · exact fun h ↦ absurd rfl h

/-- What follows a directory whose separators at the end were cut off. -/
theorem any_isSeparator_cut {base rest : StdString}
    (h : base.rtakeWhile isSeparator = [] → rest.head? = some slash) :
    (base.rtakeWhile isSeparator ++ rest).head?.any isSeparator = true := by
  cases hcut : base.rtakeWhile isSeparator with
  | nil =>
    rw [nil_append, h hcut]
    decide
  | cons c cut =>
    have hmem : c ∈ base.rtakeWhile isSeparator := by
      rw [hcut]
      exact mem_cons_self
    have hseparator : isSeparator c = true := mem_rtakeWhile_imp hmem
    simpa using hseparator

/-- A path below a directory is lexically in it. -/
theorem isPathWithinDir_pathTo {loc inner : Location UInt8}
    (h : Ordinaries slash dot (inner ++ loc)) :
    isPathWithinDir (pathTo slash (inner ++ loc)) (pathTo slash loc) = true := by
  unfold isPathWithinDir
  rw [StdPath.lexicallyNormal_pathTo h,
    StdPath.lexicallyNormal_pathTo fun component hmem ↦ h component (mem_append_right _ hmem)]
  by_cases hinner : inner = []
  · simp [hinner]
  · obtain ⟨rest, hrest, hhead⟩ : ∃ rest, pathTo slash (inner ++ loc) = pathTo slash loc ++ rest ∧
        (loc ≠ [] → rest.head? = some slash) := exists_pathTo_append hinner
    have hcut : (pathTo slash loc).rtakeWhile isSeparator = [] → rest.head? = some slash := by
      intro hcut
      apply hhead
      rintro rfl
      revert hcut
      decide
    obtain ⟨tail, htarget, hseparator⟩ : ∃ tail, pathTo slash (inner ++ loc) =
        (pathTo slash loc).rdropWhile isSeparator ++ tail ∧ tail.head?.any isSeparator = true := by
      refine ⟨(pathTo slash loc).rtakeWhile isSeparator ++ rest, ?_, any_isSeparator_cut hcut⟩
      rw [hrest, ← append_assoc, rdropWhile_append_rtakeWhile]
    have hlength : 0 < tail.length := by
      rw [length_pos_iff]
      rintro rfl
      cases hseparator
    dsimp only
    rw [htarget, drop_left, hseparator]
    simp [hlength]

/-! ## Sheltered directories confine -/

variable (hroot : storageDir.head? = some slash)

include hroot

theorem head?_saveFulldir (savedir : StdString) : (join storageDir savedir).head? = some slash :=
  head?_join hroot savedir

theorem denotes_join_saveFulldir {other : StdString}
    (hother : Descending other) {dest : Location UInt8} :
    fs.Denotes cwd (join (join storageDir savedir) other) dest ↔
      ∃ dir, fs.Denotes cwd (join storageDir savedir) dir ∧
        fs.Resolves dir (other.splitOn slash) dest :=
  denotes_join (head?_saveFulldir hroot savedir) (join_eq_pathTo hroot savedir) hother

theorem Sheltered.confined (h : Sheltered fs cwd storageDir savedir) :
    Confined fs links cwd storageDir savedir := by
  intro acName filename hnames hpath
  obtain ⟨hjoin, hdescending⟩ := savePath_eq_join hnames hpath
  have hsave : LiesWithin fs cwd (join storageDir savedir)
      (savePath (fs.realpath links cwd) ⟨storageDir, savedir, acName⟩ filename) := by
    intro dest hdest
    rw [hjoin] at hdest
    obtain ⟨dir, hdir, hresolves⟩ := (denotes_join_saveFulldir hroot hdescending).mp hdest
    refine ⟨dir, hdir, (h.shelters dir hdir).resolves ?_ suffix_rfl hresolves⟩
    rintro name hname rfl
    exact hdescending hname
  refine ⟨hsave, fun dest hdest ↦ ?_⟩
  obtain ⟨dir, hdir, hinside⟩ := hsave dest hdest
  obtain ⟨root, hdenotes, houter⟩ := h.within dir hdir
  exact ⟨root, hdenotes, houter.trans hinside⟩

omit hroot

/-! ## Confined directories are sheltered -/

/-- No name in the file system has two dots in a row. -/
def PlainNames (fs : LinkedFileSystem slash dot) : Prop :=
  ∀ loc ∈ fs.entries, ∀ name ∈ loc, ¬ [dot, dot] <:+: name

/-- A name for a block that goes through given entries into a directory that does not exist
yet. -/
def pathThrough (names : List StdString) (new : StdString) : StdString :=
  [dot] ++ spell slash (names ++ [new, new])

section Through

variable {names : List StdString} {new : StdString}

theorem splitOn_through (hnames : ∀ name ∈ names, slash ∉ name) (hnew : slash ∉ new) :
    (pathThrough names new).splitOn slash = [dot] :: (names ++ [new, new]) := by
  have hall : ∀ name ∈ names ++ [new, new], slash ∉ name := by
    simpa [or_imp, forall_and] using ⟨hnames, hnew⟩
  rw [pathThrough, splitOn_append_spell _ hall]
  rfl

theorem dots_through (hnames : ∀ name ∈ names, Ordinary slash dot name ∧ ¬ [dot, dot] <:+: name)
    (hnew : Ordinary slash dot new) (hdots : ¬ [dot, dot] <:+: new) :
    ¬ [dot, dot] <:+: pathThrough names new := by
  rw [infix_iff_splitOn (show slash ∉ [dot, dot] by decide),
    splitOn_through (fun name hmem ↦ (hnames name hmem).1.2.2.2) hnew.2.2.2]
  rintro ⟨component, hmem, hpart⟩
  rw [mem_cons, mem_append, mem_pair] at hmem
  rcases hmem with rfl | hmem | rfl | rfl
  · revert hpart
    decide
  · exact (hnames component hmem).2 hpart
  · exact hdots hpart
  · exact hdots hpart

theorem steps_through (hnames : Ordinaries slash dot names)
    (hnew : Ordinary slash dot new) : steps (pathThrough names new) = names ++ [new, new] := by
  have hslash : ∀ name ∈ names, slash ∉ name := fun name hmem ↦ (hnames name hmem).2.2.2
  rw [steps, splitOn_through hslash hnew.2.2.2, filter_cons_of_neg (by simp), filter_eq_self]
  intro name hmem
  have hordinary : Ordinary slash dot name := by
    rw [mem_append, mem_pair, or_self] at hmem
    rcases hmem with hmem | rfl
    · exact hnames name hmem
    · exact hnew
  simpa using ⟨hordinary.1, hordinary.2.1⟩

/-- Neither a path through a missing directory nor its parent can be compared. -/
theorem leadsOut_eq_false (hnew : fs.Unused new) {loc : Location UInt8}
    (hloc : ∀ component ∈ loc, slash ∉ component) :
    job.leadsOut (fs.realpath links cwd) (pathTo slash (new :: new :: loc)) = false := by
  have hslash := hnew.ordinary.2.2.2
  have hall : ∀ component ∈ new :: new :: loc, slash ∉ component := by
    simpa [hslash] using hloc
  have hfull : fs.realpath links cwd (pathTo slash (new :: new :: loc)) = none := by
    refine hnew.realpath_eq_none links cwd ?_
    rw [splitOn_pathTo hall, if_neg (cons_ne_nil _ _)]
    simp
  have hparent : fs.realpath links cwd (split (pathTo slash (new :: new :: loc))).1 = none := by
    refine hnew.realpath_eq_none links cwd ?_
    have hrest : ∀ component ∈ (new :: loc).reverse, slash ∉ component := by
      simpa [hslash, or_imp, forall_and] using hloc
    rw [split_pathTo hslash, splitOn_concat_slash, splitOn_spell hrest]
    simp
  rw [leadsOut, hfull, hparent]
  cases fs.realpath links cwd job.storageDir <;> rfl

/-- `realpath` fails for the path and for its parent, so that the path is accepted. -/
theorem savePath_through (hroot : storageDir.head? = some slash)
    (hnames : ∀ name ∈ names, Ordinary slash dot name ∧ ¬ [dot, dot] <:+: name)
    (hnew : fs.Unused new) (hdots : ¬ [dot, dot] <:+: new) :
    savePath (fs.realpath links cwd) { storageDir, savedir } (pathThrough names new) =
      join (join storageDir savedir) (pathThrough names new) := by
  have hpart := dots_through hnames hnew.ordinary hdots
  have hbase := head?_saveFulldir hroot savedir
  have hac : acfilename { storageDir, savedir } (pathThrough names new) =
      pathThrough names new := by
    simp [acfilename]
  have hordinary : Ordinaries slash dot (new :: new :: names.reverse ++
      location (join storageDir savedir)) := by
    intro component hmem
    simp only [cons_append, mem_cons, mem_append, mem_reverse] at hmem
    rcases hmem with rfl | rfl | hmem | hmem
    · exact hnew.ordinary
    · exact hnew.ordinary
    · exact (hnames component hmem).1
    · exact ordinary_location hbase hmem
  have hjoin : join (join storageDir savedir) (pathThrough names new) = pathTo slash
      (new :: new :: names.reverse ++ location (join storageDir savedir)) := by
    rw [join_descending hbase (descending_of_dots hpart),
      steps_through (fun name hmem ↦ (hnames name hmem).1) hnew.ordinary]
    simp
  have hout : leadsOut (fs.realpath links cwd) { storageDir, savedir }
      (join (join storageDir savedir) (pathThrough names new)) = false := by
    rw [hjoin]
    refine leadsOut_eq_false hnew fun component hmem ↦ (hordinary component ?_).2.2.2
    exact mem_cons_of_mem _ (mem_cons_of_mem _ hmem)
  have hwithin : isPathWithinDir (join (join storageDir savedir) (pathThrough names new))
      (join storageDir savedir) = true := by
    rw [hjoin]
    nth_rewrite 2 [join_eq_pathTo hroot]
    exact isPathWithinDir_pathTo hordinary
  have hguard : ¬ ([dot, dot] <:+: pathThrough names new ∨ (pathThrough names new).head? = some slash ∨
      (pathThrough names new).head? = some backslash) := by
    have hhead : (pathThrough names new).head? = some dot := rfl
    rw [hhead]
    exact not_or.mpr ⟨hpart, by decide⟩
  rw [savePath, getSaveFullpath, if_neg (by simp [pathThrough]), if_neg hguard]
  simp only [saveFulldir, hac, hout, hwithin, if_true]
  rfl

/-- A confined job also confines what goes through given entries into a new directory. -/
theorem Confined.through (hroot : storageDir.head? = some slash)
    (h : Confined fs links cwd storageDir savedir)
    (hnames : ∀ name ∈ names, Ordinary slash dot name ∧ ¬ [dot, dot] <:+: name)
    (hnew : fs.Unused new) (hdots : ¬ [dot, dot] <:+: new) {dir dest : Location UInt8}
    (hdir : fs.Denotes cwd (join storageDir savedir) dir)
    (hdest : fs.Resolves dir names dest) :
    (∃ dir', fs.Denotes cwd (join storageDir savedir) dir' ∧ dir' <:+ new :: new :: dest) ∧
      ∃ root, fs.Denotes cwd storageDir root ∧ root <:+ new :: new :: dest := by
  have hslash : ∀ name ∈ names, slash ∉ name := fun name hmem ↦ (hnames name hmem).1.2.2.2
  have hpart := dots_through hnames hnew.ordinary hdots
  have hpath : savePath (fs.realpath links cwd) { storageDir, savedir } (pathThrough names new) =
      join (join storageDir savedir) (pathThrough names new) :=
    savePath_through hroot hnames hnew hdots
  have hne : savePath (fs.realpath links cwd) { storageDir, savedir } (pathThrough names new) ≠ [] := by
    intro hnil
    have hhead := head?_join (head?_saveFulldir hroot savedir) (pathThrough names new)
    rw [← hpath, hnil] at hhead
    cases hhead
  have hdenotes : fs.Denotes cwd
      (savePath (fs.realpath links cwd) { storageDir, savedir } (pathThrough names new))
      (new :: new :: dest) := by
    rw [hpath, denotes_join_saveFulldir hroot (descending_of_dots hpart)]
    refine ⟨dir, hdir, ?_⟩
    rw [splitOn_through hslash hnew.ordinary.2.2.2, resolves_skip (.inr rfl)]
    exact hdest.append (hnew.resolves.append hnew.resolves)
  obtain ⟨hsave, hstorage⟩ := h (fun _ ↦ []) (pathThrough names new) (fun _ ↦ by decide) hne
  exact ⟨hsave _ hdenotes, hstorage _ hdenotes⟩

/-- There is a name that is neither in use nor part of a given location. -/
theorem exists_new (fs : LinkedFileSystem slash dot) (avoid : Location UInt8) :
    ∃ new, fs.Unused new ∧ ¬ [dot, dot] <:+: new ∧ new ∉ avoid := by
  obtain ⟨n, hunused, havoid⟩ :=
    fs.exists_unused (show (97 : UInt8) ≠ slash by decide) (by decide) avoid
  refine ⟨_, hunused, fun hpart ↦ ?_, havoid⟩
  have hdot : dot = 97 := eq_of_mem_replicate (hpart.subset mem_cons_self)
  revert hdot
  decide

theorem suffix_of_suffix_new {outer dest : Location UInt8} (hnew : new ∉ outer)
    (h : outer <:+ new :: new :: dest) : outer <:+ dest := by
  rcases suffix_cons_iff.mp h with rfl | h
  · exact absurd mem_cons_self hnew
  · rcases suffix_cons_iff.mp h with rfl | h
    · exact absurd mem_cons_self hnew
    · exact h

theorem Confined.sheltered (hroot : storageDir.head? = some slash) (hplain : PlainNames fs)
    (h : Confined fs links cwd storageDir savedir) : Sheltered fs cwd storageDir savedir := by
  constructor
  · intro dir hdir
    -- A storage directory denotes at most one place, whose names the new one must not have.
    obtain ⟨root, hunique⟩ : ∃ root, ∀ root', fs.Denotes cwd storageDir root' → root' = root := by
      by_cases hex : ∃ root, fs.Denotes cwd storageDir root
      · obtain ⟨root, hdenotes⟩ := hex
        exact ⟨root, fun root' hdenotes' ↦ hdenotes'.unique hdenotes⟩
      · exact ⟨[], fun root' hdenotes' ↦ absurd ⟨root', hdenotes'⟩ hex⟩
    obtain ⟨new, hnew, hdots, havoid⟩ := exists_new fs root
    have hnames : ∀ name ∈ ([] : List StdString),
        Ordinary slash dot name ∧ ¬ [dot, dot] <:+: name := by simp
    obtain ⟨-, root', hdenotes, hsuffix⟩ := h.through hroot hnames hnew hdots hdir (.done dir)
    refine ⟨root', hdenotes, suffix_of_suffix_new ?_ hsuffix⟩
    rwa [hunique root' hdenotes]
  · intro dir hdir loc name target hloc hlink dest hdest
    obtain ⟨inner, rfl⟩ := hloc
    obtain ⟨new, hnew, hdots, havoid⟩ := exists_new fs dir
    have hmem := mem_of_link hlink
    have hnames : ∀ other ∈ inner.reverse ++ [name],
        Ordinary slash dot other ∧ ¬ [dot, dot] <:+: other := by
      intro other hother
      have hother : other ∈ name :: (inner ++ dir) := by
        simp only [mem_append, mem_reverse, mem_singleton] at hother
        rcases hother with hinner | rfl
        · exact mem_cons_of_mem _ (mem_append_left _ hinner)
        · exact mem_cons_self
      exact ⟨ordinary_of_mem hmem hother, hplain _ hmem other hother⟩
    have hfollow : fs.Resolves (inner ++ dir) [name] dest := .follow hlink (by rwa [append_nil])
    have hresolves := (resolves_isDir (isDir_of_mem hmem)).append hfollow
    obtain ⟨⟨dir', hdir', hsuffix⟩, -⟩ := h.through hroot hnames hnew hdots hdir hresolves
    rw [hdir'.unique hdir] at hsuffix
    exact suffix_of_suffix_new havoid hsuffix

end Through

/-- A job is confined where its save directory is sheltered, and if names have no two dots in
a row, only there. -/
theorem confined_iff_sheltered (fs : LinkedFileSystem slash dot) (links : ℕ)
    (cwd : Location UInt8) (savedir : StdString) (hroot : storageDir.head? = some slash) :
    (Sheltered fs cwd storageDir savedir → Confined fs links cwd storageDir savedir) ∧
      (PlainNames fs → (Confined fs links cwd storageDir savedir ↔
        Sheltered fs cwd storageDir savedir)) :=
  ⟨fun h ↦ h.confined hroot, fun hplain ↦ ⟨fun h ↦ h.sheltered hroot hplain, fun h ↦ h.confined hroot⟩⟩

/-- A storage directory `/s` with the save directories `/s/j` and `/s/k`, and its neighbours `/s2`
and `/o`, to which two links in `/s/j` lead. -/
def neighbours : LinkedFileSystem slash dot where
  entries := ⟨[⟨[], .directory⟩,
    ⟨[ascii "s"], .directory⟩,
    ⟨[ascii "s2"], .directory⟩,
    ⟨[ascii "o"], .directory⟩,
    ⟨[ascii "j", ascii "s"], .directory⟩,
    ⟨[ascii "k", ascii "s"], .directory⟩,
    ⟨[ascii "a", ascii "j", ascii "s"], .link (ascii "/s2")⟩,
    ⟨[ascii "b", ascii "j", ascii "s"], .link (ascii "/o")⟩], by unfold List.NodupKeys; decide⟩
  root := by decide
  parents := by decide
  names := by decide

theorem denotes_storageDir : neighbours.Denotes [] (ascii "/s") [ascii "s"] := by
  have hwalk : neighbours.walk 40 [] ((ascii "/s").splitOn slash) = some [ascii "s"] := by
    decide +kernel
  exact resolves_of_walk hwalk

/-- What leads to a directory outside of `/s` and on from there is not in it. -/
theorem not_liesWithin {path : StdString} (first rest : List StdString) {dir dest : Location UInt8}
    (hroot : path.head? = some slash) (hpath : path.splitOn slash = first ++ rest)
    (hwalk : neighbours.walk 40 [] first = some dir) (hrest : neighbours.Resolves dir rest dest)
    (hout : ¬ [ascii "s"] <:+ dest) : ¬ LiesWithin neighbours [] (ascii "/s") path := by
  intro h
  have hdest : neighbours.Denotes [] path dest := by
    rw [LinkedFileSystem.Denotes, hpath, origin, if_pos hroot]
    exact (resolves_of_walk hwalk).append hrest
  obtain ⟨root, hdenotes, hinside⟩ := h dest hdest
  rw [hdenotes.unique denotes_storageDir] at hinside
  exact hout hinside

/-- The save directory `/s/k` is empty. -/
theorem sheltered_neighbours : Sheltered neighbours [] (ascii "/s") (ascii "k") := by
  have hpath : join (ascii "/s") (ascii "k") = ascii "/s/k" := by decide +kernel
  have hwalk : neighbours.walk 40 [] ((ascii "/s/k").splitOn slash) =
      some [ascii "k", ascii "s"] := by decide +kernel
  have hdir : neighbours.Denotes [] (ascii "/s/k") [ascii "k", ascii "s"] := resolves_of_walk hwalk
  rw [← hpath] at hdir
  constructor
  · intro dest hdest
    rw [hdest.unique hdir]
    exact ⟨_, denotes_storageDir, by decide⟩
  · intro dir hdenotes loc name target hloc hlink
    rw [hdenotes.unique hdir] at hloc
    have hkeys : ∀ key ∈ neighbours.entries.keys, ¬ [ascii "k", ascii "s"] <:+ key.tail := by
      decide +kernel
    exact absurd hloc (hkeys _ (AList.mem_keys.mp (mem_of_link hlink)))

theorem confined_iff_sheltered_empty : Confined neighbours 40 [] (ascii "/s") (ascii "k") :=
  (confined_iff_sheltered neighbours 40 [] (ascii "k") (by decide)).1 sheltered_neighbours

/-- A link to a neighbour whose name begins like the storage directory, a link to another
neighbour with a directory that does not exist yet, and a save directory that climbs. -/
theorem not_confined_neighbours :
    (savePath (neighbours.realpath 40 []) { storageDir := ascii "/s", savedir := ascii "j" } (ascii "a/x") = ascii "/s/j/a/x" ∧
      ¬ LiesWithin neighbours [] (ascii "/s") (ascii "/s/j/a/x")) ∧
    (savePath (neighbours.realpath 40 []) { storageDir := ascii "/s", savedir := ascii "j" } (ascii "b/n/x") =
        ascii "/s/j/b/n/x" ∧
      ¬ LiesWithin neighbours [] (ascii "/s") (ascii "/s/j/b/n/x")) ∧
    (savePath (neighbours.realpath 40 []) { storageDir := ascii "/s", savedir := ascii "../o" } (ascii "n/x") = ascii "/o/n/x" ∧
      ¬ LiesWithin neighbours [] (ascii "/s") (ascii "/o/n/x")) ∧
    ¬ Confined neighbours 40 [] (ascii "/s") (ascii "j") := by
  have hstart : savePath (neighbours.realpath 40 []) { storageDir := ascii "/s", savedir := ascii "j" } (ascii "a/x") =
      ascii "/s/j/a/x" := by decide +kernel
  have hstartOut : ¬ LiesWithin neighbours [] (ascii "/s") (ascii "/s/j/a/x") := by
    have hwalk : neighbours.walk 40 [] [[], ascii "s", ascii "j", ascii "a"] =
        some [ascii "s2"] := by decide +kernel
    exact not_liesWithin [[], ascii "s", ascii "j", ascii "a"] [ascii "x"] (by decide) (by decide)
      hwalk (.enter (by decide) (.done _)) (by decide)
  have hmissing : savePath (neighbours.realpath 40 []) { storageDir := ascii "/s", savedir := ascii "j" } (ascii "b/n/x") =
      ascii "/s/j/b/n/x" := by decide +kernel
  have hmissingOut : ¬ LiesWithin neighbours [] (ascii "/s") (ascii "/s/j/b/n/x") := by
    have hwalk : neighbours.walk 40 [] [[], ascii "s", ascii "j", ascii "b"] =
        some [ascii "o"] := by decide +kernel
    exact not_liesWithin [[], ascii "s", ascii "j", ascii "b"] [ascii "n", ascii "x"] (by decide)
      (by decide) hwalk (.enter (by decide) (.enter (by decide) (.done _))) (by decide)
  have hclimbing : savePath (neighbours.realpath 40 []) { storageDir := ascii "/s", savedir := ascii "../o" } (ascii "n/x") =
      ascii "/o/n/x" := by decide +kernel
  have hclimbingOut : ¬ LiesWithin neighbours [] (ascii "/s") (ascii "/o/n/x") := by
    have hwalk : neighbours.walk 40 [] [[], ascii "o"] = some [ascii "o"] := by decide +kernel
    exact not_liesWithin [[], ascii "o"] [ascii "n", ascii "x"] (by decide) (by decide) hwalk
      (.enter (by decide) (.enter (by decide) (.done _))) (by decide)
  refine ⟨⟨hstart, hstartOut⟩, ⟨hmissing, hmissingOut⟩, ⟨hclimbing, hclimbingOut⟩, fun h ↦ ?_⟩
  have hwithin := (h (fun _ ↦ []) (ascii "a/x") (fun _ ↦ by decide) (by rw [hstart]; decide)).2
  rw [hstart] at hwithin
  exact hstartOut hwithin

end SavingJob

end DdeCooperation.Daemon
