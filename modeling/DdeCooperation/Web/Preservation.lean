import DdeCooperation.Web.Fetching
import DdeCooperation.Web.Upright

/-!
# What receiving leaves alone

A file that has something in it is never written to, cut off or removed, and no directory is
removed, if all names are upright: whatever a download opens or removes has been created or
found empty just before. For other names this does not hold. A path that is too long for the
system is tried again with a shorter name, and if its parent ends in `..` behind a directory
that is missing, the shorter path leads to a file that was there before.
-/

namespace DdeCooperation.Web

namespace FileClient

open Foundations BaseKit List Option Path FileSystem Directory Process

section Creating

variable {process : Process UInt8} {isfile : Bool} {path : StdString} {fs fs' : FileSystem UInt8}

/-! ## One path -/

theorem extends_create (h : Directory.create process path fs = .ok fs') : fs.Extends fs' := by
  unfold create at h
  split at h
  · cases h
  · cases h
    exact .refl _
  · split at h
    · next hmkdir =>
      cases h
      unfold mkdir at hmkdir
      split at hmkdir
      · cases hmkdir
      · obtain ⟨loc, -, hmake⟩ := bind_eq_some_iff.mp hmkdir
        exact extends_makeDirectory hmake
    · cases h

theorem extends_createTree (process : Process UInt8) (path : StdString) (fs : FileSystem UInt8) :
    fs.Extends (Directory.createTree process path fs).1 := by
  unfold createTree
  generalize path.length = levels
  induction levels generalizing path fs with
  | zero =>
    exact createTreeWith_induction (.refl _) (fun _ ↦ .refl _) fun h hc ↦ h.trans (extends_create hc)
  | succ levels ih =>
    exact createTreeWith_induction (.refl _) (fun _ ↦ ih _ fs) fun h hc ↦ h.trans (extends_create hc)

/-- Where an empty file is created, and what else is as it was. -/
theorem writeEmpty_cases (h : File.writeEmpty process path fs = .ok fs') :
    ∃ loc, process.find slash dot (cStr path) fs = some loc ∧
      process.find slash dot (cStr path) fs' = some loc ∧ ¬ fs.IsDir loc ∧
      fs'.nodes.lookup loc = some (.file 0) ∧
      ∀ other, other ≠ loc → fs'.nodes.lookup other = fs.nodes.lookup other := by
  unfold File.writeEmpty at h
  split at h
  · next hcreat =>
    cases h
    unfold creat at hcreat
    split at hcreat
    · cases hcreat
    · obtain ⟨loc, hfind, hmake⟩ := bind_eq_some_iff.mp hcreat
      have hfile := not_isDir_of_makeFile hmake
      have hother : ∀ other, other ≠ loc → fs'.nodes.lookup other = fs.nodes.lookup other := by
        intro other hne
        rw [lookup_makeFile hmake, if_neg hne]
      refine ⟨loc, hfind, ?_, hfile, ?_, hother⟩
      · refine find_of_dirs (fun other hdir ↦ ?_) hfind
        have hne : other ≠ loc := by
          rintro rfl
          exact hfile hdir
        rw [FileSystem.IsDir, hother other hne]
        exact hdir
      · rw [lookup_makeFile hmake, if_pos rfl]
  · cases h

/-- Creating an empty file where no file is found does not touch an old one. -/
theorem extends_writeEmpty {before : FileSystem UInt8} (hextends : before.Extends fs)
    (hway : [dot, dot] ∉ (path.splitOn slash).dropLast)
    (hnone : Path.type process path before = .ok none)
    (h : File.writeEmpty process path fs = .ok fs') : before.Extends fs' := by
  have hcut : [dot, dot] ∉ ((cStr path).splitOn slash).dropLast :=
    fun hmem ↦ hway (mem_dropLast_of_cut (List.takeWhile_prefix _) hmem)
  obtain ⟨loc, hfind, -, hfile, -, hother⟩ := writeEmpty_cases h
  have hnew : loc ∉ before.nodes := by
    intro hmem
    have hold : ¬ before.IsDir loc := fun hdir ↦ hfile (hextends.isDir hdir)
    have hfound := find_of_extends hextends hcut hfind hmem hold
    obtain ⟨size, hsize⟩ := file_of_mem hmem hold
    unfold type stat at hnone
    split at hnone
    · cases hnone
    · rw [status, hfound, bind_some, hsize] at hnone
      cases hnone
  intro other node hnode
  have hne : other ≠ loc := by
    rintro rfl
    exact hnew (mem_of_lookup hnode)
  rw [hother other hne]
  exact hextends other node hnode

/-- The path leads to a file that is empty, or to a directory. -/
def Vacant (process : Process UInt8) (path : StdString) (fs : FileSystem UInt8) : Prop :=
  ∃ loc, process.find slash dot (cStr path) fs = some loc ∧
    (fs.nodes.lookup loc = some (.file 0) ∨ fs.IsDir loc)

/-- What an attempt leaves alone, and what it gives back for a file. -/
structure Spares (process : Process UInt8) (isfile : Bool) (fs : FileSystem UInt8)
    (result : Attempt) : Prop where
  old : fs.Extends result.1
  vacant : ∀ path, result.2 = .ok (true, path) → isfile = true → Vacant process path result.1

theorem spares_tryCreate (hway : [dot, dot] ∉ (path.splitOn slash).dropLast) :
    fs.Extends (tryCreate process isfile path fs).1 ∧
      ((tryCreate process isfile path fs).2 = .ok true → isfile = true →
        Vacant process path (tryCreate process isfile path fs).1) := by
  have htree := extends_createTree process (parent path) fs
  unfold tryCreate
  split
  · exact ⟨.refl _, fun h ↦ by cases h⟩
  · exact ⟨.refl _, fun h ↦ by cases h⟩
  · next hnone =>
    split
    · next hfailed =>
      rw [hfailed] at htree
      exact ⟨htree, fun h ↦ by cases h⟩
    · next hdone =>
      rw [hdone] at htree
      split
      · exact ⟨htree, fun h ↦ by cases h⟩
      · next hmade =>
        cases isfile with
        | true =>
          obtain ⟨loc, -, hfind, -, hempty, -⟩ := writeEmpty_cases hmade
          exact ⟨extends_writeEmpty htree hway hnone hmade, fun _ _ ↦ ⟨loc, hfind, .inl hempty⟩⟩
        | false => exact ⟨htree.trans (extends_create hmade), fun _ h ↦ by cases h⟩

theorem exists_find_of_type {node : Node} (h : Path.type process path fs = .ok (some node)) :
    ∃ loc, process.find slash dot (cStr path) fs = some loc ∧ fs.nodes.lookup loc = some node := by
  unfold type stat at h
  split at h
  · cases h
  · exact bind_eq_some_iff.mp (Except.ok.inj h)

theorem vacant_of_isUsable (h : isUsable process true path fs = .ok true) :
    Vacant process path fs := by
  unfold isUsable at h
  split at h
  · cases h
  · cases h
  · next htype =>
    obtain ⟨loc, hfind, hnode⟩ := exists_find_of_type htype
    exact ⟨loc, hfind, .inr hnode⟩
  · next size htype =>
    obtain ⟨loc, hfind, hnode⟩ := exists_find_of_type htype
    have hsize : size = 0 := of_decide_eq_true (Except.ok.inj h)
    rw [hsize] at hnode
    exact ⟨loc, hfind, .inl hnode⟩

theorem spares_createNotExistPathWith {again : StdString → FileSystem UInt8 → Attempt}
    (hway : [dot, dot] ∉ (path.splitOn slash).dropLast)
    (hagain : nameMax ≤ (Path.filename path).length → ∀ fs : FileSystem UInt8,
      Spares process isfile fs (again (shortPath path) fs)) :
    Spares process isfile fs (createNotExistPathWith process isfile again path fs) := by
  obtain ⟨hextends, hvacant⟩ := spares_tryCreate hway
  unfold createNotExistPathWith
  split
  · next htry =>
    rw [htry] at hextends hvacant
    refine ⟨hextends, fun new hnew hfile ↦ ?_⟩
    cases hnew
    exact hvacant rfl hfile
  · next later htry =>
    rw [htry] at hextends
    refine ⟨hextends, fun new hnew hfile ↦ ?_⟩
    cases husable : isUsable process isfile path later with
    | error e =>
      rw [husable] at hnew
      cases hnew
    | ok usable =>
      rw [husable] at hnew
      cases hnew
      rw [hfile] at husable
      exact vacant_of_isUsable husable
  · next later e htry =>
    rw [htry] at hextends
    split_ifs with hlong
    · have hshort := hagain hlong later
      exact ⟨hextends.trans hshort.old, hshort.vacant⟩
    · exact ⟨hextends, fun new hnew ↦ by cases hnew⟩

variable {filename : StdString}

theorem shortName_noBreak (h : ∀ b ∈ filename, isBreak b = false) :
    ∀ b ∈ shortName filename, isBreak b = false := by
  intro b hmem
  rcases mem_shortName hmem with hold | rfl
  · exact h b hold
  · decide

theorem numbered_noBreak (h : ∀ b ∈ filename, isBreak b = false) (i : ℕ) :
    ∀ b ∈ numbered filename i, isBreak b = false := by
  intro b hmem
  rcases mem_numbered hmem with hold | hnew
  · exact h b hold
  · exact (tag_clean hnew).1

theorem spares_createNotExistPath (h : Tame path) :
    Spares process isfile fs (createNotExistPath process isfile path fs) := by
  refine spares_createNotExistPathWith h.way fun hlong fs ↦ ?_
  have hshort : Tame (shortPath path) :=
    h.parent.tame_append (shortName_noBreak (filename_noBreak path))
  refine spares_createNotExistPathWith hshort.way fun hlonger ↦ ?_
  rw [filename_shortPath hlong, length_shortName hlong] at hlonger
  exact absurd hlonger (by decide)

end Creating

/-! ## The search for a path -/

section Searching

variable {process : Process UInt8} {isfile : Bool} {home : Option StdString}
  {parent filename savedir name path : StdString} {rounds i : ℕ} {fs : FileSystem UInt8}

/-- What a search leaves alone, and what it gives back for a file. -/
structure Yields (process : Process UInt8) (isfile : Bool) (fs : FileSystem UInt8)
    (result : FileSystem UInt8 × Outcome) : Prop where
  old : fs.Extends result.1
  vacant : ∀ path, result.2 = .returned path → path ≠ [] → isfile = true →
    Vacant process path result.1

theorem Yields.after {before : FileSystem UInt8} {result : FileSystem UInt8 × Outcome}
    (h : Yields process isfile fs result) (hold : before.Extends fs) :
    Yields process isfile before result :=
  ⟨hold.trans h.old, h.vacant⟩

/-- An attempt, and a search that goes on after it. -/
theorem Spares.yields {attempt : Attempt}
    {next : FileSystem UInt8 → StdString → FileSystem UInt8 × Outcome}
    (hnext : ∀ fs path, Yields process isfile fs (next fs path)) :
    Spares process isfile fs attempt → Yields process isfile fs (match attempt with
      | (fs, .error _) => (fs, .thrown)
      | (fs, .ok (true, path)) => (fs, .returned path)
      | (fs, .ok (false, path)) => next fs path) := by
  rintro ⟨hold, hvacant⟩
  split
  · exact ⟨hold, fun path h ↦ by cases h⟩
  · refine ⟨hold, fun path h _ hfile ↦ ?_⟩
    cases h
    exact hvacant _ rfl hfile
  · exact (hnext _ _).after hold

theorem yields_search (hparent : Firm parent) (hname : ∀ b ∈ filename, isBreak b = false) :
    Yields process isfile fs (search process isfile parent filename rounds i fs) := by
  induction rounds generalizing i fs with
  | zero => exact ⟨.refl _, fun path h ↦ by cases h⟩
  | succ rounds ih =>
    have htame := hparent.tame_append (numbered_noBreak hname i)
    refine (spares_createNotExistPath htame).yields fun fs path ↦ ?_
    split_ifs
    · exact ⟨.refl _, fun path h hne ↦ absurd (Outcome.returned.inj h).symm hne⟩
    · exact ih

theorem tame_redirect (h : Tame path) : Tame (redirect process isfile home path fs) := by
  unfold redirect
  split
  · split
    · exact h
    · split
      · exact (firm_download h.parent.1).tame_append (filename_noBreak path)
      · exact h
  · exact h

theorem yields_createNextAvailableName (habsolute : savedir.head? = some slash)
    (hsavedir : Upright savedir) (hname : Upright name) :
    Yields process isfile fs
      (createNextAvailableName process isfile home savedir rounds name fs) := by
  unfold createNextAvailableName
  split_ifs
  · have htame : Tame (redirect process isfile home (target savedir name) fs) :=
      tame_redirect (tame_target habsolute hsavedir hname)
    revert htame
    generalize redirect process isfile home (target savedir name) fs = path
    intro htame
    exact (spares_createNotExistPath htame).yields fun _ _ ↦
      yields_search htame.parent (filename_noBreak path)
  · exact ⟨.refl _, fun path h hne ↦ absurd (Outcome.returned.inj h).symm hne⟩

end Searching

/-! ## A download -/

section Receiving

variable {receiver : Receiver} {path : StdString} {delivery : Delivery} {served : Served}
  {fs fs' : FileSystem UInt8} {loc : Location UInt8} {node : Node} {size : ℕ}

theorem lookup_removeEmpty (process : Process UInt8)
    (hnode : fs.nodes.lookup loc = some node) (hsome : node ≠ .file 0) :
    (process.removeEmpty slash dot path fs).nodes.lookup loc = some node := by
  unfold removeEmpty
  split_ifs
  · exact hnode
  · split
    · exact hnode
    · next other _ =>
      split_ifs with hempty
      · have hne : loc ≠ other := by
          rintro rfl
          rw [hnode] at hempty
          exact hsome (some.inj hempty)
        unfold unlink
        split_ifs
        · exact hnode
        · rw [AList.lookup_erase_ne hne]
          exact hnode
      · exact hnode

/-- Writing where nothing is. -/
theorem Vacant.ne_of_write {process : Process UInt8} (h : Vacant process path fs)
    (hwrite : process.write slash dot (cStr path) size fs = some fs')
    (hnode : fs.nodes.lookup loc = some node) (hsome : node ≠ .file 0) :
    loc ≠ process.locate slash dot (cStr path) ∧ fs'.nodes.lookup loc = some node := by
  obtain ⟨written, hfind, hwritten⟩ := h
  unfold write at hwrite
  split_ifs at hwrite
  rw [hfind, bind_some] at hwrite
  have hempty := hwritten.resolve_right (not_isDir_of_makeFile hwrite)
  have hne : loc ≠ written := by
    rintro rfl
    rw [hnode] at hempty
    exact hsome (some.inj hempty)
  rw [← locate_of_find hfind, lookup_makeFile hwrite, if_neg hne]
  exact ⟨hne, hnode⟩

theorem Vacant.lookup_received (h : Vacant receiver.process path fs)
    (hnode : fs.nodes.lookup loc = some node) (hsome : node ≠ .file 0) :
    (received receiver path served fs).nodes.lookup loc = some node := by
  unfold received
  split
  · next hwrite =>
    split_ifs at hwrite
    have hwritten := (h.ne_of_write hwrite hnode hsome).2
    split_ifs
    · exact hwritten
    · exact lookup_removeEmpty _ hwritten hsome
  · exact lookup_removeEmpty _ hnode hsome

end Receiving

end FileClient

namespace Fetch

open Foundations BaseKit FileClient

variable {receiver : Receiver} {volume : Volume UInt8 UInt8} {s s' : Fetch} {event : Event}
  {name saveName path rename : StdString} {isfile : Bool} {next : Control} {folder : Folder}
  {entry : Entry} {answer : Option InfoEntry}

variable {delivery : Delivery}

theorem keeps_deliver (h : Vacant receiver.process path volume.fs) :
    volume.Keeps (deliver receiver path delivery volume) := by
  apply Volume.keeps_ofContent
  · intro loc size hsize
    have hsome : Node.file (size + 1) ≠ .file 0 := by simp
    refine ⟨h.lookup_received hsize hsome, ?_⟩
    split_ifs with hstores
    · obtain ⟨fs', hwrite⟩ := Option.isSome_iff_exists.mp (Bool.and_eq_true_iff.mp hstores).2
      exact Function.update_of_ne (h.ne_of_write hwrite hsize hsome).1 _ _
    · rfl
  · intro loc hdir
    exact h.lookup_received hdir (by simp)

/-! ## The names that the thread works with -/

/-- A name that is in a folder. -/
def Inside (folder : Folder) (name : StdString) : Prop :=
  ∃ inner, Upright inner ∧ name = folder.name ++ slash :: inner

structure Folder.Sound (folder : Folder) : Prop where
  name : Upright folder.name
  rename : ∀ b ∈ folder.rename, isBreak b = false

theorem Inside.upright (h : Inside folder name) (hfolder : folder.Sound) : Upright name := by
  obtain ⟨inner, hinner, rfl⟩ := h
  exact hfolder.name.append_slash hinner

theorem Inside.renamed (h : Inside folder name) (hfolder : folder.Sound) :
    Upright (renamed folder.name folder.rename name) := by
  obtain ⟨inner, hinner, rfl⟩ := h
  unfold FileClient.renamed
  split_ifs
  · decide
  · rw [List.drop_left]
    exact (upright_of_noBreak hfolder.rename).append_slash hinner

/-- All names that the thread has still to work with are upright. -/
def Control.Sound : Control → Prop
  | .info name => Upright name
  | .file name => Upright name
  | .folder name => Upright name
  | .listing folder => folder.Sound
  | .entries folder pending files =>
    folder.Sound ∧ (∀ entry ∈ pending, Inside folder entry.name) ∧ ∀ name ∈ files, Inside folder name
  | .nested folder name pending files =>
    folder.Sound ∧ Inside folder name ∧ (∀ entry ∈ pending, Inside folder entry.name) ∧
      ∀ name ∈ files, Inside folder name
  | .queue folder files => folder.Sound ∧ ∀ name ∈ files, Inside folder name
  | .download _ _ next => next.Sound ∧ ∀ name path after, next ≠ .download name path after
  | _ => True

/-- The names in an answer are upright. -/
def Tidy : Event → Prop
  | .info (some answer) => ∀ item ∈ answer.datas, Upright item.name
  | _ => True

structure Standing (receiver : Receiver) (s : Fetch) : Prop where
  names : ∀ name ∈ s.names, Upright name
  control : s.control.Sound
  vacant : ∀ name path next, s.control = .download name path next →
    Vacant receiver.process path s.volume.fs

/-- The receiver's directory has an absolute and upright name. -/
structure Fit (receiver : Receiver) : Prop where
  absolute : receiver.savedir.head? = some slash
  upright : Upright receiver.savedir

/-! ## One step -/

/-- A step that changes no file and goes on with upright names. -/
structure Advances (receiver : Receiver) (s s' : Fetch) : Prop where
  keeps : s.volume.Keeps s'.volume
  standing : Standing receiver s'

theorem standing_of_control (hnames : ∀ name ∈ s.names, Upright name) (hsound : s.control.Sound)
    (hcontrol : ∀ name path next, s.control ≠ .download name path next) : Standing receiver s :=
  ⟨hnames, hsound, fun name path next h ↦ absurd h (hcontrol name path next)⟩

variable (hfit : Fit receiver)

include hfit

theorem place_spares (hname : Upright saveName) :
    s.volume.Keeps (s.place receiver name saveName isfile).1.volume ∧
      (s.place receiver name saveName isfile).1.names = s.names ∧
      ((s.place receiver name saveName isfile).2 = none →
        (s.place receiver name saveName isfile).1.control = .ended) ∧
      ∀ path, (s.place receiver name saveName isfile).2 = some path → path ≠ [] → isfile = true →
        Vacant receiver.process path (s.place receiver name saveName isfile).1.volume.fs := by
  have hyields : Yields receiver.process isfile s.volume.fs
      (createNextAvailableName receiver.process isfile receiver.home receiver.savedir
        receiver.rounds saveName s.volume.fs) :=
    yields_createNextAvailableName hfit.absolute hfit.upright hname
  unfold place
  revert hyields
  generalize createNextAvailableName receiver.process isfile receiver.home receiver.savedir
    receiver.rounds saveName s.volume.fs = result
  intro hyields
  obtain ⟨fs, outcome⟩ := result
  have hkeeps : s.volume.Keeps (.ofContent 0 fs s.volume.content) :=
    Volume.keeps_of_extends hyields.old
  cases outcome with
  | returned path =>
    refine ⟨hkeeps, rfl, nofun, fun path h ↦ ?_⟩
    cases h
    exact hyields.vacant _ rfl
  | thrown | searching => exact ⟨hkeeps, rfl, fun _ ↦ rfl, fun path h ↦ by cases h⟩

/-- After a place was asked for the thread has ended, or goes on as it should. -/
theorem advances_of_place (hnames : ∀ name ∈ s.names, Upright name)
    (hname : Upright saveName) {next : Fetch → StdString → Fetch}
    (hnext : ∀ placed path, placed.names = s.names →
    (path ≠ [] → isfile = true → Vacant receiver.process path placed.volume.fs) →
    Advances receiver placed (next placed path)) :
    Advances receiver s (match s.place receiver name saveName isfile with
        | (placed, none) => placed
        | (placed, some path) => next placed path) := by
  obtain ⟨hkeeps, hsame, hended, hvacant⟩ := place_spares hfit hname
  revert hkeeps hsame hended hvacant
  generalize s.place receiver name saveName isfile = result
  obtain ⟨placed, path⟩ := result
  intro hkeeps hsame hended hvacant
  cases path with
  | none =>
    have hcontrol : placed.control = .ended := hended rfl
    refine ⟨hkeeps, standing_of_control ?_ ?_ ?_⟩
    · rw [hsame]
      exact hnames
    · rw [hcontrol]
      trivial
    · rw [hcontrol]
      simp
  | some path =>
    obtain ⟨hlater, hstanding⟩ := hnext placed path hsame (hvacant path rfl)
    exact ⟨hkeeps.trans hlater, hstanding⟩

theorem advances_create (hnames : ∀ name ∈ s.names, Upright name)
    (hname : Upright saveName) (hsound : next.Sound)
    (hnext : ∀ name path after, next ≠ .download name path after) :
    Advances receiver s (s.create receiver name saveName next) := by
  refine advances_of_place hfit hnames hname fun placed _ hsame _ ↦ ⟨.refl _, ?_⟩
  refine standing_of_control ?_ hsound hnext
  rw [goto, hsame]
  exact hnames

theorem advances_startDownload (hnames : ∀ name ∈ s.names, Upright name)
    (hname : Upright name) (hrename : Upright rename) (hsound : next.Sound)
    (hnext : ∀ name path after, next ≠ .download name path after) :
    Advances receiver s (s.startDownload receiver name rename next) := by
  have hsave : Upright (if rename = [] then name else rename) := by
    split_ifs
    · exact hname
    · exact hrename
  refine advances_of_place hfit hnames hsave fun placed path hsame hvacant ↦ ?_
  rw [← hsame] at hnames
  split_ifs with hpath
  · exact ⟨.refl _, standing_of_control hnames hsound hnext⟩
  · refine ⟨.refl _, hnames, ⟨hsound, hnext⟩, ?_⟩
    rintro _ _ _ ⟨⟩
    exact hvacant hpath rfl

theorem advances_startFolder (hnames : ∀ name ∈ s.names, Upright name) (hname : Upright name) :
    Advances receiver s (s.startFolder receiver name) := by
  refine advances_of_place hfit hnames hname fun placed path hsame _ ↦ ?_
  rw [← hsame] at hnames
  split_ifs
  · exact ⟨.refl _, standing_of_control hnames trivial (by simp [goto])⟩
  · refine ⟨.refl _, standing_of_control hnames ⟨hname, ?_⟩ (by simp [goto])⟩
    split_ifs
    · exact fun b hb ↦ by cases hb
    · exact Path.filename_noBreak path

theorem advances_lookAt {queue : List StdString} {pending : List Entry}
    (hnames : ∀ name ∈ s.names, Upright name) (hfolder : folder.Sound)
    (hentry : Inside folder entry.name) (hpending : ∀ entry ∈ pending, Inside folder entry.name)
    (hqueue : ∀ name ∈ queue, Inside folder name) :
    Advances receiver s (s.lookAt receiver folder queue entry pending) := by
  unfold lookAt
  split_ifs
  · exact ⟨.refl _, standing_of_control hnames ⟨hfolder, hentry, hpending, hqueue⟩ (by simp [goto])⟩
  · refine ⟨.refl _, standing_of_control hnames ⟨hfolder, hpending, ?_⟩ (by simp [goto])⟩
    rw [List.forall_mem_append]
    exact ⟨hqueue, List.forall_mem_singleton.mpr hentry⟩
  · exact advances_create hfit hnames (hentry.upright hfolder) ⟨hfolder, hpending, hqueue⟩ (by simp)
  · exact advances_create hfit hnames (hentry.renamed hfolder) ⟨hfolder, hpending, hqueue⟩ (by simp)
  · exact ⟨.refl _, standing_of_control hnames ⟨hfolder, hpending, hqueue⟩ (by simp [goto])⟩

theorem advances_go (h : Standing receiver s) : Advances receiver s (s.go receiver) := by
  have hsound := h.control
  unfold go
  split
  · split
    · exact ⟨.refl _, standing_of_control h.names trivial (by simp [goto])⟩
    · next name names hsplit =>
      have hnames := h.names
      rw [hsplit] at hnames
      obtain ⟨hname, hnames⟩ := List.forall_mem_cons.mp hnames
      exact ⟨.refl _, standing_of_control hnames hname (by simp [goto])⟩
  · next hcontrol =>
    rw [hcontrol] at hsound
    exact advances_startDownload hfit h.names hsound (by decide) trivial (by simp)
  · next hcontrol =>
    rw [hcontrol] at hsound
    exact advances_startFolder hfit h.names hsound
  · next hcontrol =>
    rw [hcontrol] at hsound
    exact ⟨.refl _, standing_of_control h.names ⟨hsound.1, hsound.2.2⟩ (by simp [goto])⟩
  · next hcontrol =>
    rw [hcontrol] at hsound
    obtain ⟨hfolder, hpending, hqueue⟩ := hsound
    obtain ⟨hentry, hpending⟩ := List.forall_mem_cons.mp hpending
    split_ifs
    · exact ⟨.refl _, standing_of_control h.names ⟨hfolder, hqueue⟩ (by simp [goto])⟩
    · exact advances_lookAt hfit h.names hfolder hentry hpending hqueue
  · exact ⟨.refl _, standing_of_control h.names trivial (by simp [goto])⟩
  · next hcontrol =>
    rw [hcontrol] at hsound
    obtain ⟨hfolder, hqueue⟩ := hsound
    obtain ⟨hname, hqueue⟩ := List.forall_mem_cons.mp hqueue
    split_ifs
    · exact ⟨.refl _, standing_of_control h.names trivial (by simp [goto])⟩
    · exact advances_startDownload hfit h.names (hname.upright hfolder) (hname.renamed hfolder)
        ⟨hfolder, hqueue⟩ (by simp)
  · refine ⟨.refl _, standing_of_control h.names ?_ ?_⟩
    · dsimp only [goto]
      split_ifs <;> trivial
    · dsimp only [goto]
      split_ifs <;> simp
  · exact ⟨.refl _, h⟩

omit hfit

theorem names_hear : (s.hear name answer).names = s.names := by
  unfold hear
  split_ifs <;> rfl

theorem volume_hear : (s.hear name answer).volume = s.volume := by
  unfold hear
  split_ifs <;> rfl

/-- The entries of a tidy answer about a folder, or about a folder in it. -/
theorem inside_entriesOf {first : Bool} {root : Folder}
    (h : name = root.name ∨ Inside root name) (hanswer : Tidy (.info answer)) :
    ∀ entry ∈ entriesOf first name (answer.getD {}), Inside root entry.name := by
  intro entry hentry
  obtain ⟨item, hitem, rfl⟩ := List.mem_map.mp hentry
  cases answer with
  | none => cases hitem
  | some info =>
    have hupright : Upright item.name := hanswer item hitem
    rcases h with rfl | ⟨inner, hinner, rfl⟩
    · exact ⟨item.name, hupright, rfl⟩
    · exact ⟨inner ++ slash :: item.name, hinner.append_slash hupright, by simp⟩

theorem advances_onInfo (hfit : Fit receiver) (h : Standing receiver s)
    (hanswer : Tidy (.info answer)) : Advances receiver s (s.onInfo receiver answer) := by
  have hsound := h.control
  have hnames (name : StdString) : ∀ other ∈ (s.hear name answer).names, Upright other := by
    rw [names_hear]
    exact h.names
  have hkeeps (name : StdString) : s.volume.Keeps (s.hear name answer).volume := by
    rw [volume_hear]
    exact .refl _
  unfold onInfo
  split
  · next name hcontrol =>
    rw [hcontrol] at hsound
    dsimp only
    split_ifs
    · have hcreate : Advances receiver (s.hear name answer)
          ((s.hear name answer).create receiver name name .index) :=
        advances_create hfit (hnames name) hsound trivial (by simp)
      exact ⟨(hkeeps name).trans hcreate.keeps, hcreate.standing⟩
    · exact ⟨hkeeps name, standing_of_control (hnames name) hsound (by simp [goto])⟩
    · exact ⟨hkeeps name, standing_of_control (hnames name) hsound (by simp [goto])⟩
  · next folder hcontrol =>
    rw [hcontrol] at hsound
    refine ⟨hkeeps _, standing_of_control (hnames _) ⟨hsound, ?_, by simp⟩ (by simp [goto])⟩
    exact inside_entriesOf (.inl rfl) hanswer
  · next folder name pending queue hcontrol =>
    rw [hcontrol] at hsound
    obtain ⟨hfolder, hname, hpending, hqueue⟩ := hsound
    refine ⟨hkeeps _, standing_of_control (hnames _) ⟨hfolder, ?_, hqueue⟩ (by simp [goto])⟩
    rw [List.forall_mem_append]
    exact ⟨inside_entriesOf (.inr hname) hanswer, hpending⟩
  · exact ⟨.refl _, h⟩

theorem advances_onServed {content : List UInt8} (h : Standing receiver s) :
    Advances receiver s (s.onServed receiver content delivery) := by
  unfold onServed
  split
  · next name path next hcontrol =>
    have hsound := h.control
    rw [hcontrol] at hsound
    exact ⟨keeps_deliver (h.vacant name path next hcontrol),
      standing_of_control h.names hsound.1 hsound.2⟩
  · exact ⟨.refl _, h⟩

theorem advances_step (hfit : Fit receiver) (h : Standing receiver s) (hevent : Tidy event) :
    Advances receiver s (s.step receiver event) := by
  cases event with
  | go => exact advances_go hfit h
  | info answer => exact advances_onInfo hfit h hevent
  | served content delivery => exact advances_onServed h
  | stop => exact ⟨.refl _, h.names, h.control, h.vacant⟩

/-! ## All runs -/

theorem advances_run (hfit : Fit receiver) (h : Standing receiver s) {events : List Event}
    (hevents : ∀ event ∈ events, Tidy event) :
    Advances receiver s (events.foldl (step receiver) s) := by
  induction events generalizing s with
  | nil => exact ⟨.refl _, h⟩
  | cons event events ih =>
    obtain ⟨hevent, hevents⟩ := List.forall_mem_cons.mp hevents
    obtain ⟨hkeeps, hstanding⟩ := advances_step hfit h hevent
    obtain ⟨hlater, hend⟩ := ih hstanding hevents
    exact ⟨hkeeps.trans hlater, hend⟩

/-- At no point of a run is a file with something in it changed later, be it an old one or a
downloaded one. -/
def Spare (receiver : Receiver) (volume : Volume UInt8 UInt8) (webnames : List StdString)
    (events : List Event) : Prop :=
  ∀ earlier later, earlier ++ later <+: events →
    (after receiver volume webnames earlier).volume.Keeps
      (after receiver volume webnames (earlier ++ later)).volume

/-! ## A name that leads back -/

/-- A name with two dots behind a folder, for which a backslash is no separator. -/
def backwards (text : StdString) : StdString := ascii "q/..\\" ++ text

variable {text : StdString}

theorem target_backwards (hbreak : ∀ b ∈ text, isBreak b = false) :
    target (ascii "/home") (backwards text) = ascii "/home/q/.." ++ backslash :: text := by
  have hdots : Ordinary slash dot (ascii "..\\" ++ text) := by
    refine ⟨List.cons_ne_nil _ _, ?_, ?_, ?_⟩
    · exact fun h ↦ absurd (congrArg List.length h) (by simp [ascii])
    · exact fun h ↦ absurd (congrArg List.length h) (by simp [ascii])
    · rw [List.mem_append]
      exact fun h ↦ h.elim (by decide) fun hmem ↦ slash_not_mem hbreak hmem
  have hordinary : ∀ component ∈ [ascii "..\\" ++ text, ascii "q", ascii "home"],
      Ordinary slash dot component := by
    simp only [List.forall_mem_cons, List.not_mem_nil, false_imp_iff, implies_true, and_true]
    exact ⟨hdots, by decide, by decide⟩
  have hjoin : StdPath.join (ascii "/home") (backwards text) =
      pathTo slash [ascii "..\\" ++ text, ascii "q", ascii "home"] := by
    rw [StdPath.join, if_neg (by simp [backwards, ascii, slash]), if_neg (by decide)]
    simp [backwards, pathTo, ascii, slash]
  have hpath : pathTo slash [ascii "..\\" ++ text, ascii "q", ascii "home"] =
      ascii "/home/q/.." ++ backslash :: text := by
    simp [pathTo, ascii, slash, backslash]
  rw [target, hjoin, StdPath.lexicallyNormal_pathTo hordinary, hpath]

/-- A system that takes no path of 4096 bytes. -/
def shortPaths : Process UInt8 := { cwd := [], refuses := fun path ↦ 4096 ≤ path.length }

/-- The second attempt for such a name. -/
def retried (short : StdString) (fs : FileSystem UInt8) : Attempt :=
  createNotExistPathWith shortPaths true (fun _ fs ↦ (fs, .ok (false, [])))
    (ascii "/home/q/../" ++ short) fs

variable {path : StdString}

theorem createNextAvailableName_backwards {fs : FileSystem UInt8}
    (hbreak : ∀ b ∈ text, isBreak b = false) (hzero : 0 ∉ text) (hlong : 4096 ≤ text.length)
    (h : (retried (shortName text) fs).2 = .ok (true, path)) :
    createNextAvailableName shortPaths true none (ascii "/home") 1 (backwards text) fs =
      ((retried (shortName text) fs).1, .returned path) := by
  have hpasses : passes (ascii "/home/q/.." ++ backslash :: text) (base (ascii "/home")) := by
    exact .inr ⟨⟨ascii "/q/.." ++ backslash :: text, rfl⟩, rfl⟩
  have hcStr : cStr (ascii "/home/q/.." ++ backslash :: text) =
      ascii "/home/q/.." ++ backslash :: text := by
    apply cStr_eq
    rw [List.mem_append, List.mem_cons]
    rintro (hmem | hmem | hmem)
    · revert hmem
      decide
    · cases hmem
    · exact hzero hmem
  have hfilename : Path.filename (ascii "/home/q/.." ++ backslash :: text) = text := by
    have hne : text ≠ [] := List.ne_nil_of_length_pos (lt_of_lt_of_le (by decide) hlong)
    rw [Path.filename, splitLast_append rfl hbreak]
    exact if_pos hne
  have hparent : Path.parent (ascii "/home/q/.." ++ backslash :: text) = ascii "/home/q/.." := by
    rw [Path.parent_append_separator _ rfl hbreak, if_neg (by decide), if_neg (by decide),
      if_neg (by decide)]
    decide
  -- The first attempt fails before it has created anything.
  have htry : tryCreate shortPaths true (ascii "/home/q/.." ++ backslash :: text) fs =
      (fs, .error .refused) := by
    have hrefuses : shortPaths.refuses (ascii "/home/q/.." ++ backslash :: text) = true := by
      apply decide_eq_true
      rw [List.length_append, List.length_cons]
      omega
    simp only [tryCreate, Path.type, Process.stat, hcStr, hrefuses, if_true]
  have happend : Path.append (ascii "/home/q/..") (shortName text) =
      ascii "/home/q/../" ++ shortName text := rfl
  have hmax : nameMax ≤ text.length := le_trans (by decide) hlong
  have hattempt : createNotExistPathWith shortPaths true (fun _ fs ↦ (fs, .ok (false, [])))
      (ascii "/home/q/../" ++ shortName text) fs =
        ((retried (shortName text) fs).1, .ok (true, path)) := Prod.ext rfl h
  rw [createNextAvailableName, target_backwards hbreak, if_pos hpasses]
  simp only [redirect, if_true, createNotExistPath]
  rw [createNotExistPathWith, htry]
  simp only [hfilename, hparent, if_pos hmax, happend, hattempt]

theorem shortName_replicate {n : ℕ} (h : nameMax ≤ n) (b : UInt8) :
    shortName (List.replicate n b) = List.replicate 85 b ++ ascii "..." ++ List.replicate 85 b := by
  rw [nameMax] at h
  have htake : min 85 n = 85 := by omega
  have hdrop : n - (n - 85) = 85 := by omega
  simp only [shortName, nameMax, List.take_replicate, List.drop_replicate, List.length_replicate,
    Nat.reduceDiv, htake, hdrop]

def backwardsReceiver : Receiver where
  process := shortPaths
  home := none
  savedir := ascii "/home"
  rounds := 1

theorem after_backwards {volume : Volume UInt8 UInt8}
    (hbreak : ∀ b ∈ text, isBreak b = false) (hzero : 0 ∉ text) (hlong : 4096 ≤ text.length)
    (h : (retried (shortName text) volume.fs).2 = .ok (true, path)) :
    (after backwardsReceiver volume [backwards text] [.go, .info none]).volume.fs =
      (retried (shortName text) volume.fs).1 := by
  have hname := createNextAvailableName_backwards hbreak hzero hlong h
  simp only [after, List.foldl_cons, List.foldl_nil, step, go, start, onInfo, create, place,
      goto, request, Fetch.report, hear, backwardsReceiver, Option.getD_none, Option.isNone_none,
      if_true, hname]
  rfl

def overlong : StdString := List.replicate 4096 120

/-- What is left of the long name. -/
def shortened : StdString := List.replicate 85 120 ++ ascii "..." ++ List.replicate 85 120

/-- A file of one byte that has the short name. -/
def occupied : Volume UInt8 UInt8 :=
  .ofContent 0
    ((shortPaths.write slash dot (ascii "/home/" ++ shortened) 1
      (.ofDirectories [[ascii "home"]])).getD (.ofDirectories []))
    fun _ ↦ [7]

theorem not_spare_backwards :
    occupied.fs.nodes.lookup [shortened, ascii "home"] = some (.file 1) ∧
      (after backwardsReceiver occupied [backwards overlong]
        [.go, .info none]).volume.fs.nodes.lookup [shortened, ascii "home"] = some (.file 0) ∧
      ¬ Spare backwardsReceiver occupied [backwards overlong] [.go, .info none] := by
  have hbefore : occupied.fs.nodes.lookup [shortened, ascii "home"] = some (.file 1) := by
    decide +kernel
  have hafter : (after backwardsReceiver occupied [backwards overlong]
      [.go, .info none]).volume.fs.nodes.lookup [shortened, ascii "home"] = some (.file 0) := by
    have hshort : shortName overlong = shortened := shortName_replicate (by decide) 120
    have hbytes : ∀ b ∈ overlong, b = 120 := fun b hb ↦ List.eq_of_mem_replicate hb
    have hbreak : ∀ b ∈ overlong, isBreak b = false := by
      intro b hb
      rw [hbytes b hb]
      decide
    have hzero : 0 ∉ overlong := fun hb ↦ absurd (hbytes 0 hb) (by decide)
    have hlong : 4096 ≤ overlong.length := List.length_replicate.ge
    have hretried : (retried shortened occupied.fs).2 =
        .ok (true, ascii "/home/q/../" ++ shortened) := by decide +kernel
    rw [← hshort] at hretried
    rw [after_backwards hbreak hzero hlong hretried, hshort]
    decide +kernel
  refine ⟨hbefore, hafter, fun h ↦ ?_⟩
  have hkept := ((h [] [.go, .info none] (List.prefix_refl _)).files _ 0 hbefore).1
  rw [List.nil_append, hafter] at hkept
  cases hkept

/-! ## Upright names -/

/-- With upright names nothing is lost, whatever the remote answers and delivers. -/
theorem spare_of_upright {webnames : List StdString} {events : List Event} (hfit : Fit receiver)
    (hnames : ∀ name ∈ webnames, Upright name) (hevents : ∀ event ∈ events, Tidy event) :
    Spare receiver volume webnames events := by
  intro earlier later hleading
  have hstart : Standing receiver (start volume webnames) :=
    standing_of_control hnames trivial (by simp [start])
  have hall : ∀ event ∈ earlier ++ later, Tidy event :=
    fun event hmem ↦ hevents event (hleading.subset hmem)
  obtain ⟨hearlier, hlater⟩ := List.forall_mem_append.mp hall
  have hmiddle := (advances_run hfit hstart hearlier).standing
  unfold after
  rw [List.foldl_append]
  exact (advances_run hfit hmiddle hlater).keeps

/-- A download into the same directory leaves the file there alone. -/
theorem spare_download :
    Spare backwardsReceiver occupied [ascii "a"]
      [.go, .info (some { size := 1 }), .go, .served [9] ⟨true, [9], true⟩] :=
  spare_of_upright ⟨rfl, by decide⟩ (by decide) (by simp [Tidy])

end Fetch

end DdeCooperation.Web
