import Mathlib.Data.List.DropRight
import DdeCooperation.Web.Binder

/-!
# Offering files

`tryStartSend` announces the file name of every path and binds it to the path. An
announced name should then resolve to its path. Two things can prevent it. A second
path with the same file name is not bound, and the exception is swallowed. And the
binding found for a name may be that of a later path whose file name is only the
beginning of it. `resolvesAll_iff` says for which lists of paths neither happens.
-/

namespace DdeCooperation.Web

open List WebBinder

variable {path : StdString} {paths : List StdString}

/-- `QFileInfo::fileName`: what comes after the last slash. -/
def fileName (path : StdString) : StdString := path.rtakeWhile (· ≠ slash)

/-- What comes before the file name, with the slash. -/
def parentDir (path : StdString) : StdString := path.rdropWhile (· ≠ slash)

/-- What `tryStartSend` asks the system and the libraries. -/
structure Host where
  startWeb : Bool
  isFile : StdString → Bool
  /-- `genToken` of the JSON array of the names. -/
  genToken : List StdString → StdString

/-- The members of `TransferWorker` that are set here, and the table of the file server. -/
structure Worker where
  singleFile : Bool
  recvPath : StdString
  canceled : Bool
  binder : WebBinder

/-- A binding that fails is only logged. -/
def bindPath (binder : WebBinder) (path : StdString) : WebBinder :=
  match webBind (fileName path) path binder with
  | .ok binder => binder
  | .error _ => binder

/-- The loop over the paths, where `single` says that there is only one. -/
def offerPaths (host : Host) (single : Bool) :
    Worker × List StdString → List StdString → Worker × List StdString
  | state, [] => state
  | (worker, nameVector), path :: paths =>
    let worker := { worker with binder := bindPath worker.binder path }
    let worker :=
      if single && host.isFile path then { worker with singleFile := true } else worker
    offerPaths host single (worker, nameVector ++ [fileName path]) paths

/-- `TransferWorker::tryStartSend`, with the announced names and the token on success. -/
def tryStartSend (host : Host) (worker : Worker) (paths : List StdString) :
    Worker × Option (List StdString × StdString) :=
  let worker := { worker with singleFile := false, recvPath := [] }
  if host.startWeb then
    let worker := { worker with binder := worker.binder.clear }
    let (worker, nameVector) := offerPaths host (paths.length = 1) (worker, []) paths
    ({ worker with canceled := false }, some (nameVector, host.genToken nameVector))
  else (worker, none)

/-- An announced name resolves to its path, and what is below a folder to what is below
the path. -/
def Resolves (isDir : StdString → Prop) (binder : WebBinder) (name path : StdString) : Prop :=
  binder.getPath name = path ∧ (isDir path → ∀ rel,
    binder.getPath (name ++ slash :: rel) = path ++ slash :: rel)

/-- The last path whose file name is the beginning of a name. -/
def lastMatch (paths : List StdString) (name : StdString) : Option StdString :=
  paths.reverse.find? fun path ↦ fileName path <+: name

/-- Every path has a file name of its own, and the last path whose file name is the
beginning of it lies in the same directory. -/
structure Resolvable (paths : List StdString) : Prop where
  named : ∀ path ∈ paths, fileName path ≠ []
  distinct : (paths.map fileName).Nodup
  together : ∀ path ∈ paths, ∀ winner ∈ lastMatch paths (fileName path),
    parentDir winner = parentDir path

/-! ## File names -/

theorem parentDir_append_fileName (path : StdString) : parentDir path ++ fileName path = path :=
  rdropWhile_append_rtakeWhile ..

theorem slash_notMem_fileName (path : StdString) : slash ∉ fileName path := by
  intro hmem
  simpa using mem_rtakeWhile_imp hmem

/-- A file name that starts a longer name ends before the slash. -/
theorem fileName_prefix_append {name tail : StdString}
    (htail : tail = [] ∨ tail.head? = some slash) :
    fileName path <+: name ++ tail ↔ fileName path <+: name := by
  refine ⟨fun h ↦ ?_, fun h ↦ h.trans (prefix_append _ _)⟩
  rcases htail with rfl | hslash
  · rwa [append_nil] at h
  · obtain ⟨rel, rfl⟩ := head?_eq_some_iff.mp hslash
    have hname : name ++ [slash] <+: name ++ slash :: rel := ⟨rel, by simp⟩
    rcases prefix_or_prefix_of_prefix h hname with hshort | hlong
    · rcases prefix_concat_iff.mp hshort with heq | hshort
      · refine absurd ?_ (slash_notMem_fileName path)
        rw [heq]
        exact mem_append_right _ (mem_singleton_self slash)
      · exact hshort
    · exact absurd (hlong.mem (mem_append_right _ (mem_singleton_self slash)))
        (slash_notMem_fileName path)

theorem isFile_eq_false {text : StdString} (h : text.getLast? ≠ some slash) :
    isFile text = false := by
  simp [isFile, h]

theorem isFile_fileName (path : StdString) : isFile (fileName path) = false :=
  isFile_eq_false fun h ↦ slash_notMem_fileName path (mem_of_getLast? h)

theorem isFile_path (hnamed : fileName path ≠ []) : isFile path = false := by
  refine isFile_eq_false fun h ↦ slash_notMem_fileName path (mem_of_getLast? ?_)
  rw [← parentDir_append_fileName path, getLast?_append_of_ne_nil _ hnamed] at h
  exact h

/-! ## The table after the loop -/

/-- The loop binds one path after the other and announces every file name. -/
theorem offerPaths_eq (host : Host) (single : Bool) (worker : Worker)
    (nameVector paths : List StdString) :
    (offerPaths host single (worker, nameVector) paths).1.binder =
        paths.foldl bindPath worker.binder ∧
      (offerPaths host single (worker, nameVector) paths).2 = nameVector ++ paths.map fileName := by
  induction paths generalizing worker nameVector with
  | nil => exact ⟨rfl, (append_nil nameVector).symm⟩
  | cons path paths ih =>
    rw [offerPaths, foldl_cons, map_cons]
    obtain ⟨hbinder, hnames⟩ := ih (if single && host.isFile path then
        { worker with binder := bindPath worker.binder path, singleFile := true }
        else { worker with binder := bindPath worker.binder path })
      (nameVector ++ [fileName path])
    refine ⟨hbinder.trans (congrArg (paths.foldl bindPath) ?_), hnames.trans (by simp)⟩
    split <;> rfl

theorem tryStartSend_eq_some {host : Host} {worker worker' : Worker}
    {names : List StdString} {token : StdString}
    (h : tryStartSend host worker paths = (worker', some (names, token))) :
    worker'.binder = paths.foldl bindPath {} ∧ names = paths.map fileName := by
  unfold tryStartSend at h
  dsimp only at h
  split at h
  · obtain ⟨rfl, hnames, -⟩ : _ ∧ _ ∧ _ := by simpa using h
    obtain ⟨hbinder, hall⟩ := offerPaths_eq host (paths.length = 1)
      { worker with singleFile := false, recvPath := [], binder := worker.binder.clear } [] paths
    exact ⟨hbinder, hnames.symm.trans hall⟩
  · simp at h

/-- A path with a file name that is not bound yet is bound. -/
theorem bindPath_of_notMem {binder : WebBinder} (hnamed : fileName path ≠ [])
    (hnew : fileName path ∉ binder.binds.map Prod.fst) :
    bindPath binder path = ⟨(fileName path, path) :: binder.binds⟩ := by
  have hany : (binder.binds.any fun pair ↦ decide (pair.1 = fileName path)) = false := by
    rw [any_eq_false]
    intro pair hpair hsame
    exact hnew (mem_map.mpr ⟨pair, hpair, of_decide_eq_true hsame⟩)
  simp [bindPath, webBind, WebBinder.bind, isFile_fileName, isFile_path hnamed, hany]

theorem binds_foldl_bindPath (binder : WebBinder) (hnamed : ∀ path ∈ paths, fileName path ≠ [])
    (hdistinct : (paths.map fileName ++ binder.binds.map Prod.fst).Nodup) :
    (paths.foldl bindPath binder).binds =
      (paths.reverse.map fun path ↦ (fileName path, path)) ++ binder.binds := by
  induction paths generalizing binder with
  | nil => rfl
  | cons path paths ih =>
    obtain ⟨hnew, hrest⟩ := nodup_cons.mp hdistinct
    have hbind := bindPath_of_notMem (hnamed path mem_cons_self)
      fun hmem ↦ hnew (mem_append_right _ hmem)
    rw [foldl_cons, hbind, ih _ fun other hother ↦ hnamed other (mem_cons_of_mem _ hother)]
    · simp
    · exact nodup_middle.mpr hdistinct

/-- The binding found for a name, or for a path below it, is that of the last match. -/
theorem findBind_foldl_bindPath {tail : StdString} (name : StdString)
    (hnamed : ∀ path ∈ paths, fileName path ≠ []) (hdistinct : (paths.map fileName).Nodup)
    (htail : tail = [] ∨ tail.head? = some slash) :
    (paths.foldl bindPath {}).findBind (name ++ tail) =
      (lastMatch paths name).map fun winner ↦ (fileName winner, winner) := by
  have hbinds := binds_foldl_bindPath {} hnamed (by simpa using hdistinct)
  rw [findBind, hbinds, append_nil, find?_map, lastMatch]
  congr 2
  funext path
  exact decide_eq_decide.mpr (fileName_prefix_append htail)

/-- An announced name resolves to a file of this name, in the directory of the last match. -/
theorem getPath_foldl_bindPath (tail : StdString)
    (hnamed : ∀ path ∈ paths, fileName path ≠ []) (hdistinct : (paths.map fileName).Nodup)
    (hpath : path ∈ paths) (htail : tail = [] ∨ tail.head? = some slash) :
    ∃ winner ∈ lastMatch paths (fileName path),
      (paths.foldl bindPath {}).getPath (fileName path ++ tail) =
        parentDir winner ++ fileName path ++ tail := by
  obtain ⟨winner, hwinner⟩ : ∃ winner, lastMatch paths (fileName path) = some winner := by
    rw [← Option.isSome_iff_exists, lastMatch, find?_isSome]
    exact ⟨path, mem_reverse.mpr hpath, decide_eq_true (prefix_refl _)⟩
  have hfind := findBind_foldl_bindPath (fileName path) hnamed hdistinct htail
  rw [hwinner, Option.map_some] at hfind
  obtain ⟨rest, hrest⟩ : fileName winner <+: fileName path := by
    simpa using find?_some hwinner
  have hne : fileName path ++ tail ≠ [] := fun h ↦ hnamed path hpath (append_eq_nil_iff.mp h).1
  refine ⟨winner, hwinner, ?_⟩
  calc (paths.foldl bindPath {}).getPath (fileName path ++ tail)
      = winner ++ (rest ++ tail) := by
        refine getPath_of_findBind hne hfind ?_
        rw [← hrest, append_assoc]
    _ = parentDir winner ++ fileName winner ++ (rest ++ tail) := by
        rw [parentDir_append_fileName]
    _ = parentDir winner ++ (fileName winner ++ rest) ++ tail := by
        simp only [append_assoc]
    _ = parentDir winner ++ fileName path ++ tail := by rw [hrest]

theorem Resolvable.resolves (h : Resolvable paths)
    (isDir : StdString → Prop) (hpath : path ∈ paths) :
    Resolves isDir (paths.foldl bindPath {}) (fileName path) path := by
  have hgoes : ∀ tail : StdString, tail = [] ∨ tail.head? = some slash →
      (paths.foldl bindPath {}).getPath (fileName path ++ tail) = path ++ tail := by
    intro tail htail
    obtain ⟨winner, hwinner, hget⟩ := getPath_foldl_bindPath tail h.named h.distinct hpath htail
    rw [hget, h.together path hpath winner hwinner, parentDir_append_fileName]
  refine ⟨?_, fun _ rel ↦ hgoes (slash :: rel) (.inr rfl)⟩
  simpa using hgoes [] (.inl rfl)

theorem resolvable_of_getPath
    (habsolute : ∀ path ∈ paths, path.head? = some slash) (hnodup : paths.Nodup)
    (h : ∀ path ∈ paths, (paths.foldl bindPath {}).getPath (fileName path) = path) :
    Resolvable paths := by
  have hnamed : ∀ path ∈ paths, fileName path ≠ [] := by
    intro path hpath hempty
    have hget := h path hpath
    rw [hempty] at hget
    have hhead := habsolute path hpath
    rw [← hget] at hhead
    cases hhead
  have hdistinct : (paths.map fileName).Nodup := by
    refine hnodup.map_on fun path hpath other hother hsame ↦ ?_
    rw [← h path hpath, hsame, h other hother]
  refine ⟨hnamed, hdistinct, fun path hpath winner hwinner ↦ ?_⟩
  obtain ⟨winner', hwinner', hget⟩ := getPath_foldl_bindPath [] hnamed hdistinct hpath (.inl rfl)
  obtain rfl : winner = winner' := Option.some.inj (hwinner.symm.trans hwinner')
  rw [append_nil, append_nil, h path hpath] at hget
  have hsame : parentDir winner ++ fileName path = parentDir path ++ fileName path := by
    rw [← hget, parentDir_append_fileName]
  exact append_cancel_right hsame

/-- The names of the paths resolve in the table of the loop if and only if the list of paths is
resolvable. -/
theorem forall₂_resolves_iff (isDir : StdString → Prop)
    (habsolute : ∀ path ∈ paths, path.head? = some slash) (hnodup : paths.Nodup) :
    Forall₂ (Resolves isDir (paths.foldl bindPath {})) (paths.map fileName) paths ↔
      Resolvable paths := by
  rw [forall₂_map_left_iff, forall₂_same]
  exact ⟨fun h ↦ resolvable_of_getPath habsolute hnodup fun path hpath ↦ (h path hpath).1,
    fun h path hpath ↦ h.resolves isDir hpath⟩

/-- After a successful `tryStartSend` every announced name resolves to its path if and
only if the list of paths is resolvable. -/
theorem resolvesAll_iff (isDir : StdString → Prop) (host : Host) (worker worker' : Worker)
    (paths names : List StdString) (token : StdString)
    (habsolute : ∀ path ∈ paths, path.head? = some slash) (hnodup : paths.Nodup)
    (hsuccess : tryStartSend host worker paths = (worker', some (names, token))) :
    Forall₂ (Resolves isDir worker'.binder) names paths ↔ Resolvable paths := by
  obtain ⟨hbinder, rfl⟩ := tryStartSend_eq_some hsuccess
  rw [hbinder]
  exact forall₂_resolves_iff isDir habsolute hnodup

/-- A sender whose server starts, with no bindings. -/
def idleSender : Host × Worker :=
  (⟨true, fun _ ↦ true, fun _ ↦ ascii "t"⟩, ⟨false, [], false, {}⟩)

/-- One file name starts the other, but both files are in one directory. -/
def siblings : List StdString := [ascii "/h/notes", ascii "/h/note"]

/-- Two files with one name. -/
def namesakes : List StdString := [ascii "/a/notes", ascii "/b/notes"]

theorem resolvesAll_siblings :
    Forall₂
      (Resolves (fun _ ↦ True) (tryStartSend idleSender.1 idleSender.2 siblings).1.binder)
      (siblings.map fileName) siblings := by
  have hresolvable : Resolvable siblings :=
    ⟨by decide +kernel, by decide +kernel, by decide +kernel⟩
  exact (resolvesAll_iff _ idleSender.1 idleSender.2 _ siblings _ (ascii "t") (by decide +kernel)
    (by decide +kernel) rfl).mpr hresolvable

/-- The second file is announced under a name that resolves to the first one. -/
theorem not_resolvesAll_namesakes :
    (tryStartSend idleSender.1 idleSender.2 namesakes).2 =
        some ([ascii "notes", ascii "notes"], ascii "t") ∧
      (tryStartSend idleSender.1 idleSender.2 namesakes).1.binder.getPath (ascii "notes") =
        ascii "/a/notes" ∧
      ¬ Forall₂
        (Resolves (fun _ ↦ False) (tryStartSend idleSender.1 idleSender.2 namesakes).1.binder)
        [ascii "notes", ascii "notes"] namesakes := by
  refine ⟨by decide +kernel, by decide +kernel, fun h ↦ ?_⟩
  have hsecond := (forall₂_cons.mp (forall₂_cons.mp h).2).1
  exact absurd hsecond.1 (by decide +kernel)

end DdeCooperation.Web
