import DdeCooperation.Daemon.BlockSteps

/-!
# A tree that is sent and received

The entries of a directory are sent to a receiver whose save directory is empty. If the names
of their directories are not changed on the way, the receiver creates the same entries. The
directories and files are created one after the other in the order of the tree, so that the
save directory contains at every point the entries that have been sent so far.
-/

namespace DdeCooperation.Daemon

open Foundations Web BaseKit List SendingJob

/-- A directory whose entries are sent. -/
structure Source where
  parent : Location UInt8
  entries : Forest UInt8 UInt8
  ordinary : ∀ component ∈ parent, Ordinary slash dot component
  proper : entries.Proper PlainName

namespace Source

/-- The job's directory does not occur again in the path of a directory below it, no name at the
top begins with a backslash, no file has more blocks than there are block numbers, and the
counter of the entries stays positive in both passes. -/
structure Transferable (source : Source) : Prop where
  directories : ∀ dir ∈ source.entries.directories,
    ¬ frontOf source.parent <:+: Coost.relative dir
  names : ∀ name ∈ source.entries.names, name.head? ≠ some backslash
  sizes : ∀ content ∈ source.entries.contents, content.length ≤ 2 ^ 32 * BLOCK_SIZE
  counted : 2 * source.entries.size < 2 ^ 31

/-- The blocks of the source in their order, and any number of counting blocks. -/
def Sent (source : Source) (base64 : Base64) (sent : List FSDataBlock) : Prop :=
  sent.filter (· ≠ countingBlock) =
    (start (frontOf source.parent) source.entries).map
      (sendToRemote base64)

end Source

section Flags

variable {subname : StdString} {content : List UInt8} {fileid : ℤ} {count : ℕ}
  {entries : Forest UInt8 UInt8}

theorem counting_readBlocks (rest : List UInt8) (blockId : ℕ) (isOpen : Bool) :
    ∀ block ∈ readBlocks subname rest blockId isOpen, block.flags.counting = false := by
  induction rest, blockId, isOpen using readBlocks.induct with
  | case1 rest blockId isOpen hlast =>
    rw [readBlocks, if_pos hlast, forall_mem_singleton]
    rfl
  | case2 rest blockId isOpen hmore ih =>
    rw [readBlocks, if_neg hmore, forall_mem_cons]
    exact ⟨rfl, ih⟩

theorem counting_readFileBlock :
    ∀ block ∈ readFileBlock fileid subname content, block.flags.counting = false := by
  unfold readFileBlock
  split_ifs
  · exact fun _ hmem ↦ absurd hmem not_mem_nil
  · rw [forall_mem_singleton]
  · exact counting_readBlocks content 0 true

theorem counting_readPath (root path : StdString) :
    ∀ block ∈ readPath root path count entries, block.flags.counting = false := by
  induction entries generalizing path count with
  | nil => exact fun _ hmem ↦ absurd hmem not_mem_nil
  | file name content rest ih =>
    rw [readPath, forall_mem_append]
    exact ⟨counting_readFileBlock, ih path⟩
  | directory name inner rest ihInner ihRest =>
    rw [readPath, forall_mem_cons, forall_mem_append]
    exact ⟨rfl, ihInner _, ihRest path⟩

end Flags

namespace Receiver

variable {receiver : Receiver} {disk : Coost.Storage} {parent : Location UInt8}
  {names : List StdString} {count : ℕ} {entries : Forest UInt8 UInt8}

/-- The entries of a directory that is there can be received. -/
structure Site (receiver : Receiver) (parent : Location UInt8) (disk : Coost.Storage)
    (names : List StdString) (count : ℕ) (entries : Forest UInt8 UInt8) : Prop where
  grounded : receiver.Grounded
  plain : ∀ name ∈ names, PlainName name
  proper : entries.Proper PlainName
  admitted : ∀ first ∈ entries.names, Admitted (names ++ [first])
  isDir : disk.IsDir (names.reverse ++ receiver.base)
  empty : ∀ first ∈ entries.names, disk.node (first :: (names.reverse ++ receiver.base)) = none
  directories : ∀ dir ∈ entries.directories,
    ¬ frontOf parent <:+: Coost.relative (names ++ dir)
  sizes : ∀ content ∈ entries.contents, content.length ≤ 2 ^ 32 * BLOCK_SIZE
  counted : count + entries.size < 2 ^ 31

theorem Site.slot (h : receiver.Site parent disk names count entries) {name : StdString}
    (hname : name ∈ entries.names) : receiver.Slot disk names name where
  grounded := h.grounded
  plain := by
    intro other hother
    rcases mem_append.mp hother with hmem | hmem
    · exact h.plain other hmem
    · rw [mem_singleton.mp hmem]
      exact h.proper.mem_names hname
  admitted := h.admitted name hname
  isDir := h.isDir

theorem Site.ordinary (h : receiver.Site parent disk names count entries)
    (hparent : Ordinaries slash dot parent) :
    Ordinaries slash dot (names.reverse ++ parent) := by
  intro component hmem
  rcases mem_append.mp hmem with hname | hmem
  · exact (h.plain component (mem_reverse.mp hname)).1
  · exact hparent component hmem

section Parts

variable {disk₁ disk₂ : Coost.Storage} {name : StdString} {content : List UInt8}
  {inner rest : Forest UInt8 UInt8} {stored : Stored UInt8}

theorem Site.file_rest (h : receiver.Site parent disk names count (.file name content rest))
    (hplaced : disk.Placed (name :: (names.reverse ++ receiver.base)) stored disk₁) :
    receiver.Site parent disk₁ names (count + 1) rest where
  grounded := h.grounded
  plain := h.plain
  proper := h.proper.2.2
  admitted first hfirst := h.admitted first (mem_cons_of_mem _ hfirst)
  isDir := (hplaced.node_ne (cons_ne_self _ _).symm).trans h.isDir
  empty := by
    intro first hfirst
    have hne : first ≠ name := by
      rintro rfl
      exact h.proper.2.1 hfirst
    rw [hplaced.node_ne fun heq ↦ hne (cons.inj heq).1]
    exact h.empty first (mem_cons_of_mem _ hfirst)
  directories := h.directories
  sizes content' hmem := h.sizes content' (mem_cons_of_mem _ hmem)
  counted := by
    have hcounted := h.counted
    rw [Forest.size] at hcounted
    omega

theorem Site.directory_inner
    (h : receiver.Site parent disk names count (.directory name inner rest))
    (hplaced : disk.Placed (name :: (names.reverse ++ receiver.base)) .directory disk₁) :
    receiver.Site parent disk₁ (names ++ [name]) (count + 1) inner where
  grounded := h.grounded
  plain := (h.slot mem_cons_self).plain
  proper := h.proper.2.2.1
  admitted first _ := by
    intro outer houter
    refine h.admitted name mem_cons_self outer ?_
    rwa [head?_append_of_ne_nil _ (by simp)] at houter
  isDir := by
    rw [reverse_append, append_assoc]
    exact hplaced.node_self
  empty := by
    intro first _
    rw [reverse_append, append_assoc]
    have hne : first :: ([name].reverse ++ (names.reverse ++ receiver.base)) ≠
        name :: (names.reverse ++ receiver.base) :=
      fun heq ↦ cons_ne_self _ _ (cons.inj heq).2
    rw [hplaced.node_ne hne]
    exact Disk.node_eq_none_of_suffix (h.empty name mem_cons_self) (suffix_cons _ _)
  directories dir hdir := by
    have hmem : name :: dir ∈ (Forest.directory name inner rest).directories :=
      mem_cons_of_mem _ (mem_append_left _ (mem_map_of_mem hdir))
    rw [append_assoc]
    exact h.directories (name :: dir) hmem
  sizes content hmem := h.sizes content (mem_append_left _ hmem)
  counted := by
    have hcounted := h.counted
    rw [Forest.size] at hcounted
    omega

theorem Site.directory_rest
    (h : receiver.Site parent disk names count (.directory name inner rest))
    (hplaced : disk.Placed (name :: (names.reverse ++ receiver.base)) .directory disk₁)
    (hinner : disk₁.Overlaid (name :: (names.reverse ++ receiver.base)) inner disk₂) :
    receiver.Site parent disk₂ names (count + 1 + inner.size) rest where
  grounded := h.grounded
  plain := h.plain
  proper := h.proper.2.2.2
  admitted first hfirst := h.admitted first (mem_cons_of_mem _ hfirst)
  isDir := by
    rw [Disk.IsDir, hinner.elsewhere, hplaced.node_ne (cons_ne_self _ _).symm]
    · exact h.isDir
    · exact fun first _ hsuffix ↦ not_suffix_cons_self ((suffix_cons _ _).trans hsuffix)
  empty := by
    intro first hfirst
    have hne : first ≠ name := by
      rintro rfl
      exact h.proper.2.1 hfirst
    rw [hinner.elsewhere, hplaced.node_ne fun heq ↦ hne (cons.inj heq).1]
    · exact h.empty first (mem_cons_of_mem _ hfirst)
    · intro second _ hsuffix
      have hlength := hsuffix.length_le
      simp only [length_cons] at hlength
      omega
  directories dir hdir := h.directories dir (mem_cons_of_mem _ (mem_append_right _ hdir))
  sizes content hmem := h.sizes content (mem_append_right _ hmem)
  counted := by
    have hcounted := h.counted
    rw [Forest.size] at hcounted
    omega

end Parts

theorem handleBlockQueque_append (receiver : Receiver) (state : Receiving)
    (before after : List FSDataBlock) :
    receiver.handleBlockQueque state (before ++ after) =
      receiver.handleBlockQueque (receiver.handleBlockQueque state before) after :=
  foldl_append

/-- The blocks of the entries of a directory create these entries. -/
theorem run_readPath (hparent : Ordinaries slash dot parent)
    (h : receiver.Site parent disk names count entries) (fx : Option File) :
    ∃ disk' fx', receiver.handleBlockQueque { disk, fx }
          ((readPath (frontOf parent) (pathTo slash (names.reverse ++ parent)) count
            entries).map (sendToRemote receiver.base64)) =
        { disk := disk', fx := fx' } ∧
      disk.Overlaid (names.reverse ++ receiver.base) entries disk' := by
  induction entries generalizing names count disk fx with
  | nil => exact ⟨disk, fx, rfl, Disk.overlaid_nil _ _⟩
  | file name content rest ih =>
    have hname : PlainName name := h.proper.1
    have hid : ¬ fileidAfter (count + 1) < 0 := by
      have hcounted := h.counted
      rw [Forest.size] at hcounted
      exact fileidAfter_nonneg (by omega)
    obtain ⟨disk₁, fx₁, hfile, hplaced⟩ := run_readFileBlock (h.slot mem_cons_self) fx hid
      (h.sizes content mem_cons_self) (h.empty name mem_cons_self)
    obtain ⟨disk₂, fx₂, hrun, hoverlaid⟩ := ih (h.file_rest hplaced) fx₁
    refine ⟨disk₂, fx₂, ?_, .file (h.empty name mem_cons_self) hplaced hoverlaid h.proper.2.1⟩
    have hread := readFile_pathTo parent
      (fun other hother ↦ (h.plain other hother).1) hname.1 (fileidAfter (count + 1)) content
    rw [cons_append] at hread
    rw [readPath, join_pathTo (h.ordinary hparent) hname.1, hread,
      map_append, handleBlockQueque_append, hfile, hrun]
  | directory name inner rest ihInner ihRest =>
    have hname : PlainName name := h.proper.1
    have hne : names ++ [name] ≠ [] := by simp
    have hpath : pathTo slash ((names ++ [name]).reverse ++ parent) =
        pathTo slash (name :: (names.reverse ++ parent)) := by
      rw [reverse_append, append_assoc]
      rfl
    have hordinary : Ordinaries slash dot (name :: (names.reverse ++ parent)) :=
      forall_mem_cons.mpr ⟨hname.1, h.ordinary hparent⟩
    have hfilename : (dirBlock (frontOf parent)
        (pathTo slash (name :: (names.reverse ++ parent)))).filename =
          Coost.relative (names ++ [name]) := by
      rw [← hpath, filename_dirBlock hne, Coost.replace_eq_self_iff (frontOf_ne_nil parent)]
      exact h.directories [name] mem_cons_self
    obtain ⟨disk₁, hstep, hplaced⟩ := handleBlock_directory (h.slot mem_cons_self) fx
      hfilename rfl (h.empty name mem_cons_self)
    obtain ⟨disk₂, fx₂, hrunInner, hinner⟩ := ihInner (h.directory_inner hplaced) fx
    rw [reverse_append, append_assoc] at hinner
    rw [hpath] at hrunInner
    obtain ⟨disk₃, fx₃, hrunRest, hrest⟩ := ihRest (h.directory_rest hplaced hinner) fx₂
    refine ⟨disk₃, fx₃, ?_,
      .directory (h.empty name mem_cons_self) hplaced hinner hrest h.proper.2.1⟩
    rw [readPath, join_pathTo (h.ordinary hparent) hname.1]
    rw [join_pathTo_nil hordinary, map_cons, handleBlockQueque_cons, hstep,
      map_append, handleBlockQueque_append, hrunInner, hrunRest]

/-! ## A whole job -/

theorem handleBlock_countingBlock (state : Receiving) :
    receiver.handleBlock state countingBlock = state := by
  simp [handleBlock, countingBlock]

/-- Counting blocks make no difference. -/
theorem handleBlockQueque_filter (receiver : Receiver) (state : Receiving)
    (sent : List FSDataBlock) :
    receiver.handleBlockQueque state (sent.filter (· ≠ countingBlock)) =
      receiver.handleBlockQueque state sent := by
  induction sent generalizing state with
  | nil => rfl
  | cons block sent ih =>
    rw [handleBlockQueque_cons, ← ih]
    by_cases hcounting : block = countingBlock
    · rw [filter_cons_of_neg (by simpa using hcounting), hcounting, handleBlock_countingBlock]
    · rw [filter_cons_of_pos (by simpa using hcounting), handleBlockQueque_cons]

/-- The save directory is there and empty, and there is space for the source. -/
structure Ready (receiver : Receiver) (disk : Coost.Storage) (source : Source) : Prop where
  grounded : receiver.Grounded
  isDir : disk.IsDir receiver.base
  empty : ∀ name, disk.node (name :: receiver.base) = none
  space : totalSize 0 source.entries < receiver.deviceFreeSize

/-- The job has finished, and the save directory contains the tree and nothing else. -/
def Reproduced (receiver : Receiver) (source : Source) (state : Receiving) : Prop :=
  state.progress = .finished ∧
    ∀ names ≠ [], state.disk.node (names.reverse ++ receiver.base) = source.entries.lookup names

variable {source : Source}

theorem Ready.site (h : receiver.Ready disk source) (htransferable : source.Transferable) :
    receiver.Site source.parent disk [] source.entries.size source.entries where
  grounded := h.grounded
  plain := fun _ hmem ↦ absurd hmem not_mem_nil
  proper := source.proper
  admitted first hfirst outer houter := by
    rw [← Option.mem_some.mp houter]
    exact htransferable.names first hfirst
  isDir := h.isDir
  empty first _ := h.empty first
  directories := htransferable.directories
  sizes := htransferable.sizes
  counted := by
    rw [← Nat.two_mul]
    exact htransferable.counted

/-- The first block announces the size. -/
theorem handleBlock_counted (h : receiver.Ready disk source) :
    receiver.handleBlock { disk } (sendToRemote receiver.base64
        { flags := { counted := true }, dataSize := totalSize 0 source.entries }) =
      { disk } := by
  have hwrite : receiver.writeAndCreateFile (sendToRemote receiver.base64
      { flags := { counted := true }, dataSize := totalSize 0 source.entries })
      [] disk none = (disk, none, true) := by
    simp [writeAndCreateFile, sendToRemote, h.space]
  exact handleBlock_eq rfl (by simp [reacquired, sendToRemote]) hwrite

variable {fx : Option File}

theorem handleBlock_transOver :
    receiver.handleBlock { disk, fx } (sendToRemote receiver.base64
        { flags := { transOver := true } }) = { disk, fx, progress := .finished } := by
  have hwrite : receiver.writeAndCreateFile (sendToRemote receiver.base64
      { flags := { transOver := true } }) [] disk fx = (disk, fx, true) := by
    simp [writeAndCreateFile, sendToRemote]
  exact handleBlock_eq rfl (by simp [reacquired, sendToRemote]) hwrite

theorem scanPaths_source (source : Source) (count : ℕ) :
    scanPaths (frontOf source.parent) count source.entries =
      readPath (frontOf source.parent) (pathTo slash source.parent) count source.entries :=
  scanPaths_eq_readPath source.ordinary (source.proper.mono fun _ hname ↦ hname.1) count

variable {base64 : Base64}

/-- The blocks of a source without any counting blocks. -/
theorem sent_start :
    source.Sent base64 ((start (frontOf source.parent) source.entries).map
      (sendToRemote base64)) := by
  rw [Source.Sent, filter_eq_self, forall_mem_map]
  have hkept : ∀ block : FSDataBlock, block.flags.counting = false →
      decide (sendToRemote base64 block ≠ countingBlock) = true := by
    intro block hcounting
    refine decide_eq_true fun heq ↦ ?_
    have hflag := congrArg (·.flags.counting) heq
    rw [show (sendToRemote base64 block).flags.counting = block.flags.counting from rfl,
      hcounting] at hflag
    cases hflag
  rw [start, forall_mem_cons, forall_mem_append, forall_mem_singleton, scanPaths_source]
  exact ⟨hkept _ rfl, fun block hmem ↦ hkept block (counting_readPath _ _ block hmem), hkept _ rfl⟩

/-- The directory `/s/d` on an empty disk. -/
def savingDisk : Coost.Storage where
  node loc := if loc ∈ ([[], [[115]], [[100], [115]]] : List (Location UInt8)) then some .directory
    else none
  root := rfl
  parents name loc hnode := by
    have hmem : name :: loc ∈ ([[], [[115]], [[100], [115]]] : List (Location UInt8)) := by
      by_contra hmem
      exact hnode (if_neg hmem)
    have hloc : loc ∈ ([[], [[115]], [[100], [115]]] : List (Location UInt8)) := by
      simp only [mem_cons, cons_ne_nil, cons.injEq, false_or] at hmem ⊢
      rcases hmem with ⟨-, rfl⟩ | ⟨-, rfl⟩ | hnil
      · exact .inl rfl
      · exact .inr (.inl rfl)
      · exact absurd hnil not_mem_nil
    exact if_pos hloc

/-- It saves in `/s/d`. -/
def savingReceiver : Receiver where
  storageDir := [47, 115]
  savedir := [100]
  jobid := 1
  deviceFreeSize := 20000
  cwd := []
  base64 := ⟨id, id, fun _ ↦ rfl, fun _ ↦ id⟩
  reacquirePath _ path := path

theorem ready_savingReceiver {source : Source} (h : totalSize 0 source.entries < 20000) :
    savingReceiver.Ready savingDisk source where
  grounded := ⟨by decide, by decide +kernel⟩
  isDir := by decide +kernel
  empty name := by
    have hbase : savingReceiver.base = [[100], [115]] := by decide +kernel
    rw [hbase]
    simp [savingDisk]
  space := h

/-- The directory `/a/x` with a file in it. -/
def sampleSource : Source where
  parent := [[97]]
  entries := .directory [120] (.file [102] [1, 2] .nil) .nil
  ordinary := by decide +kernel
  proper := ⟨by decide +kernel, by decide, ⟨by decide +kernel, by decide, trivial⟩, trivial⟩

/-- The directory `/a/x/a/y`. -/
def nestedSource : Source where
  parent := [[97]]
  entries := .directory [120] (.directory [97] (.directory [121] .nil .nil) .nil) .nil
  ordinary := by decide +kernel
  proper := ⟨by decide +kernel, by decide, ⟨by decide +kernel, by decide,
    ⟨by decide +kernel, by decide, trivial, trivial⟩, trivial⟩, trivial⟩

end Receiver

end DdeCooperation.Daemon
