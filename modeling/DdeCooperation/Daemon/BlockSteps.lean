import DdeCooperation.Daemon.BlockNames
import DdeCooperation.Daemon.BlockQueue

/-!
# What the blocks of an entry do

The save directory of a receiving job is in its storage directory, on a disk without links.
A block of a directory creates the directory, and the blocks of a file create the file with
its bytes, where the entry is in a directory that has been created and has a plain name.
-/

namespace DdeCooperation.Daemon

open Foundations Web BaseKit List SendingJob Coost SavingJob

variable {block : FSDataBlock} {content : List UInt8} {close : Bool}

/-- A name that an entry can have and that has no two dots in a row. -/
def PlainName (name : StdString) : Prop := Ordinary slash dot name ∧ ¬ [dot, dot] <:+: name

instance (name : StdString) : Decidable (PlainName name) := inferInstanceAs (Decidable (_ ∧ _))

namespace Receiver

variable {receiver : Receiver} {disk disk' : Storage} {names : List StdString}

/-- The location of the save directory. -/
def base (receiver : Receiver) : Location UInt8 :=
  location (join receiver.storageDir receiver.savedir)

/-- The save directory is in the storage directory, which is given by an absolute path. -/
structure Grounded (receiver : Receiver) : Prop where
  absolute : receiver.storageDir.head? = some slash
  within : location receiver.storageDir <:+ receiver.base

/-- The location of an entry of the save directory. -/
abbrev entry (receiver : Receiver) (names : List StdString) (name : StdString) : Location UInt8 :=
  name :: (names.reverse ++ receiver.base)

/-- A block as it arrives. -/
abbrev sent (receiver : Receiver) (block : FSDataBlock) : FSDataBlock :=
  sendToRemote receiver.base64 block

theorem Grounded.ordinary (h : receiver.Grounded) : Ordinaries slash dot receiver.base :=
  fun _ ↦ ordinary_location (head?_join h.absolute _)

/-! ## Paths -/

/-- Without links, `realpath` returns the path to the location. -/
theorem realpath_eq_pathTo {path resolved : StdString} {cwd : Location UInt8}
    (habsolute : path.head? = some slash)
    (h : disk.realpath slash dot cwd path = some resolved) :
    resolved = pathTo slash (location path) := by
  obtain ⟨loc, hfind, hnode⟩ := Option.bind_eq_some_iff.mp h
  split_ifs at hnode
  rw [← Option.some.inj hnode, Disk.find_eq_resolve habsolute hfind]
  rfl

variable {cwd : Location UInt8}

/-- A path below the save directory passes the comparison. -/
theorem leadsOut_pathTo (h : receiver.Grounded) {name : StdString} {loc : Location UInt8}
    (hloc : Ordinaries slash dot (name :: loc)) (hinner : receiver.base <:+ loc)
    (acName : StdString → StdString) :
    (receiver.job acName).leadsOut (disk.realpath slash dot cwd) (pathTo slash (name :: loc)) =
      false := by
  replace hloc := forall_mem_cons.mp hloc
  have hwithin : location receiver.storageDir <:+ loc := h.within.trans hinner
  have hfull : ∀ fullPath, (disk.realpath slash dot cwd (pathTo slash (name :: loc))).or
      (disk.realpath slash dot cwd (split (pathTo slash (name :: loc))).1) = some fullPath →
        pathTo slash (location receiver.storageDir) <+: fullPath := by
    intro fullPath hsome
    rcases Option.or_eq_some_iff.mp hsome with hpath | ⟨-, hparent⟩
    · rw [realpath_eq_pathTo rfl hpath, location_pathTo (forall_mem_cons.mpr hloc)]
      exact pathTo_mono (hwithin.trans (suffix_cons _ _))
    · rw [realpath_eq_pathTo (head?_split_pathTo hloc.1.2.2.2 loc) hparent,
        location_split_pathTo hloc.1.2.2.2 hloc.2]
      exact pathTo_mono hwithin
  unfold leadsOut
  split
  · next rootPath fullPath hroot hreal =>
    rw [realpath_eq_pathTo h.absolute hroot, isPrefixOf_iff_prefix.mpr (hfull fullPath hreal)]
    rfl
  · rfl
  · rfl
  · rfl

/-- The first name of a path does not begin with a backslash. -/
def Admitted (names : List StdString) : Prop :=
  ∀ first ∈ names.head?, first.head? ≠ some backslash

/-- A path of plain names is accepted. -/
theorem savePath_relative (h : receiver.Grounded) (hne : names ≠ [])
    (hnames : ∀ name ∈ names, PlainName name) (hadmitted : Admitted names) :
    (receiver.job fun _ ↦ []).savePath (disk.realpath slash dot cwd) (relative names) =
      pathTo slash (names.reverse ++ receiver.base) := by
  have hordinary : Ordinaries slash dot names := fun name hmem ↦ (hnames name hmem).1
  have hbase := head?_join h.absolute receiver.savedir
  have hloc : Ordinaries slash dot (names.reverse ++ receiver.base) := by
    intro component hmem
    rcases mem_append.mp hmem with hname | hmem
    · exact hordinary component (mem_reverse.mp hname)
    · exact h.ordinary component hmem
  have hguard : ¬ ([dot, dot] <:+: relative names ∨ (relative names).head? = some slash ∨
        (relative names).head? = some backslash) := by
    rintro (hdots | hslash | hbackslash)
    · exact dots_relative hne (fun name hmem ↦ (hnames name hmem).2) hdots
    · exact head?_relative_ne hne hordinary hslash
    · cases names with
      | nil => exact hne rfl
      | cons name names =>
        rw [head?_relative (hordinary name mem_cons_self).1] at hbackslash
        exact hadmitted name rfl hbackslash
  have hac : (receiver.job fun _ ↦ []).acfilename (relative names) = relative names := by
    simp [acfilename, job]
  have hjoin : join (receiver.job fun _ ↦ []).saveFulldir (relative names) =
      pathTo slash (names.reverse ++ receiver.base) := by
    rw [saveFulldir, job, join_descending hbase
      (descending_relative hne hordinary), steps_relative hne hordinary]
    rfl
  have hout : (receiver.job fun _ ↦ []).leadsOut (disk.realpath slash dot cwd)
      (pathTo slash (names.reverse ++ receiver.base)) = false := by
    cases hrev : names.reverse with
    | nil => exact absurd (reverse_eq_nil_iff.mp hrev) hne
    | cons last others =>
      rw [hrev] at hloc
      exact leadsOut_pathTo h hloc (suffix_append _ _) _
  have hwithin : isPathWithinDir (pathTo slash (names.reverse ++ receiver.base))
      (receiver.job fun _ ↦ []).saveFulldir = true := by
    rw [saveFulldir, job, join_eq_pathTo h.absolute]
    exact isPathWithinDir_pathTo hloc
  rw [savePath, getSaveFullpath, if_neg (relative_ne_nil hne hordinary), if_neg hguard, hac, hjoin]
  simp only [hout, hwithin, if_true]
  rfl

/-! ## Rounds -/

theorem filename_sendToRemote : receiver.filename (receiver.sent block) = block.filename := by
  unfold filename sent sendToRemote
  by_cases hempty : block.filename = []
  · simp [hempty]
  · simp only [if_neg hempty, if_neg (receiver.base64.encode_ne_nil _ hempty)]
    exact receiver.base64.decode_encode _

theorem fullpath_sendToRemote (receiver : Receiver) (state : Receiving) (h : block.filename ≠ []) :
    receiver.fullpath state (receiver.sent block) =
      (receiver.job state.acName).savePath (state.disk.realpath slash dot receiver.cwd)
        block.filename := by
  have hsent : (receiver.sent block).filename ≠ [] := by
    simp only [sendToRemote, if_neg h]
    exact receiver.base64.encode_ne_nil _ h
  rw [fullpath, if_neg hsent, filename_sendToRemote]

/-- A round that succeeds for an entry that keeps its name. -/
theorem handleBlock_eq {fx fx' : Option File} (hcounting : block.flags.counting = false)
    (hkept : receiver.reacquired { disk, fx } block = false)
    (h : receiver.writeAndCreateFile block (receiver.fullpath { disk, fx } block) disk fx =
    (disk', fx', true)) :
    receiver.handleBlock { disk, fx } block =
      { disk := disk', fx := fx',
        progress := if block.flags.transOver then .finished else .running } := by
  rw [handleBlock, if_neg (by simp), if_neg (by simp [hcounting])]
  simp only [hkept, Bool.false_eq_true, if_false, h]

end Receiver

namespace FSAdapter

variable {loc : Location UInt8} {name : StdString} {disk : Storage}
  (cwd : Location UInt8) (flags : JobTransFileOp) (data : List UInt8)

/-- The first block of a file. -/
theorem writeBlock_create (hcreate : flags.create = true)
    (hloc : Ordinaries slash dot (name :: loc)) (hdir : disk.IsDir loc)
    (hnone : disk.node (name :: loc) = none) :
    ∃ disk', writeBlock cwd (pathTo slash (name :: loc)) 0 data flags disk none =
        (disk', if flags.close then none else some ⟨some (name :: loc)⟩, true) ∧
      disk.Placed (name :: loc) (.file data) disk' := by
  have hordinary := forall_mem_cons.mp hloc
  obtain ⟨disk₁, hopen, hnode⟩ := Disk.openFile_of hnone hdir
  have hprepare : prepare cwd (pathTo slash (name :: loc)) flags disk none =
      (disk₁, some ⟨some (name :: loc)⟩) := by
    have hdir₁ : disk₁.IsDir loc := by
      rw [Disk.IsDir, hnode, if_neg (cons_ne_self _ _).symm]
      exact hdir
    have hexists : fsExists cwd (pathTo slash (name :: loc)) disk₁ = true := by
      rw [fsExists_pathTo hloc hdir₁, hnode, if_pos rfl]
      rfl
    rw [prepare, if_pos hcreate]
    simp only [dir_pathTo hordinary.1.2.2.2 hordinary.2,
      fsMkdir_of_isDir hordinary.2 hdir, openFile, Disk.find_pathTo hloc hdir, hopen, hexists,
      if_true]
  rw [writeBlock, hprepare]
  by_cases hdata : data = []
  · refine ⟨disk₁, by simp [writeTo, hdata], fun other ↦ ?_⟩
    rw [hnode, hdata]
  · refine ⟨disk₁.writeAt (UInt8.ofNat 0) (name :: loc) 0 data, by simp [writeTo, hdata], fun other ↦ ?_⟩
    have hfile : disk₁.node (name :: loc) = some (.file []) := by rw [hnode, if_pos rfl]
    rw [Disk.node_writeAt hfile, hnode]
    split_ifs
    · simp [Disk.overwrite]
    · rfl

/-- It succeeds in the second attempt if another file is still open. -/
theorem writeBlocks_create (hcreate : flags.create = true)
    (hloc : Ordinaries slash dot (name :: loc)) (hdir : disk.IsDir loc)
    (hnone : disk.node (name :: loc) = none) (fx : Option File) :
    ∃ disk', writeBlocks cwd (pathTo slash (name :: loc)) 0 data flags 3 disk fx =
        (disk', if flags.close then none else some ⟨some (name :: loc)⟩, true) ∧
      disk.Placed (name :: loc) (.file data) disk' := by
  obtain ⟨disk', hwrite, hplaced⟩ := writeBlock_create cwd flags data hcreate hloc hdir hnone
  refine ⟨disk', ?_, hplaced⟩
  cases fx with
  | none => rw [writeBlocks, hwrite]
  | some file =>
    have hbusy : writeBlock cwd (pathTo slash (name :: loc)) 0 data flags disk (some file) =
        (disk, none, false) := by
      rw [writeBlock, prepare, if_pos hcreate]
    rw [writeBlocks, hbusy]
    simp only
    rw [writeBlocks, hwrite]

/-- A later block continues where the file ends. -/
theorem writeBlocks_append (hcreate : flags.create = false)
    (hfile : disk.node loc = some (.file content)) (path : StdString) :
    ∃ disk', writeBlocks cwd path content.length data flags 3 disk (some ⟨some loc⟩) =
        (disk', if flags.close then none else some ⟨some loc⟩, true) ∧
      disk.Placed loc (.file (content ++ data)) disk' := by
  have hprepare : prepare cwd path flags disk (some ⟨some loc⟩) = (disk, some ⟨some loc⟩) := by
    rw [prepare, if_neg (by simp [hcreate])]
  by_cases hdata : data = []
  · refine ⟨disk, ?_, fun other ↦ ?_⟩
    · simp [writeBlocks, writeBlock, hprepare, writeTo, hdata]
    · rw [hdata, append_nil]
      split_ifs with heq
      · rw [heq, hfile]
      · rfl
  · refine ⟨disk.writeAt (UInt8.ofNat 0) loc content.length data, ?_, fun other ↦ ?_⟩
    · simp [writeBlocks, writeBlock, hprepare, writeTo, hdata]
    · rw [Disk.node_writeAt hfile, Disk.overwrite_length]

end FSAdapter

namespace Receiver

section Entry

variable {receiver : Receiver} {disk : Storage} {names : List StdString} {name : StdString}
  {fx : Option File}

/-- The names that lead to an entry of the save directory are plain and admitted, and it is in a
directory. -/
structure Slot (receiver : Receiver) (disk : Storage) (names : List StdString)
    (name : StdString) : Prop where
  grounded : receiver.Grounded
  plain : ∀ other ∈ names ++ [name], PlainName other
  admitted : Admitted (names ++ [name])
  isDir : disk.IsDir (names.reverse ++ receiver.base)

variable (h : receiver.Slot disk names name)

include h

theorem Slot.ordinary : Ordinaries slash dot (receiver.entry names name) := by
  intro component hmem
  rw [mem_cons, mem_append, mem_reverse] at hmem
  rcases hmem with rfl | hnames | hbase
  · exact (h.plain component (by simp)).1
  · exact (h.plain component (by simp [hnames])).1
  · exact h.grounded.ordinary component hbase

theorem Slot.fullpath (hblock : block.filename = relative (names ++ [name])) :
    receiver.fullpath { disk, fx } (receiver.sent block) =
      pathTo slash (receiver.entry names name) := by
  have hne : names ++ [name] ≠ [] := by simp
  have hfilename : block.filename ≠ [] := by
    rw [hblock]
    exact relative_ne_nil hne fun other hmem ↦ (h.plain other hmem).1
  rw [fullpath_sendToRemote receiver _ hfilename, hblock,
    savePath_relative h.grounded hne h.plain h.admitted, reverse_append]
  rfl

/-- A new entry keeps its name. -/
theorem Slot.reacquired (hblock : block.filename = relative (names ++ [name]))
    (hnone : disk.node (receiver.entry names name) = none) :
    receiver.reacquired { disk, fx } (receiver.sent block) = false := by
  have hexists : fsExists receiver.cwd (pathTo slash (receiver.entry names name)) disk = false := by
    rw [fsExists_pathTo h.ordinary h.isDir, hnone]
    rfl
  rw [Receiver.reacquired, h.fullpath hblock]
  simp [hexists]

theorem handleBlock_directory (fx : Option File)
    (hblock : block.filename = relative (names ++ [name]))
    (hflags : block.flags = { dirCreate := true })
    (hnone : disk.node (receiver.entry names name) = none) :
    ∃ disk', receiver.handleBlock { disk, fx } (receiver.sent block) = { disk := disk', fx } ∧
      disk.Placed (receiver.entry names name) .directory disk' := by
  have hsent : (receiver.sent block).flags = { dirCreate := true } := hflags
  obtain ⟨disk', hmkdir, hplaced⟩ := fsMkdir_of_new receiver.cwd h.ordinary hnone h.isDir
  refine ⟨disk', ?_, hplaced⟩
  have hwrite : receiver.writeAndCreateFile (receiver.sent block)
      (receiver.fullpath { disk, fx } (receiver.sent block)) disk fx = (disk', fx, true) := by
    have hexists : fsExists receiver.cwd
        (pathTo slash (receiver.entry names name)) disk' = true := by
      have hdir : disk'.IsDir (names.reverse ++ receiver.base) := by
        rw [Disk.IsDir, hplaced, if_neg (cons_ne_self _ _).symm]
        exact h.isDir
      rw [fsExists_pathTo h.ordinary hdir, hplaced, if_pos rfl]
      rfl
    have hpath := pathTo_ne_nil slash (receiver.entry names name)
    rw [h.fullpath hblock, writeAndCreateFile, if_neg fun hcond ↦ hpath hcond.1, hsent]
    simp only [if_true, if_neg hpath, hmkdir, hexists]
  rw [handleBlock_eq (by rw [hsent]) (h.reacquired hblock hnone) hwrite, hsent]
  rfl

omit h

/-- The block of a file is written. -/
theorem writeAndCreateFile_file {create : Bool} {path : StdString}
    (hflags : block.flags = { create := create, close := close }) (hpath : path ≠ []) :
    receiver.writeAndCreateFile block path disk fx =
      FSAdapter.writeBlocks receiver.cwd path (block.blkId * BLOCK_SIZE) block.data
        { create := create, close := close } 3 disk fx := by
  rw [writeAndCreateFile, if_neg fun hcond ↦ hpath hcond.1, hflags]
  simp

variable (h : receiver.Slot disk names name)

include h

/-- A round that succeeds for a block of a file. -/
theorem Slot.handleBlock_file {disk' : Storage} {fx' : Option File} {create : Bool}
    (hblock : block.filename = relative (names ++ [name]))
    (hflags : block.flags = { create := create, close := close })
    (hkept : receiver.reacquired { disk, fx } (receiver.sent block) = false)
    (hwrite : FSAdapter.writeBlocks receiver.cwd (pathTo slash (receiver.entry names name))
    ((receiver.sent block).blkId * BLOCK_SIZE) block.data { create := create, close := close } 3
    disk fx = (disk', fx', true)) :
    receiver.handleBlock { disk, fx } (receiver.sent block) = { disk := disk', fx := fx' } := by
  have hsent : (receiver.sent block).flags = { create := create, close := close } := hflags
  have hround : receiver.writeAndCreateFile (receiver.sent block)
      (receiver.fullpath { disk, fx } (receiver.sent block)) disk fx = (disk', fx', true) := by
    rw [h.fullpath hblock, writeAndCreateFile_file hsent (pathTo_ne_nil _ _)]
    exact hwrite
  rw [handleBlock_eq (by rw [hsent]) hkept hround, hsent]
  rfl

theorem handleBlock_create (fx : Option File)
    (block : FSDataBlock) (hblock : block.filename = relative (names ++ [name]))
    (hflags : block.flags = { create := true, close := close }) (hid : block.blkId = 0)
    (hnone : disk.node (receiver.entry names name) = none) :
    ∃ disk', receiver.handleBlock { disk, fx } (receiver.sent block) =
        { disk := disk', fx := if close then none else some ⟨some (receiver.entry names name)⟩ } ∧
      disk.Placed (receiver.entry names name) (.file block.data) disk' := by
  have hsentId : (receiver.sent block).blkId * BLOCK_SIZE = 0 := by
    simp [sendToRemote, hid]
  obtain ⟨disk', hwrite, hplaced⟩ := FSAdapter.writeBlocks_create receiver.cwd
    { create := true, close := close } block.data rfl h.ordinary h.isDir hnone fx
  rw [← hsentId] at hwrite
  exact ⟨disk', h.handleBlock_file hblock hflags (h.reacquired hblock hnone) hwrite, hplaced⟩

theorem handleBlock_append (block : FSDataBlock)
    (hblock : block.filename = relative (names ++ [name]))
    (hflags : block.flags = { close := close }) (hid : block.blkId < 2 ^ 32)
    (hoffset : block.blkId * BLOCK_SIZE = content.length)
    (hfile : disk.node (receiver.entry names name) = some (.file content)) :
    ∃ disk', receiver.handleBlock { disk, fx := some ⟨some (receiver.entry names name)⟩ }
          (receiver.sent block) =
        { disk := disk', fx := if close then none else some ⟨some (receiver.entry names name)⟩ } ∧
      disk.Placed (receiver.entry names name) (.file (content ++ block.data)) disk' := by
  have hsentId : (receiver.sent block).blkId * BLOCK_SIZE = content.length := by
    rw [← hoffset]
    simp only [sendToRemote, Nat.mod_eq_of_lt hid]
  obtain ⟨disk', hwrite, hplaced⟩ := FSAdapter.writeBlocks_append receiver.cwd
    { create := false, close := close } block.data rfl hfile
    (pathTo slash (receiver.entry names name))
  have hkept : receiver.reacquired { disk, fx := some ⟨some (receiver.entry names name)⟩ }
      (receiver.sent block) = false := by
    rw [Receiver.reacquired, show (receiver.sent block).flags = { close := close } from hflags]
    simp
  rw [← hsentId] at hwrite
  exact ⟨disk', h.handleBlock_file hblock hflags hkept hwrite, hplaced⟩

/-! ## Files -/

theorem Slot.placed {disk' : Storage} {stored : Stored UInt8}
    (hplaced : disk.Placed (receiver.entry names name) stored disk') :
    receiver.Slot disk' names name :=
  { h with isDir := (hplaced.node_ne (cons_ne_self _ _).symm).trans h.isDir }

omit h

theorem handleBlockQueque_cons (receiver : Receiver) (state : Receiving) (block : FSDataBlock)
    (blocks : List FSDataBlock) :
    receiver.handleBlockQueque state (block :: blocks) =
      receiver.handleBlockQueque (receiver.handleBlock state block) blocks :=
  rfl

/-- The blocks after the first one complete the file. The block number is the number of blocks
before it, since it does not wrap around. -/
theorem run_readBlocks (h : receiver.Slot disk names name) {rest : List UInt8}
    {blockId : ℕ} (hrest : rest ≠ []) (hoffset : blockId * BLOCK_SIZE = content.length)
    (hsize : content.length + rest.length ≤ 2 ^ 32 * BLOCK_SIZE)
    (hfile : disk.node (receiver.entry names name) = some (.file content)) :
    ∃ disk', receiver.handleBlockQueque { disk, fx := some ⟨some (receiver.entry names name)⟩ }
          ((readBlocks (relative (names ++ [name])) rest blockId false).map
            (sendToRemote receiver.base64)) = { disk := disk' } ∧
      disk.Placed (receiver.entry names name) (.file (content ++ rest)) disk' := by
  -- The induction follows the loop: what has been read is moved from `rest` to `content`.
  induction hlength : rest.length using Nat.strong_induction_on
    generalizing disk content rest blockId with
  | _ length ih =>
  subst hlength
  have hpos := length_pos_iff.mpr hrest
  have hid : blockId < 2 ^ 32 := by
    unfold BLOCK_SIZE at hoffset hsize
    omega
  obtain ⟨disk₁, hstep, hplaced⟩ := handleBlock_append h
    (fileBlock (relative (names ++ [name])) rest blockId false) rfl rfl hid hoffset
    hfile
  rw [readBlocks]
  by_cases hlast : rest.length ≤ BLOCK_SIZE
  · refine ⟨disk₁, ?_, ?_⟩
    · rw [if_pos hlast, map_singleton, handleBlockQueque_cons, hstep]
      simp [hlast, handleBlockQueque]
    · simpa [fileBlock, take_of_length_le hlast] using hplaced
  · have htaken : (rest.take BLOCK_SIZE).length = BLOCK_SIZE := by
      rw [length_take]
      omega
    have hdropped : (rest.drop BLOCK_SIZE).length = rest.length - BLOCK_SIZE := length_drop
    have hblock : 0 < BLOCK_SIZE := by decide
    have hnext : (blockId + 1) * BLOCK_SIZE = (content ++ rest.take BLOCK_SIZE).length := by
      rw [length_append, htaken, Nat.succ_mul, hoffset]
    have hnextId : blockId + 1 < 2 ^ 32 := by
      unfold BLOCK_SIZE at *
      omega
    obtain ⟨disk₂, hrun, hplaced'⟩ := ih (rest.drop BLOCK_SIZE).length (by omega)
      (h.placed hplaced) (by rw [← length_pos_iff]; omega) hnext
      (by rw [length_append]; omega) hplaced.node_self rfl
    refine ⟨disk₂, ?_, ?_⟩
    · rw [if_neg hlast, map_cons, handleBlockQueque_cons, hstep, Nat.mod_eq_of_lt hnextId]
      simpa [hlast] using hrun
    · rw [append_assoc, take_append_drop] at hplaced'
      exact hplaced.trans hplaced'

/-- The blocks of a file create it with its content. Only an empty one is left open. -/
theorem run_readFileBlock (h : receiver.Slot disk names name) (fx : Option File)
    {fileid : ℤ} (hid : ¬ fileid < 0)
    (hsize : content.length ≤ 2 ^ 32 * BLOCK_SIZE)
    (hnone : disk.node (receiver.entry names name) = none) :
    ∃ disk' fx', receiver.handleBlockQueque { disk, fx }
          ((readFileBlock fileid (relative (names ++ [name])) content).map
            (sendToRemote receiver.base64)) = { disk := disk', fx := fx' } ∧
      disk.Placed (receiver.entry names name) (.file content) disk' := by
  unfold readFileBlock
  rw [if_neg hid]
  by_cases hempty : content = []
  · obtain ⟨disk', hstep, hplaced⟩ := handleBlock_create h fx
      { filename := relative (names ++ [name]), flags := { create := true } } rfl rfl rfl hnone
    refine ⟨disk', some ⟨some (receiver.entry names name)⟩, ?_, by rwa [hempty]⟩
    rw [if_pos hempty, map_singleton, handleBlockQueque_cons, hstep]
    rfl
  · obtain ⟨disk₁, hstep, hplaced⟩ := handleBlock_create h fx
      (fileBlock (relative (names ++ [name])) content 0 true) rfl rfl rfl hnone
    rw [if_neg hempty, readBlocks]
    by_cases hlast : content.length ≤ BLOCK_SIZE
    · refine ⟨disk₁, none, ?_, ?_⟩
      · rw [if_pos hlast, map_singleton, handleBlockQueque_cons, hstep]
        simp [hlast, handleBlockQueque]
      · simpa [fileBlock, take_of_length_le hlast] using hplaced
    · have htaken : (content.take BLOCK_SIZE).length = BLOCK_SIZE := by
        rw [length_take]
        omega
      have hrest : content.drop BLOCK_SIZE ≠ [] := by
        rw [← length_pos_iff, length_drop]
        omega
      have hoffset : 1 * BLOCK_SIZE = (content.take BLOCK_SIZE).length := by
        rw [htaken, Nat.one_mul]
      have hwhole : (content.take BLOCK_SIZE).length + (content.drop BLOCK_SIZE).length ≤
          2 ^ 32 * BLOCK_SIZE := by
        rwa [← length_append, take_append_drop]
      obtain ⟨disk₂, hrun, hplaced'⟩ := run_readBlocks (h.placed hplaced) hrest hoffset hwhole
        hplaced.node_self
      refine ⟨disk₂, none, ?_, ?_⟩
      · rw [if_neg hlast, map_cons, handleBlockQueque_cons, hstep]
        simpa [hlast] using hrun
      · rw [take_append_drop] at hplaced'
        exact hplaced.trans hplaced'

end Entry

end Receiver

end DdeCooperation.Daemon
