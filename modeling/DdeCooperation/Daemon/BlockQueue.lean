import DdeCooperation.Daemon.Blocks
import DdeCooperation.Daemon.SavePath

/-!
# What a receiving job does with the blocks

A receiving `TransferJob` takes the blocks from its queue one after the other and creates
directories and files. It keeps one file open. A block that creates a file while another one
is open closes that one and fails, but a block is tried three times.

The job with the number 1000 creates an entry under another name when its own is taken, and
records that name. How the name is chosen is a parameter here.
-/

namespace DdeCooperation.Daemon

open Foundations Web Coost

/-- An `fs::file`, which has no descriptor when it could not be opened. -/
structure File where
  fd : Option (Location UInt8)
deriving DecidableEq

inductive Progress where
  | running
  | finished
  | failed
deriving DecidableEq

structure Receiver where
  storageDir : StdString
  savedir : StdString
  jobid : ℤ
  deviceFreeSize : ℕ
  cwd : Location UInt8
  base64 : Base64
  reacquirePath : Storage → StdString → StdString

structure Receiving where
  disk : Storage
  fx : Option File := none
  acName : StdString → StdString := fun _ ↦ []
  progress : Progress := .running

namespace FSAdapter

/-- `fs::file(name, 'm')`. -/
def openFile (cwd : Location UInt8) (name : StdString) (disk : Storage) :
    Storage × File :=
  match disk.find slash dot cwd name with
  | none => (disk, ⟨none⟩)
  | some loc =>
    match disk.openFile loc with
    | some disk => (disk, ⟨some loc⟩)
    | none => (disk, ⟨none⟩)

/-- The first part of `writeBlock`, which fails if there is no result. -/
def prepare (cwd : Location UInt8) (name : StdString) (flags : JobTransFileOp)
    (disk : Storage) (fx : Option File) : Storage × Option File :=
  if flags.create then
    match fx with
    | some _ => (disk, none)
    | none =>
      let opened := openFile cwd name (fsMkdir cwd (dir name) disk).1
      if fsExists cwd name opened.1 then (opened.1, some opened.2) else (opened.1, none)
  else (disk, fx)

/-- The bytes written to an open file, unless it has no descriptor. -/
def writeTo (file : File) (seekLen : ℕ) (data : List UInt8) (disk : Storage) :
    Storage × Bool :=
  if data = [] then (disk, true)
  else
    match file.fd with
    | some loc => (disk.writeAt (UInt8.ofNat 0) loc seekLen data, true)
    | none => (disk, false)

def writeBlock (cwd : Location UInt8) (name : StdString) (seekLen : ℕ) (data : List UInt8)
    (flags : JobTransFileOp) (disk : Storage) (fx : Option File) :
    Storage × Option File × Bool :=
  match prepare cwd name flags disk fx with
  | (disk, none) => (disk, none, false)
  | (disk, some file) =>
    let written := writeTo file seekLen data disk
    (written.1, if flags.close || !written.2 then none else some file, written.2)

/-- A block is tried so many times. -/
def writeBlocks (cwd : Location UInt8) (name : StdString) (seekLen : ℕ) (data : List UInt8)
    (flags : JobTransFileOp) : ℕ → Storage → Option File →
      Storage × Option File × Bool
  | 0, disk, fx => (disk, fx, false)
  | count + 1, disk, fx =>
    match writeBlock cwd name seekLen data flags disk fx with
    | (disk, fx, true) => (disk, fx, true)
    | (disk, fx, false) => writeBlocks cwd name seekLen data flags count disk fx

end FSAdapter

namespace Receiver

variable (receiver : Receiver)

def job (acName : StdString → StdString) : SavingJob :=
  { storageDir := receiver.storageDir, savedir := receiver.savedir, acName := acName }

def writeAndCreateFile (block : FSDataBlock) (fullpath : StdString) (disk : Storage)
    (fx : Option File) : Storage × Option File × Bool :=
  if fullpath = [] ∧ ¬ block.flags.counted ∧ ¬ block.flags.counting ∧ ¬ block.flags.transOver then
    (disk, fx, false)
  else if block.flags.dirCreate then
    if fullpath = [] then (disk, fx, false)
    else
      let created := (fsMkdir receiver.cwd fullpath disk).1
      (created, fx, fsExists receiver.cwd fullpath created)
  else if block.flags.counted then (disk, fx, block.dataSize < receiver.deviceFreeSize)
  else if block.flags.counting ∨ block.flags.transOver then (disk, fx, true)
  else FSAdapter.writeBlocks receiver.cwd fullpath (block.blkId * BLOCK_SIZE) block.data
    block.flags 3 disk fx

/-- The name in a block. -/
def filename (block : FSDataBlock) : StdString :=
  if block.filename = [] then [] else receiver.base64.decode block.filename

/-- The path of a block that is not renamed. -/
def fullpath (state : Receiving) (block : FSDataBlock) : StdString :=
  if block.filename = [] then []
  else (receiver.job state.acName).savePath
    (state.disk.realpath slash dot receiver.cwd) (receiver.filename block)

/-- The entry has to be renamed. -/
def reacquired (state : Receiving) (block : FSDataBlock) : Bool :=
  block.filename ≠ [] ∧ receiver.jobid = 1000 ∧
    (block.flags.dirCreate ∨ block.flags.create) ∧
      fsExists receiver.cwd (receiver.fullpath state block) state.disk ∧
        (split (receiver.fullpath state block)).1 ≠ []

def setFileName (acName : StdString → StdString) (name newName : StdString) :
    StdString → StdString :=
  Function.update acName name newName

/-- One round of `handleBlockQueque`. -/
def handleBlock (state : Receiving) (block : FSDataBlock) : Receiving :=
  if state.progress ≠ .running then state
  else if block.flags.counting then state
  else
    let reacquired := receiver.reacquired state block
    let fullpath :=
      if reacquired then receiver.reacquirePath state.disk (receiver.fullpath state block)
      else receiver.fullpath state block
    match receiver.writeAndCreateFile block fullpath state.disk state.fx with
    | (disk, fx, false) => { state with disk := disk, fx := fx, progress := .failed }
    | (disk, fx, true) =>
      { disk := disk
        fx := fx
        acName :=
          if reacquired then
            setFileName state.acName (receiver.filename block)
              (replace fullpath ((receiver.job state.acName).saveFulldir ++ [slash]) [])
          else state.acName
        progress := if block.flags.transOver then .finished else .running }

def handleBlockQueque (state : Receiving) (blocks : List FSDataBlock) : Receiving :=
  blocks.foldl receiver.handleBlock state

end Receiver

end DdeCooperation.Daemon
