import DdeCooperation.Coost.Files
import DdeCooperation.Foundations.Forest

/-!
# What a sending job sends

A sending `TransferJob` goes through the trees of its job paths and makes a block for every
directory and a sequence of blocks for every file. A block names its entry by a path below
the directory of the job path. For a directory this path is what remains of the whole path
when every occurrence of the job's directory is replaced by nothing. For a file it is put
together from the directory, without the job's directory at its start, and the name.

The blocks of a file carry its bytes, a block size at a time, with numbers that wrap around
at 32 bits. An empty file has one block. It opens the file and does not close it.

The job counts the entries twice, once for the size and once more when it makes the blocks.
A file that comes when the counter has become negative is left out.
-/

namespace DdeCooperation.Daemon

open Foundations Web Coost

def BLOCK_SIZE : ℕ := 1 * 1024 * 1024

/-- The bits of a block's flags. -/
structure JobTransFileOp where
  create : Bool := false
  close : Bool := false
  transOver : Bool := false
  dirCreate : Bool := false
  counting : Bool := false
  counted : Bool := false
deriving DecidableEq

structure FSDataBlock where
  filename : StdString := []
  blkId : ℕ := 0
  flags : JobTransFileOp := {}
  dataSize : ℕ := 0
  data : List UInt8 := []
deriving DecidableEq

/-- `base64_encode` and `base64_decode`. -/
structure Base64 where
  encode : StdString → StdString
  decode : StdString → StdString
  decode_encode : ∀ name, decode (encode name) = name
  encode_ne_nil : ∀ name, name ≠ [] → encode name ≠ []

namespace SendingJob

/-- The directory of a file below the root. -/
def getSubdir (path root : StdString) : StdString :=
  let filedir := (split path).1
  let indir := if root.length < filedir.length then removePrefix filedir root else []
  join indir []

/-- The block that a round of the loop makes. `rest` is what has not been read of the file. -/
def fileBlock (subname : StdString) (rest : List UInt8) (blockId : ℕ) (isOpen : Bool) :
    FSDataBlock :=
  { filename := subname
    blkId := blockId
    flags := { create := isOpen, close := rest.length ≤ BLOCK_SIZE }
    dataSize := (rest.take BLOCK_SIZE).length
    data := rest.take BLOCK_SIZE }

/-- The loop that reads a file. -/
def readBlocks (subname : StdString) (rest : List UInt8) (blockId : ℕ) (isOpen : Bool) :
    List FSDataBlock :=
  if rest.length ≤ BLOCK_SIZE then [fileBlock subname rest blockId isOpen]
  else
    fileBlock subname rest blockId isOpen ::
      readBlocks subname (rest.drop BLOCK_SIZE) ((blockId + 1) % 2 ^ 32) false
termination_by rest.length
decreasing_by
  rw [List.length_drop]
  unfold BLOCK_SIZE at *
  omega

/-- The counter `_fileid`, an `atomic_int`, after so many increments. -/
def fileidAfter (count : ℕ) : ℤ := Int.bmod count (2 ^ 32)

theorem fileidAfter_nonneg {count : ℕ} (h : count < 2 ^ 31) : ¬ fileidAfter count < 0 := by
  have hself : fileidAfter count = count := by
    apply Int.bmod_eq_of_le
    · simp
    · simp
      omega
  rw [hself]
  exact Int.not_lt.mpr (Int.natCast_nonneg count)

def readFileBlock (fileid : ℤ) (subname : StdString) (content : List UInt8) : List FSDataBlock :=
  if fileid < 0 then []
  else if content = [] then [{ filename := subname, flags := { create := true } }]
  else readBlocks subname content 0 true

/-- `scanPath` for a file. -/
def readFile (root path : StdString) (fileid : ℤ) (content : List UInt8) : List FSDataBlock :=
  readFileBlock fileid (join (getSubdir path root) (split path).2) content

/-- The block that `scanPath` makes for a directory. -/
def dirBlock (root path : StdString) : FSDataBlock :=
  { filename := replace path root [], flags := { dirCreate := true } }

/-- `scanPath` for what is in a directory, after `count` increments of the counter. -/
def readPath (root : StdString) : StdString → ℕ → Forest UInt8 UInt8 → List FSDataBlock
  | _, _, .nil => []
  | dirpath, count, .file name content rest =>
    readFile root (join dirpath name) (fileidAfter (count + 1)) content ++
      readPath root dirpath (count + 1) rest
  | dirpath, count, .directory name inner rest =>
    let path := join dirpath name
    dirBlock root path ::
      (readPath root (join path []) (count + 1) inner ++
        readPath root dirpath (count + 1 + inner.size) rest)

/-- The size of what is in a directory, where whatever is empty counts as a page. -/
def totalSize : ℕ → Forest UInt8 UInt8 → ℕ
  | _, .nil => 0
  | count, .file _ content rest =>
    (if fileidAfter (count + 1) < 0 then 0 else if content = [] then 4096 else content.length) +
      totalSize (count + 1) rest
  | count, .directory _ inner rest =>
    4096 + totalSize (count + 1) inner + totalSize (count + 1 + inner.size) rest

/-- The entries of a directory that a job sends, each by the path `front ++ name`. -/
def scanPaths (front : StdString) : ℕ → Forest UInt8 UInt8 → List FSDataBlock
  | _, .nil => []
  | count, .file name content rest =>
    readFile (split (front ++ name)).1 (front ++ name) (fileidAfter (count + 1)) content ++
      scanPaths front (count + 1) rest
  | count, .directory name inner rest =>
    let root := (split (front ++ name)).1
    dirBlock root (front ++ name) ::
      (readPath root (join (front ++ name) []) (count + 1) inner ++
        scanPaths front (count + 1 + inner.size) rest)

/-- The blocks that `start` queues. -/
def start (front : StdString) (entries : Forest UInt8 UInt8) : List FSDataBlock :=
  { flags := { counted := true }, dataSize := totalSize 0 entries } ::
    (scanPaths front entries.size entries ++ [{ flags := { transOver := true } }])

/-- The block that is sent while the job is still counting, and whenever the queue has been empty
for some time. -/
def countingBlock : FSDataBlock := { flags := { counting := true } }

/-- A block as it is transmitted. -/
def sendToRemote (base64 : Base64) (block : FSDataBlock) : FSDataBlock :=
  { block with
    filename := if block.filename = [] then [] else base64.encode block.filename
    blkId := block.blkId % 2 ^ 32 }

end SendingJob

end DdeCooperation.Daemon
