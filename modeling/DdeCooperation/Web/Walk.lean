import DdeCooperation.Foundations.Computation
import DdeCooperation.Foundations.Trees
import DdeCooperation.Web.Naming

/-!
# Walking through a remote folder

A receiver asks for the information of each offered name. `FileServer::serveInfo` answers
with the entries of a directory, where a directory has the size -1. The receiver creates an
empty file at once, downloads a file, and walks through a folder: it creates the folder,
collects the files in it and below it in a queue, and then downloads what is in the queue.

`Remote` is what the requests are answered with, in whatever way it depends on the requests
before. A `Transfer` is the receiver's file system with the requests it made and what it
reported. A walk halts when a name cannot be found, in the two ways of
`createNextAvailableName`, or when the folders are nested deeper than a given bound: the
source has no bound, and a remote can answer as if its folders had no end.
-/

namespace DdeCooperation.Web

open Foundations BaseKit

/-! ## Listings -/

/-- An entry of a listing. -/
structure InfoItem where
  name : StdString
  size : ℤ
deriving DecidableEq

structure InfoEntry where
  name : StdString := []
  size : ℤ := 0
  datas : List InfoItem := []
deriving DecidableEq

namespace FileServer

variable (process : Process UInt8)

def putFileInfo (fs : FileSystem UInt8) (entry : StdString) : Except Refusal InfoItem :=
  match Path.type process entry fs with
  | .error e => .error e
  | .ok (some .directory) => .ok ⟨Path.filename entry, -1⟩
  | .ok (some (.file size)) => .ok ⟨Path.filename entry, size⟩
  | .ok none => .ok ⟨Path.filename entry, 0⟩

/-- The paths that a directory is iterated over with. -/
def iterate (fs : FileSystem UInt8) (path : StdString) : Except Refusal (List StdString) :=
  match process.list slash dot (cStr path) fs with
  | none => .error .refused
  | some names => .ok (names.map (Path.append path))

/-- The listing that is sent, or none for an answer that nothing was found. -/
def serveInfo (fs : FileSystem UInt8) (path : StdString) : Except Refusal (Option InfoEntry) :=
  match Path.type process path fs with
  | .error e => .error e
  | .ok none => .ok none
  | .ok (some node) => do
    let info ← putFileInfo process fs path
    let items ← if node = .directory then iterate process fs path else pure []
    let datas ← items.mapM (putFileInfo process fs)
    return some { name := info.name, size := info.size, datas := datas }

end FileServer

/-! ## Requests -/

inductive HeaderInfo where
  | INFO_WEB_START
  | INFO_WEB_FINISH
  | INFO_WEB_INDEX
deriving DecidableEq

inductive Request where
  | head (mask : HeaderInfo) (name : StdString)
  | info (name : StdString)
  | download (name : StdString)
deriving DecidableEq

/-- How a download went: whether the header came, how many bytes there were to write, and
whether the download counts as completed. -/
structure Served where
  header : Bool
  size : ℕ
  completed : Bool
deriving DecidableEq

/-- The answers to the requests, which may depend on the requests before. No answer stands for
one that says that nothing was found, and for every failure. -/
structure Remote where
  info : List Request → StdString → Option InfoEntry
  content : List Request → StdString → Served

/-- The disk of a sender and what it has bound. -/
structure Sender where
  binder : WebBinder
  process : Process UInt8
  fs : FileSystem UInt8

/-- A sender whose connections never fail. -/
def Sender.remote (sender : Sender) : Remote where
  info _ name :=
    match FileServer.serveInfo sender.process sender.fs (sender.binder.getPath name) with
    | .ok info => info
    | .error _ => none
  content _ name :=
    match Path.type sender.process (sender.binder.getPath name) sender.fs with
    | .ok (some .directory) => ⟨true, 0, true⟩
    | .ok (some (.file size)) => ⟨true, size, true⟩
    | _ => ⟨false, 0, false⟩

/-! ## The walk -/

inductive Progress where
  | WEB_TRANS_START
  | WEB_INDEX_BEGIN (name : StdString)
  | WEB_TRANS_FINISH
  | WEB_IO_ERROR
deriving DecidableEq

structure Transfer where
  fs : FileSystem UInt8
  requests : List Request := []
  reports : List Progress := []

inductive Halt where
  | thrown
  | searching
  | tooDeep
deriving DecidableEq

abbrev Walk := Computation Transfer Halt

/-- Where and as whom the client stores files; `rounds` bounds the search for a number. -/
structure Receiver where
  process : Process UInt8
  home : Option StdString
  savedir : StdString
  rounds : ℕ

namespace FileClient

def report (progress : Progress) : Walk Unit :=
  modify fun transfer ↦ { transfer with reports := transfer.reports ++ [progress] }

variable (receiver : Receiver) (remote : Remote)

def available (name : StdString) (isfile : Bool) : Walk StdString := do
  let transfer ← get
  let (fs, outcome) := createNextAvailableName receiver.process isfile receiver.home
    receiver.savedir receiver.rounds name transfer.fs
  set { transfer with fs := fs }
  match outcome with
  | .returned path => return path
  | .thrown => throw .thrown
  | .searching => throw .searching

/-- The answer to a HEAD request is not looked at. -/
def sendInfobyHeader (mask : HeaderInfo) (name : StdString) : Walk Unit :=
  modify fun transfer ↦ { transfer with requests := transfer.requests ++ [.head mask name] }

def requestInfo (name : StdString) : Walk InfoEntry := do
  let transfer ← get
  set { transfer with requests := transfer.requests ++ [Request.info name] }
  return (remote.info transfer.requests name).getD {}

/-- What a download leaves of the file that was created for it. -/
def received (path : StdString) (served : Served) (fs : FileSystem UInt8) : FileSystem UInt8 :=
  match if served.header then receiver.process.write slash dot (cStr path) served.size fs else none with
  | some fs => if served.completed then fs else receiver.process.removeEmpty slash dot (cStr path) fs
  | none => receiver.process.removeEmpty slash dot (cStr path) fs

def downloadFile (name rename : StdString) : Walk Unit := do
  let avaipath ← available receiver (if rename = [] then name else rename) true
  if avaipath = [] then report .WEB_IO_ERROR
  else
    let transfer ← get
    set { transfer with
      fs := received receiver avaipath (remote.content transfer.requests name) transfer.fs
      requests := transfer.requests ++ [Request.download name] }

/-- An entry of a folder below the first one, where `nested` walks through a folder. -/
def folderEntryStep (nested : StdString → List StdString → Walk (List StdString)) (name : StdString)
    (entryQueue : List StdString) (entry : InfoItem) : Walk (List StdString) :=
  let subName := name ++ slash :: entry.name
  if entry.size < 0 then nested subName entryQueue
  else if 0 < entry.size then pure (entryQueue ++ [subName])
  else pure entryQueue

/-- The files of a folder and below it, behind those in the queue. -/
def walkFolderEntry : ℕ → StdString → List StdString → Walk (List StdString)
  | 0, _, _ => throw .tooDeep
  | depth + 1, name, entryQueue => do
    let info ← requestInfo remote name
    info.datas.foldlM (folderEntryStep (walkFolderEntry depth) name) entryQueue

/-- The name with its first part replaced. -/
def renamed (name rename subName : StdString) : StdString :=
  if rename = [] then [] else rename ++ subName.drop name.length

/-- An entry of the first folder, which may have another name here. -/
def folderStep (depth : ℕ) (name rename : StdString) (folderEntryQueue : List StdString)
    (entry : InfoItem) : Walk (List StdString) :=
  let subName := name ++ slash :: entry.name
  if entry.size < 0 then walkFolderEntry remote depth subName folderEntryQueue
  else if 0 < entry.size then pure (folderEntryQueue ++ [subName])
  else do
    let saveName := if rename = [] then subName else renamed name rename subName
    let _ ← available receiver saveName true
    return folderEntryQueue

def walkFolder (depth : ℕ) (name : StdString) : Walk Unit := do
  let replacePath ← available receiver name false
  if replacePath = [] then return ()
  else
    let avainame := Path.filename replacePath
    let rename := if name = avainame then [] else avainame
    let info ← requestInfo remote name
    let folderEntryQueue ← info.datas.foldlM (folderStep receiver remote depth name rename) []
    folderEntryQueue.foldlM (fun _ subName ↦
      downloadFile receiver remote subName (renamed name rename subName)) ()

def walkName (depth : ℕ) (name : StdString) : Walk Unit := do
  sendInfobyHeader .INFO_WEB_INDEX name
  report (.WEB_INDEX_BEGIN name)
  let info ← requestInfo remote name
  if info.size = 0 then
    let _ ← available receiver name true
    return ()
  else if 0 < info.size then downloadFile receiver remote name []
  else walkFolder receiver remote depth name

def walkDownload (depth : ℕ) (webnames : List StdString) : Walk Unit := do
  sendInfobyHeader .INFO_WEB_START []
  report .WEB_TRANS_START
  webnames.foldlM (fun _ name ↦ walkName receiver remote depth name) ()
  sendInfobyHeader .INFO_WEB_FINISH []
  report .WEB_TRANS_FINISH

end FileClient

end DdeCooperation.Web
