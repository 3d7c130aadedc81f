import DdeCooperation.Foundations.Runs
import DdeCooperation.Foundations.Volume
import DdeCooperation.Web.Walk

/-!
# The downloading thread

`FileClient::walkDownload` runs on a thread of its own. Here it is a machine that moves from
one request to the next, so that each answer, and each call of `stop`, is an event. What the
recursion over the folders has still to do is part of the state: the entries that have not
been looked at, those of an inner folder before the others, and the queue of the files.
`Following` relates its runs to the recursion of `Walk`.

The answer to a request for information is none when the request fails in whatever way: it
runs out of time, it is refused, or the connection is cut off. The thread goes on with an
entry without size and contents. A download says with which content the file was to be
sent, and what was delivered of it.

The last four fields of a `Fetch` are records for the statements about it: the names whose
information was not given, the files with something in them that were found, those that were
downloaded with their whole content, and the names for which something was created.
-/

namespace DdeCooperation.Web

open Foundations BaseKit

/-- How a download went: whether the header came, the bytes that there were to write, and
whether the download counts as completed. -/
structure Delivery where
  header : Bool
  bytes : List UInt8
  completed : Bool

def Delivery.served (delivery : Delivery) : Served :=
  ⟨delivery.header, delivery.bytes.length, delivery.completed⟩

namespace Fetch

/-- The offered folder that is walked through, and what its name is replaced by. -/
structure Folder where
  name : StdString
  rename : StdString

/-- An entry of a listing, with its whole name, and whether it is in the offered folder itself. -/
structure Entry where
  first : Bool
  name : StdString
  size : ℤ

/-- What the thread does next, or which answer it waits for. -/
inductive Control where
  /-- The head of the loop over the offered names. -/
  | index
  /-- Waits for the information of an offered name. -/
  | info (name : StdString)
  | file (name : StdString)
  | folder (name : StdString)
  /-- Waits for the entries of an offered folder. -/
  | listing (folder : Folder)
  | entries (folder : Folder) (pending : List Entry) (queue : List StdString)
  /-- Waits for the entries of an inner folder. -/
  | nested (folder : Folder) (name : StdString) (pending : List Entry) (queue : List StdString)
  | queue (folder : Folder) (queue : List StdString)
  /-- Waits for the end of a download. -/
  | download (name path : StdString) (next : Control)
  /-- The look at the stop flag at the end of the loop. -/
  | check
  | ended

inductive Event where
  /-- The thread moves on. -/
  | go
  | info (answer : Option InfoEntry)
  | served (content : List UInt8) (delivery : Delivery)
  | stop

end Fetch

open Fetch

structure Fetch where
  volume : Volume UInt8 UInt8
  /-- The offered names that the loop has not come to. -/
  names : List StdString
  control : Control := .index
  stop : Bool := false
  requests : List Request := []
  reports : List Progress := []
  unanswered : List StdString := []
  found : List StdString := []
  fetched : List StdString := []
  created : List StdString := []

namespace Fetch

def request (made : Request) (s : Fetch) : Fetch := { s with requests := s.requests ++ [made] }

def report (progress : Progress) (s : Fetch) : Fetch := { s with reports := s.reports ++ [progress] }

def goto (control : Control) (s : Fetch) : Fetch := { s with control := control }

/-- A file with something in it is found. -/
def find (name : StdString) (s : Fetch) : Fetch := { s with found := s.found ++ [name] }

/-- The information of a name is given, or not. -/
def hear (name : StdString) (answer : Option InfoEntry) (s : Fetch) : Fetch :=
  if answer.isNone then { s with unanswered := s.unanswered ++ [name] } else s

/-- The entries of a folder. -/
def entriesOf (first : Bool) (name : StdString) (info : InfoEntry) : List Entry :=
  info.datas.map fun item ↦ ⟨first, name ++ slash :: item.name, item.size⟩

section Steps

variable (receiver : Receiver)

/-- `createNextAvailableName` for a name of the remote. There is no path when the call does not
return. -/
def place (name saveName : StdString) (isfile : Bool) (s : Fetch) : Fetch × Option StdString :=
  let (fs, outcome) := FileClient.createNextAvailableName receiver.process isfile receiver.home
    receiver.savedir receiver.rounds saveName s.volume.fs
  let grown := fs.nodes.keys.any (· ∉ s.volume.fs.nodes)
  let s := { s with
    volume := .ofContent 0 fs s.volume.content
    created := if grown then s.created ++ [name] else s.created }
  match outcome with
  | .returned path => (s, some path)
  | .thrown => (s.goto .ended, none)
  | .searching => (s.goto .ended, none)

/-- An empty file. -/
def create (name saveName : StdString) (next : Control) (s : Fetch) : Fetch :=
  match s.place receiver name saveName true with
  | (s, none) => s
  | (s, some _) => s.goto next

/-- `downloadFile`, up to its request. -/
def startDownload (name rename : StdString) (next : Control) (s : Fetch) : Fetch :=
  match s.place receiver name (if rename = [] then name else rename) true with
  | (s, none) => s
  | (s, some avaipath) =>
    if avaipath = [] then (s.report .WEB_IO_ERROR).goto next
    else (s.request (.download name)).goto (.download name avaipath next)

/-- `walkFolder`, up to its request. -/
def startFolder (name : StdString) (s : Fetch) : Fetch :=
  match s.place receiver name name false with
  | (s, none) => s
  | (s, some replacePath) =>
    if replacePath = [] then s.goto .check
    else
      let avainame := Path.filename replacePath
      let rename := if name = avainame then [] else avainame
      (s.request (.info name)).goto (.listing ⟨name, rename⟩)

/-- The loops over the entries of a folder and of the folders in it. -/
def lookAt (folder : Folder) (queue : List StdString) (entry : Entry) (pending : List Entry)
    (s : Fetch) : Fetch :=
  if entry.size < 0 then
    (s.request (.info entry.name)).goto (.nested folder entry.name pending queue)
  else if 0 < entry.size then
    (s.find entry.name).goto (.entries folder pending (queue ++ [entry.name]))
  else if entry.first then
    let saveName :=
      if folder.rename = [] then entry.name
      else FileClient.renamed folder.name folder.rename entry.name
    s.create receiver entry.name saveName (.entries folder pending queue)
  else s.goto (.entries folder pending queue)

def go (s : Fetch) : Fetch :=
  match s.control with
  | .index =>
    match s.names with
    | [] => ((s.request (.head .INFO_WEB_FINISH [])).report .WEB_TRANS_FINISH).goto .ended
    | name :: names =>
      let s := (s.request (.head .INFO_WEB_INDEX name)).report (.WEB_INDEX_BEGIN name)
      { (s.request (.info name)).goto (.info name) with names := names }
  | .file name => s.startDownload receiver name [] .check
  | .folder name => s.startFolder receiver name
  | .entries folder [] queue => s.goto (.queue folder queue)
  | .entries folder (entry :: pending) queue =>
    -- The flag is looked at before each entry, in the inner loops as well.
    if s.stop then s.goto (.queue folder queue) else s.lookAt receiver folder queue entry pending
  | .queue _ [] => s.goto .check
  | .queue folder (subName :: queue) =>
    if s.stop then s.goto .check
    else
      let rename := FileClient.renamed folder.name folder.rename subName
      s.startDownload receiver subName rename (.queue folder queue)
  | .check => s.goto (if s.stop then .ended else .index)
  | _ => s

def onInfo (answer : Option InfoEntry) (s : Fetch) : Fetch :=
  let info := answer.getD {}
  match s.control with
  | .info name =>
    let s := s.hear name answer
    -- The loop goes on without a look at the stop flag.
    if info.size = 0 then s.create receiver name name .index
    else if 0 < info.size then (s.find name).goto (.file name)
    else s.goto (.folder name)
  | .listing folder =>
    (s.hear folder.name answer).goto (.entries folder (entriesOf true folder.name info) [])
  | .nested folder name pending queue =>
    (s.hear name answer).goto (.entries folder (entriesOf false name info ++ pending) queue)
  | _ => s

/-- The bytes of a download are written to a file. -/
def stores (path : StdString) (delivery : Delivery) (v : Volume UInt8 UInt8) : Bool :=
  delivery.header &&
    (receiver.process.write slash dot (cStr path) delivery.bytes.length v.fs).isSome

/-- What a download leaves of the file that was created for it, with its content. -/
def deliver (path : StdString) (delivery : Delivery) (v : Volume UInt8 UInt8) :
    Volume UInt8 UInt8 :=
  .ofContent 0 (FileClient.received receiver path delivery.served v.fs)
    (if stores receiver path delivery v then
      Function.update v.content (receiver.process.locate slash dot (cStr path)) delivery.bytes
    else v.content)

def onServed (content : List UInt8) (delivery : Delivery) (s : Fetch) : Fetch :=
  match s.control with
  | .download name path next =>
    let whole := stores receiver path delivery s.volume && delivery.bytes = content
    { s with
      volume := deliver receiver path delivery s.volume
      fetched := if whole then s.fetched ++ [name] else s.fetched
      control := next }
  | _ => s

def step (s : Fetch) : Event → Fetch
  | .go => s.go receiver
  | .info answer => s.onInfo receiver answer
  | .served content delivery => s.onServed receiver content delivery
  | .stop => { s with stop := true }

end Steps

/-- The thread has reported the start. -/
def start (volume : Volume UInt8 UInt8) (webnames : List StdString) : Fetch where
  volume := volume
  names := webnames
  requests := [.head .INFO_WEB_START []]
  reports := [.WEB_TRANS_START]

/-- The thread after some events. -/
def after (receiver : Receiver) (volume : Volume UInt8 UInt8) (webnames : List StdString)
    (events : List Event) : Fetch :=
  events.foldl (step receiver) (start volume webnames)

end Fetch

end DdeCooperation.Web
