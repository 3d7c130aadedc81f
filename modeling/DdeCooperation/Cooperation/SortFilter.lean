import DdeCooperation.Cooperation.DiscoverController
import DdeCooperation.Foundations.Runs

/-!
# The sorted list of devices

`SortFilterWorker` keeps the devices that the window shows. It has a list of all devices and a
list of the visible ones, those whose name or address contains the text of the search. A device
is put behind the ones that it has to follow: connected devices come first, then those that
can be connected to, then the others. Among those that can be connected to, the ones in the
history of transfers are kept together as far as the positions of earlier devices let it.

The window does not see the lists. It is told where a device was inserted, moved, updated or
removed, and repeats that. Here a device is a value, and `ref` stands for the object with all
that the worker does not look at.
-/

namespace DdeCooperation.Cooperation

open Foundations

namespace SortFilter

open Discovery (Ip ConnectStatus)

structure DeviceInfo where
  ref : ℕ
  ipAddress : Ip
  deviceName : List Char
  connectStatus : ConnectStatus
  deriving DecidableEq

/-- What the window is told. -/
inductive Signal where
  | sortFilterResult (index : ℕ) (info : DeviceInfo)
  | deviceRemoved (index : ℕ)
  | deviceUpdated (index : ℕ) (info : DeviceInfo)
  | deviceMoved (source target : ℕ) (info : DeviceInfo)
  | filterFinished

structure Worker where
  visibleDeviceList : List DeviceInfo := []
  allDeviceList : List DeviceInfo := []
  filterText : List Char := []
  selfip : Ip := []
  isStoped : Bool := false
  /-- The addresses in the history of transfers. -/
  transHistory : List Ip := []

inductive Event where
  | addDevice (infoList : List DeviceInfo)
  | removeDevice (ip : Ip)
  | filterDevice (filter : List Char)
  | clear
  | onTransHistoryUpdated (history : List Ip)
  | setSelfip (ip : Ip)
  | stop

/-! ## Positions -/

section Positions

variable (history : List Ip)

def findFirst (list : List DeviceInfo) (state : ConnectStatus) : ℤ :=
  match list.findIdx? fun info ↦ info.connectStatus = state with
  | some index => index
  | none => -1

/-- The loop of `findLast`, over the devices from the last one on. -/
def findLastLoop (state : ConnectStatus) (isRecord : Bool) : List DeviceInfo → ℤ → ℤ → ℤ
  | [], startPos, endPos => min startPos endPos
  | info :: rest, startPos, endPos =>
    if info.connectStatus = state then
      let startPos := if startPos = -1 then (rest.length : ℤ) else startPos
      let endPos := (rest.length : ℤ)
      if !isRecord then startPos + 1
      else if info.ipAddress ∈ history then endPos + 1
      else findLastLoop state isRecord rest startPos endPos
    else findLastLoop state isRecord rest startPos endPos

def findLast (list : List DeviceInfo) (state : ConnectStatus) (info : DeviceInfo) : ℤ :=
  findLastLoop history state (info.ipAddress ∈ history) list.reverse (-1) (-1)

def calculateIndex (list : List DeviceInfo) (info : DeviceInfo) : ℤ :=
  match info.connectStatus with
  | .connected => 0
  | .connectable =>
    if findLast history list .connectable info ≠ -1 then
      findLast history list .connectable info
    else if findFirst list .offline ≠ -1 then findFirst list .offline
    else list.length
  | _ => list.length

def insertAt (list : List DeviceInfo) (index : ℤ) (info : DeviceInfo) : List DeviceInfo :=
  list.insertIdx index.toNat info

/-! ## Operations -/

def contains (list : List DeviceInfo) (info : DeviceInfo) : Bool :=
  list.any fun device ↦ device.ipAddress = info.ipAddress

/-- The list with the device, and what there is to tell. -/
def updateDevice (list : List DeviceInfo) (info : DeviceInfo) : List DeviceInfo × List Signal :=
  match list.findIdx? fun device ↦ device.ipAddress = info.ipAddress with
  | none => (list, [])
  | some index =>
    if list[index]?.map DeviceInfo.connectStatus ≠ some info.connectStatus then
      let list := list.eraseIdx index
      let target := calculateIndex history list info
      (insertAt list target info, [.deviceMoved index target.toNat info])
    else (list.set index info, [.deviceUpdated index info])

end Positions

/-- `QString::contains` without regard to case, for a given folding of characters. -/
def containsNoCase (fold : Char → Char) (text part : List Char) : Bool :=
  part.map fold <:+: text.map fold

/-- Whether a device is to be seen. -/
def matching (fold : Char → Char) (filter : List Char) (info : DeviceInfo) : Bool :=
  containsNoCase fold info.deviceName filter || containsNoCase fold info.ipAddress filter

namespace Worker

variable (fold : Char → Char) (w : Worker)

/-- A device that is not in the list. -/
def addNew (info : DeviceInfo) : Worker × List Signal :=
  let info := if info.connectStatus = .unknown then { info with connectStatus := .connectable }
    else info
  let index := calculateIndex w.transHistory w.allDeviceList info
  let allDeviceList := insertAt w.allDeviceList index info
  if w.filterText ≠ [] then
    if matching fold w.filterText info then
      let index := calculateIndex w.transHistory w.visibleDeviceList info
      ({ w with
          allDeviceList := allDeviceList
          visibleDeviceList := insertAt w.visibleDeviceList index info },
        [.sortFilterResult index.toNat info])
    else ({ w with allDeviceList := allDeviceList }, [])
  else
    -- The position in the other list is used.
    ({ w with
        allDeviceList := allDeviceList
        visibleDeviceList := insertAt w.visibleDeviceList index info },
      [.sortFilterResult index.toNat info])

/-- A device that is in the list: both lists are updated on their own. -/
def update (info : DeviceInfo) : Worker × List Signal :=
  let (allDeviceList, _) := updateDevice w.transHistory w.allDeviceList info
  if contains w.visibleDeviceList info then
    let (visibleDeviceList, signals) := updateDevice w.transHistory w.visibleDeviceList info
    ({ w with allDeviceList := allDeviceList, visibleDeviceList := visibleDeviceList }, signals)
  else ({ w with allDeviceList := allDeviceList }, [])

/-- One device of those that are added. -/
def addOne (info : DeviceInfo) : Worker × List Signal :=
  if info.ipAddress = w.selfip then (w, [])
  else if contains w.allDeviceList info then w.update info
  else w.addNew fold info

/-- The loop of `addDevice`. -/
def addAll (w : Worker) : List DeviceInfo → Worker × List Signal
  | [] => (w, [])
  | info :: rest =>
    let (w, signals) := w.addOne fold info
    let (w, more) := addAll w rest
    (w, signals ++ more)

def addDevice (infoList : List DeviceInfo) : Worker × List Signal :=
  if w.isStoped then (w, [])
  else
    let (w, signals) := w.addAll fold infoList
    (w, signals ++ [.filterFinished])

/-- Only a visible device is found. -/
def removeDevice (ip : Ip) : Worker × List Signal :=
  match w.visibleDeviceList.findIdx? fun device ↦ device.ipAddress = ip with
  | none => (w, [])
  | some index =>
    match w.visibleDeviceList[index]? with
    | none => (w, [])
    | some device =>
      ({ w with
          allDeviceList := w.allDeviceList.erase device
          visibleDeviceList := w.visibleDeviceList.eraseIdx index },
        [.deviceRemoved index])

def filterDevice (filter : List Char) : Worker × List Signal :=
  let visibleDeviceList := w.allDeviceList.filter (matching fold filter)
  ({ w with filterText := filter, visibleDeviceList := visibleDeviceList },
    visibleDeviceList.mapIdx .sortFilterResult ++ [.filterFinished])

def step : Event → Worker × List Signal
  | .addDevice infoList => w.addDevice fold infoList
  | .removeDevice ip => w.removeDevice ip
  | .filterDevice filter => w.filterDevice fold filter
  | .clear => ({ w with allDeviceList := [], visibleDeviceList := [] }, [])
  | .onTransHistoryUpdated history => ({ w with transHistory := history }, [])
  | .setSelfip ip => ({ w with selfip := ip }, [])
  | .stop => ({ w with isStoped := true }, [])

end Worker

/-! ## What the window shows -/

def Signal.apply (shown : List DeviceInfo) : Signal → List DeviceInfo
  | .sortFilterResult index info => shown.insertIdx index info
  | .deviceRemoved index => shown.eraseIdx index
  | .deviceUpdated index info => shown.set index info
  | .deviceMoved source target info => (shown.eraseIdx source).insertIdx target info
  | .filterFinished => shown

/-- The worker, and the list of one who repeats what it tells. -/
structure Watched where
  worker : Worker := {}
  shown : List DeviceInfo := []

namespace Watched

/-- The list is emptied before the devices are filtered and when they are cleared. -/
def resets : Event → Bool
  | .filterDevice _ => true
  | .clear => true
  | _ => false

def step (fold : Char → Char) (s : Watched) (event : Event) : Watched :=
  let (worker, signals) := s.worker.step fold event
  ⟨worker, signals.foldl Signal.apply (if resets event then [] else s.shown)⟩

end Watched

end SortFilter

end DdeCooperation.Cooperation
