import Mathlib.Data.Finset.Basic

/-!
# The list of discovered devices

`DiscoverController` keeps a list of devices, which it fills from three sources: services
of the local network, the hosts of the older discovery, and the history of connections.
Beside the list it has one device that was searched for by its address. With `deviceOnline`
and `deviceOffline` it tells others what has changed. Devices are shared objects: the list,
the searched device and the callers may hold the same one, and any of them sees a change of
its status.

The addresses of the list decide what others see. Here is what each loop does to them.
-/

namespace DdeCooperation.Cooperation

open List Function

namespace Discovery

abbrev Ip := List Char

inductive ConnectStatus where
  | unknown
  | connected
  | connectable
  | offline
  deriving DecidableEq

/-- A shared object. Its address is set before anyone else sees it. -/
structure Device where
  ref : ℕ
  ip : Ip
  deriving DecidableEq

/-- What a service of the local network says of itself; without any text the address is
empty. -/
structure Service where
  name : List Char
  ip : Ip

/-- A device as JSON: only `Everyone` lets it be discovered. -/
structure DeviceJson where
  ip : Ip
  deviceName : List Char
  everyone : Bool

def DeviceJson.isValid (info : DeviceJson) : Bool := !(info.deviceName.isEmpty || info.ip.isEmpty)

inductive Signal where
  | deviceOnline (devices : List Device)
  | deviceOffline (ip : Ip)
  | discoveryFinished (hasFound : Bool)

structure Controller where
  onlineDeviceList : List Device
  searchDevice : Option Device
  historyDevices : List Ip
  connectedDevice : Ip
  ipfilter : Ip
  /-- The status of each object. -/
  status : ℕ → ConnectStatus
  /-- The number of the next object. -/
  next : ℕ

inductive Event where
  | addService (service : Service)
  | updateService (service : Service)
  | removeService (service : Service)
  /-- The JSON text of each host, unless it cannot be parsed, and its two addresses. -/
  | compatAddDeivces (localIp : Ip) (infoMap : List (Option DeviceJson × List Char))
  | compatRemoveDeivce (ip : Ip)
  /-- A caller passes an object after setting its status. -/
  | updateDeviceState (device : Device) (status : ConnectStatus)
  | addSearchDeivce (info : Option DeviceJson)
  | onConnectHistoryUpdated (history : List Ip)
  | updateHistoryDevices (connectMap : List Ip)
  /-- Without services, the daemon is not active. -/
  | refresh (zeroConf : Bool) (localIp : Ip) (services : Option (List Service))
  | publish (selfIp : Ip)

namespace Controller

variable (c : Controller)

def ips : List Ip := c.onlineDeviceList.map Device.ip

def findDeviceByIP (ip : Ip) : Option Device := c.onlineDeviceList.find? fun device ↦ device.ip = ip

/-- A new object. -/
def create (ip : Ip) (status : ConnectStatus) : Device × Controller :=
  (⟨c.next, ip⟩, { c with next := c.next + 1, status := update c.status c.next status })

def append (device : Device) : Controller :=
  { c with onlineDeviceList := c.onlineDeviceList ++ [device] }

/-- The device with the address is removed, if there is one. -/
def removeByIP (ip : Ip) : Controller :=
  match c.findDeviceByIP ip with
  | some device => { c with onlineDeviceList := c.onlineDeviceList.erase device }
  | none => c

/-- Addresses of the history are not filtered. -/
def isVaildDevice (ip : Ip) : Bool :=
  !ip.isEmpty && (c.historyDevices.contains ip || c.ipfilter.isPrefixOf ip)

/-- The status that a valid device of a service gets. -/
def parseDeviceService (service : Service) : Option ConnectStatus :=
  if c.isVaildDevice service.ip then
    match c.findDeviceByIP service.ip with
    | some old => some (c.status old.ref)
    | none => some .connectable
  else none

def deviceLosted (ip : Ip) : Controller × List Signal :=
  match c.findDeviceByIP ip with
  | some oldinfo =>
    if c.historyDevices.contains ip then
      ({ c with status := update c.status oldinfo.ref .offline },
        [.deviceOnline [oldinfo]])
    else (c.removeByIP ip, [.deviceOffline ip])
  | none => (c, [.deviceOffline ip])

def addService (zeroconfname : List Char) (service : Service) : Controller × List Signal :=
  if service.name = zeroconfname then (c, [])
  else
    match c.parseDeviceService service with
    | none => (c, [])
    | some status =>
      let (device, c) := c.create service.ip status
      (c.append device, [.deviceOnline [device]])

def updateService (zeroconfname : List Char) (service : Service) : Controller × List Signal :=
  if service.name = zeroconfname then (c, [])
  else
    match c.parseDeviceService service with
    | none => (c, [])
    | some status =>
      let (device, c) := c.create service.ip status
      ((c.removeByIP service.ip).append device, [.deviceOnline [device]])

def removeService (service : Service) : Controller × List Signal :=
  match c.parseDeviceService service with
  | none => (c, [])
  | some _ => c.deviceLosted service.ip

def updateDeviceState (device : Device) (status : ConnectStatus) : Controller × List Signal :=
  let c := { c with status := update c.status device.ref status }
  let c := c.removeByIP device.ip
  let c := { c with connectedDevice := if status = ConnectStatus.connected then device.ip else [] }
  (c.append device, [.deviceOnline [device]])

/-- What is searched for is kept even if it is not valid. -/
def addSearchDeivce : Option DeviceJson → Controller × List Signal
  | none => (c, [.discoveryFinished false])
  | some info =>
    let (device, c) := c.create info.ip .connectable
    ({ c with searchDevice := some device },
      if info.isValid then [.deviceOnline [device]] else [])

/-- `split(", ")`. -/
def splitPair : List Char → List (List Char)
  | [] => [[]]
  | ',' :: ' ' :: rest => [] :: splitPair rest
  | first :: rest =>
    match splitPair rest with
    | [] => [[first]]
    | part :: parts => (first :: part) :: parts

/-- The addresses of a host that is taken into the list. -/
def compatIps (localIp : Ip) : Option DeviceJson × List Char → Option (Ip × Ip)
  | (none, _) => none
  | (some info, combinedIP) =>
    match splitPair combinedIP with
    | [ip, sharedip] => if ip = localIp ∨ info.everyone = false then none else some (ip, sharedip)
    | _ => none

def compatAddLoop (localIp : Ip) :
    List (Option DeviceJson × List Char) → Controller → Controller × List Device
  | [], c => (c, [])
  | entry :: rest, c =>
    match compatIps localIp entry with
    | none => compatAddLoop localIp rest c
    | some (ip, sharedip) =>
      let (device, c) := c.create ip
        (if sharedip = localIp ∨ c.connectedDevice = ip then .connected else .connectable)
      let (c, addedList) := compatAddLoop localIp rest (c.append device)
      (c, device :: addedList)

def onlineUnlessEmpty (devices : List Device) : List Signal :=
  if devices.isEmpty then [] else [.deviceOnline devices]

def compatAddDeivces (localIp : Ip) (infoMap : List (Option DeviceJson × List Char)) :
    Controller × List Signal :=
  let (c, addedList) := compatAddLoop localIp infoMap c
  (c, onlineUnlessEmpty addedList)

/-- Devices of the history that are not in the list are added, as offline. -/
def addHistoryLoop : List Ip → Controller → Controller × List Device
  | [], c => (c, [])
  | ip :: rest, c =>
    let c := { c with historyDevices := c.historyDevices ++ [ip] }
    match c.findDeviceByIP ip with
    | some _ => addHistoryLoop rest c
    | none =>
      let (device, c) := c.create ip .offline
      let (c, newDevices) := addHistoryLoop rest (c.append device)
      (c, device :: newDevices)

/-- The history is replaced. -/
def takeHistory (connectMap : List Ip) : Controller × List Device :=
  addHistoryLoop connectMap { c with historyDevices := [] }

def updateHistoryDevices (connectMap : List Ip) : Controller × List Signal :=
  let (c, offlineDevList) := c.takeHistory connectMap
  (c, onlineUnlessEmpty offlineDevList)

/-- Devices of the former history that are not in the new one are removed. -/
def removeObsoleteLoop (history : List Ip) : List Ip → Controller → Controller × List Signal
  | [], c => (c, [])
  | oldIp :: rest, c =>
    if history.contains oldIp ∨ c.findDeviceByIP oldIp = none then
      removeObsoleteLoop history rest c
    else
      let (c, signals) := removeObsoleteLoop history rest (c.removeByIP oldIp)
      (c, .deviceOffline oldIp :: signals)

def onConnectHistoryUpdated (history : List Ip) : Controller × List Signal :=
  let (c, signals) := removeObsoleteLoop history c.historyDevices c
  let (c, newDevices) := c.takeHistory history
  (c, signals ++ onlineUnlessEmpty newDevices)

def collectAvahiLoop (localIp : Ip) : List Service → Controller → Controller
  | [], c => c
  | service :: rest, c =>
    match c.parseDeviceService service with
    | none => collectAvahiLoop localIp rest c
    | some status =>
      if service.ip = localIp then collectAvahiLoop localIp rest c
      else
        match c.findDeviceByIP service.ip with
        | some existing => collectAvahiLoop localIp rest
            { c with status := update c.status existing.ref status }
        | none =>
          let (device, c) := c.create service.ip
            (if c.connectedDevice = service.ip then .connected else status)
          collectAvahiLoop localIp rest (c.append device)

def collectAvahiDevices (localIp : Ip) (services : Option (List Service)) : Controller :=
  match services with
  | none => c
  | some services => collectAvahiLoop localIp services c

def addIfMissing (device : Device) : Controller :=
  match c.findDeviceByIP device.ip with
  | some _ => c
  | none => c.append device

/-- Devices of the history stay in the list while they are not offline. -/
def preserved : List Device :=
  c.onlineDeviceList.filter fun device ↦
    c.historyDevices.contains device.ip && c.status device.ref ≠ .offline

def refreshDeviceList (localIp : Ip) (services : Option (List Service)) : Controller :=
  let preservedHistoryDevices := c.preserved
  let c := { c with onlineDeviceList := [] }
  let c := c.collectAvahiDevices localIp services
  let c := preservedHistoryDevices.foldl addIfMissing c
  match c.searchDevice with
  | none => c
  | some device => c.addIfMissing device

def refresh (zeroConf : Bool) (localIp : Ip) (services : Option (List Service)) :
    Controller × List Signal :=
  if zeroConf then
    let c := c.refreshDeviceList localIp services
    (c, [.deviceOnline c.onlineDeviceList, .discoveryFinished (!c.onlineDeviceList.isEmpty)])
  else (c, [.discoveryFinished false])

/-- The part of the own address before its last dot. -/
def publish (selfIp : Ip) : Controller :=
  { c with
    ipfilter := if '.' ∈ selfIp then (selfIp.reverse.dropWhile (· ≠ '.')).tail.reverse else [] }

def step (zeroconfname : List Char) : Event → Controller × List Signal
  | .addService service => c.addService zeroconfname service
  | .updateService service => c.updateService zeroconfname service
  | .removeService service => c.removeService service
  | .compatAddDeivces localIp infoMap => c.compatAddDeivces localIp infoMap
  | .compatRemoveDeivce ip => c.deviceLosted ip
  | .updateDeviceState device status => c.updateDeviceState device status
  | .addSearchDeivce info => c.addSearchDeivce info
  | .onConnectHistoryUpdated history => c.onConnectHistoryUpdated history
  | .updateHistoryDevices connectMap => c.updateHistoryDevices connectMap
  | .refresh zeroConf localIp services => c.refresh zeroConf localIp services
  | .publish selfIp => (c.publish selfIp, [])

def init : Controller where
  onlineDeviceList := []
  searchDevice := none
  historyDevices := []
  connectedDevice := []
  ipfilter := []
  status _ := .unknown
  next := 0

end Controller

/-- Inserts or replaces, and removes, by address. -/
def observe (known : Finset Ip) : Signal → Finset Ip
  | .deviceOnline devices => known ∪ (devices.map Device.ip).toFinset
  | .deviceOffline ip => known.erase ip
  | .discoveryFinished _ => known

/-! ## The addresses of the list -/

namespace Controller

variable {c : Controller} {ip : Ip}

theorem findDeviceByIP_eq_none_iff : c.findDeviceByIP ip = none ↔ ip ∉ c.ips := by
  unfold findDeviceByIP ips
  rw [find?_eq_none]
  simp

variable {device : Device}

theorem mem_ips_of_findDeviceByIP (h : c.findDeviceByIP ip = some device) : ip ∈ c.ips := by
  by_contra hnot
  rw [findDeviceByIP_eq_none_iff.mpr hnot] at h
  cases h

@[simp]
theorem ips_append (device : Device) : (c.append device).ips = c.ips ++ [device.ip] := by
  simp [append, ips]

theorem nodup_ips_append (hc : c.ips.Nodup) (h : device.ip ∉ c.ips) :
    (c.append device).ips.Nodup := by
  rw [ips_append, ← concat_eq_append]
  exact hc.concat h

/-- The first device with an address is the one that is erased. -/
theorem map_erase_of_find? {devices : List Device}
    (h : (devices.find? fun device ↦ device.ip = ip) = some device) :
    (devices.erase device).map Device.ip = (devices.map Device.ip).erase ip := by
  induction devices with
  | nil => cases h
  | cons first rest ih =>
    by_cases hfirst : first.ip = ip
    · rw [find?_cons_of_pos (by simpa using hfirst)] at h
      rw [← Option.some.inj h, erase_cons_head, map_cons, hfirst, erase_cons_head]
    · rw [find?_cons_of_neg (by simpa using hfirst)] at h
      have hdevice : device.ip = ip := by simpa using find?_some h
      have hne : first ≠ device := fun heq ↦ hfirst (heq ▸ hdevice)
      rw [erase_cons_tail (by simpa using hne), map_cons, ih h, map_cons,
        erase_cons_tail (by simpa using hfirst)]

theorem ips_removeByIP (c : Controller) (ip : Ip) : (c.removeByIP ip).ips = c.ips.erase ip := by
  unfold removeByIP
  split
  · next device hfind => exact map_erase_of_find? hfind
  · next hfind => rw [erase_of_not_mem (findDeviceByIP_eq_none_iff.mp hfind)]

@[simp]
theorem searchDevice_removeByIP (c : Controller) (ip : Ip) :
    (c.removeByIP ip).searchDevice = c.searchDevice := by
  unfold removeByIP
  split <;> rfl

end Controller

/-! ## Loops -/

namespace Controller

theorem compatAddLoop_spec (localIp : Ip) (infoMap : List (Option DeviceJson × List Char))
    (c : Controller) :
    (compatAddLoop localIp infoMap c).2.map Device.ip =
        (infoMap.filterMap (compatIps localIp)).map Prod.fst ∧
      (compatAddLoop localIp infoMap c).1.ips =
        c.ips ++ (infoMap.filterMap (compatIps localIp)).map Prod.fst ∧
      (compatAddLoop localIp infoMap c).1.searchDevice = c.searchDevice := by
  induction infoMap generalizing c with
  | nil => simp [compatAddLoop]
  | cons entry rest ih =>
    unfold compatAddLoop
    split
    · next hentry =>
      rw [filterMap_cons_none hentry]
      exact ih c
    · next ip sharedip hentry =>
      rw [filterMap_cons_some hentry]
      dsimp only [create]
      obtain ⟨hadded, hips, hsearch⟩ := ih (append { c with
        next := c.next + 1
        status := update c.status c.next
          (if sharedip = localIp ∨ c.connectedDevice = ip then .connected else .connectable) }
        ⟨c.next, ip⟩)
      refine ⟨congrArg (cons ip) hadded, ?_, hsearch⟩
      rw [hips, ips_append, append_assoc]
      rfl

theorem addHistoryLoop_spec (connectMap : List Ip) (c : Controller) :
    (c.ips.Nodup → (addHistoryLoop connectMap c).1.ips.Nodup) ∧
      (∀ ip, ip ∈ (addHistoryLoop connectMap c).1.ips ↔
        ip ∈ c.ips ∨ ip ∈ (addHistoryLoop connectMap c).2.map Device.ip) ∧
      (∀ ip, ip ∈ (addHistoryLoop connectMap c).2.map Device.ip ↔ ip ∈ connectMap ∧ ip ∉ c.ips) ∧
      (addHistoryLoop connectMap c).1.searchDevice = c.searchDevice := by
  induction connectMap generalizing c with
  | nil => simp [addHistoryLoop]
  | cons first rest ih =>
    unfold addHistoryLoop
    dsimp only
    split
    · next hfind =>
      obtain ⟨hnodup, hips, hnew, hsearch⟩ := ih { c with
        historyDevices := c.historyDevices ++ [first] }
      refine ⟨hnodup, hips, fun ip ↦ (hnew ip).trans ?_, hsearch⟩
      have hfirst : first ∈ c.ips := mem_ips_of_findDeviceByIP hfind
      rw [mem_cons]
      constructor
      · rintro ⟨hrest, hnot⟩
        exact ⟨.inr hrest, hnot⟩
      · rintro ⟨rfl | hrest, hnot⟩
        · exact absurd hfirst hnot
        · exact ⟨hrest, hnot⟩
    · next hfind =>
      have hfirst : first ∉ c.ips := findDeviceByIP_eq_none_iff.mp hfind
      dsimp only [create]
      obtain ⟨hnodup, hips, hnew, hsearch⟩ := ih (append { c with
        historyDevices := c.historyDevices ++ [first], next := c.next + 1
        status := update c.status c.next .offline } ⟨c.next, first⟩)
      have hstart : ∀ ip, ip ∈ (append { c with
          historyDevices := c.historyDevices ++ [first], next := c.next + 1
          status := update c.status c.next .offline } ⟨c.next, first⟩).ips ↔
            ip ∈ c.ips ∨ ip = first := by
        intro ip
        rw [ips_append, mem_append, mem_singleton]
        rfl
      refine ⟨fun h ↦ hnodup (nodup_ips_append h hfirst), fun ip ↦ ?_, fun ip ↦ ?_, hsearch⟩
      · rw [hips, hstart, map_cons, mem_cons]
        tauto
      · rw [map_cons, mem_cons, hnew, hstart, mem_cons]
        constructor
        · rintro (rfl | ⟨hrest, hnot⟩)
          · exact ⟨.inl rfl, hfirst⟩
          · exact ⟨.inr hrest, fun h ↦ hnot (.inl h)⟩
        · rintro ⟨rfl | hrest, hnot⟩
          · exact .inl rfl
          · by_cases heq : ip = first
            · exact .inl heq
            · exact .inr ⟨hrest, fun h ↦ h.elim hnot heq⟩

theorem takeHistory_spec (connectMap : List Ip) (c : Controller) :
    (c.ips.Nodup → (c.takeHistory connectMap).1.ips.Nodup) ∧
      (∀ ip, ip ∈ (c.takeHistory connectMap).1.ips ↔
        ip ∈ c.ips ∨ ip ∈ (c.takeHistory connectMap).2.map Device.ip) ∧
      (∀ ip, ip ∈ (c.takeHistory connectMap).2.map Device.ip ↔ ip ∈ connectMap ∧ ip ∉ c.ips) ∧
      (c.takeHistory connectMap).1.searchDevice = c.searchDevice :=
  addHistoryLoop_spec connectMap { c with historyDevices := [] }

theorem removeObsoleteLoop_spec (history olds : List Ip) (c : Controller) (hc : c.ips.Nodup)
    (known : Finset Ip) :
    (removeObsoleteLoop history olds c).1.ips.Nodup ∧
      (∀ ip, ip ∈ (removeObsoleteLoop history olds c).1.ips ↔
        ip ∈ c.ips ∧ (ip ∈ olds → ip ∈ history)) ∧
      (∀ ip, ip ∈ (removeObsoleteLoop history olds c).2.foldl observe known ↔
        ip ∈ known ∧ (ip ∈ c.ips → ip ∈ olds → ip ∈ history)) ∧
      (removeObsoleteLoop history olds c).1.searchDevice = c.searchDevice := by
  induction olds generalizing c known with
  | nil => simp [removeObsoleteLoop, hc]
  | cons first rest ih =>
    unfold removeObsoleteLoop
    split
    · next hskip =>
      obtain ⟨hnodup, hips, hknown, hsearch⟩ := ih c hc known
      have hfirst : first ∈ history ∨ first ∉ c.ips := by
        rwa [findDeviceByIP_eq_none_iff, contains_iff_mem] at hskip
      have hsame : ∀ ip ∈ c.ips, (ip ∈ rest → ip ∈ history) ↔
          (ip ∈ first :: rest → ip ∈ history) := by
        intro ip hip
        rw [mem_cons]
        refine ⟨fun h ↦ ?_, fun h hrest ↦ h (.inr hrest)⟩
        rintro (rfl | hrest)
        · exact hfirst.resolve_right fun hnot ↦ hnot hip
        · exact h hrest
      refine ⟨hnodup, fun ip ↦ (hips ip).trans ?_, fun ip ↦ (hknown ip).trans ?_, hsearch⟩
      · exact and_congr_right (hsame ip)
      · exact and_congr_right fun _ ↦ forall_congr' (hsame ip)
    · next hremove =>
      have hfirst : first ∉ history ∧ first ∈ c.ips := by
        rw [findDeviceByIP_eq_none_iff, contains_iff_mem, not_or, not_not] at hremove
        exact hremove
      have hnodup : (c.removeByIP first).ips.Nodup := by
        rw [ips_removeByIP]
        exact hc.erase first
      obtain ⟨hnodup, hips, hknown, hsearch⟩ := ih (c.removeByIP first) hnodup (known.erase first)
      have hmem : ∀ ip, ip ∈ (c.removeByIP first).ips ↔ ip ≠ first ∧ ip ∈ c.ips := by
        intro ip
        rw [ips_removeByIP, hc.mem_erase_iff]
      refine ⟨hnodup, fun ip ↦ ?_, fun ip ↦ ?_, hsearch.trans (searchDevice_removeByIP c first)⟩
      · rw [hips, hmem, mem_cons]
        constructor
        · rintro ⟨⟨hne, hip⟩, h⟩
          exact ⟨hip, fun hold ↦ h (hold.resolve_left hne)⟩
        · rintro ⟨hip, h⟩
          refine ⟨⟨?_, hip⟩, fun hrest ↦ h (.inr hrest)⟩
          rintro rfl
          exact hfirst.1 (h (.inl rfl))
      · rw [foldl_cons]
        change _ ∈ foldl observe (known.erase first) _ ↔ _
        rw [hknown, hmem, Finset.mem_erase, mem_cons]
        constructor
        · rintro ⟨⟨hne, hip⟩, h⟩
          exact ⟨hip, fun hips hold ↦ h ⟨hne, hips⟩ (hold.resolve_left hne)⟩
        · rintro ⟨hip, h⟩
          have hne : ip ≠ first := by
            rintro rfl
            exact hfirst.1 (h hfirst.2 (.inl rfl))
          exact ⟨⟨hne, hip⟩, fun hips hrest ↦ h hips.2 (.inr hrest)⟩

variable {c : Controller} {service : Service}

theorem parseDeviceService_eq_none_iff :
    c.parseDeviceService service = none ↔ ¬ c.isVaildDevice service.ip = true := by
  unfold parseDeviceService
  split
  · next hvalid =>
    refine iff_of_false (fun h ↦ ?_) (not_not.mpr hvalid)
    split at h <;> cases h
  · next hvalid => exact iff_of_true rfl hvalid

theorem isVaildDevice_of_parseDeviceService
    {status : ConnectStatus} (h : c.parseDeviceService service = some status) :
    c.isVaildDevice service.ip = true := by
  by_contra hinvalid
  rw [parseDeviceService_eq_none_iff.mpr hinvalid] at h
  cases h

/-- What the services add: one address for each device that is valid and not the own one. -/
theorem collectAvahiLoop_spec (localIp : Ip) (services : List Service) (c : Controller)
    (hc : c.ips.Nodup) :
    (collectAvahiLoop localIp services c).ips.Nodup ∧
      (∀ ip, ip ∈ (collectAvahiLoop localIp services c).ips ↔ ip ∈ c.ips ∨
        ∃ service ∈ services, service.ip = ip ∧ c.isVaildDevice service.ip = true ∧
          service.ip ≠ localIp) ∧
      (collectAvahiLoop localIp services c).searchDevice = c.searchDevice := by
  induction services generalizing c with
  | nil => simp [collectAvahiLoop, hc]
  | cons service rest ih =>
    unfold collectAvahiLoop
    split
    · next hparse =>
      obtain ⟨hnodup, hips, hsearch⟩ := ih c hc
      have hinvalid := parseDeviceService_eq_none_iff.mp hparse
      refine ⟨hnodup, fun ip ↦ (hips ip).trans ?_, hsearch⟩
      simp only [exists_mem_cons_iff]
      tauto
    · next status hparse =>
      have hvalid := isVaildDevice_of_parseDeviceService hparse
      split
      · next hlocal =>
        obtain ⟨hnodup, hips, hsearch⟩ := ih c hc
        refine ⟨hnodup, fun ip ↦ (hips ip).trans ?_, hsearch⟩
        simp only [exists_mem_cons_iff]
        tauto
      · next hlocal =>
        split
        · next existing hfind =>
          have hmem : service.ip ∈ c.ips := mem_ips_of_findDeviceByIP hfind
          obtain ⟨hnodup, hips, hsearch⟩ := ih { c with
            status := update c.status existing.ref status } hc
          refine ⟨hnodup, fun ip ↦ (hips ip).trans ?_, hsearch⟩
          rw [exists_mem_cons_iff]
          constructor
          · rintro (hip | hrest)
            · exact .inl hip
            · exact .inr (.inr hrest)
          · rintro (hip | ⟨rfl, -⟩ | hrest)
            · exact .inl hip
            · exact .inl hmem
            · exact .inr hrest
        · next hfind =>
          have hnew : service.ip ∉ c.ips := findDeviceByIP_eq_none_iff.mp hfind
          dsimp only [create]
          obtain ⟨hnodup, hips, hsearch⟩ := ih (append { c with
            next := c.next + 1
            status := update c.status c.next
              (if c.connectedDevice = service.ip then .connected else status) }
            ⟨c.next, service.ip⟩) (nodup_ips_append hc hnew)
          refine ⟨hnodup, fun ip ↦ (hips ip).trans ?_, hsearch⟩
          rw [exists_mem_cons_iff, ips_append, mem_append, mem_singleton]
          constructor
          · rintro ((hip | rfl) | hrest)
            · exact .inl hip
            · exact .inr (.inl ⟨rfl, hvalid, hlocal⟩)
            · exact .inr (.inr hrest)
          · rintro (hip | ⟨rfl, -⟩ | hrest)
            · exact .inl (.inl hip)
            · exact .inl (.inr rfl)
            · exact .inr hrest

theorem collectAvahiDevices_spec (localIp : Ip) (services : Option (List Service))
    (c : Controller) (hc : c.ips = []) :
    (c.collectAvahiDevices localIp services).ips.Nodup ∧
      (∀ ip, ip ∈ (c.collectAvahiDevices localIp services).ips ↔
        ∃ service ∈ services.getD [], service.ip = ip ∧ c.isVaildDevice service.ip = true ∧
          service.ip ≠ localIp) ∧
      (c.collectAvahiDevices localIp services).searchDevice = c.searchDevice := by
  cases services with
  | none => exact ⟨by rw [collectAvahiDevices, hc]; exact nodup_nil,
      by simp [collectAvahiDevices, hc], rfl⟩
  | some services =>
    obtain ⟨hnodup, hips, hsearch⟩ := collectAvahiLoop_spec localIp services c
      (by rw [hc]; exact nodup_nil)
    refine ⟨hnodup, fun ip ↦ (hips ip).trans ?_, hsearch⟩
    rw [hc]
    exact or_iff_right not_mem_nil

theorem addIfMissing_spec (c : Controller) (device : Device) (hc : c.ips.Nodup) :
    (c.addIfMissing device).ips.Nodup ∧
      (∀ ip, ip ∈ (c.addIfMissing device).ips ↔ ip ∈ c.ips ∨ ip = device.ip) ∧
      (c.addIfMissing device).searchDevice = c.searchDevice := by
  unfold addIfMissing
  split
  · next hfind =>
    refine ⟨hc, fun ip ↦ ⟨.inl, ?_⟩, rfl⟩
    rintro (hip | rfl)
    · exact hip
    · exact mem_ips_of_findDeviceByIP hfind
  · next hfind =>
    refine ⟨nodup_ips_append hc (findDeviceByIP_eq_none_iff.mp hfind), fun ip ↦ ?_, rfl⟩
    rw [ips_append, mem_append, mem_singleton]

theorem foldl_addIfMissing_spec (devices : List Device) (c : Controller) (hc : c.ips.Nodup) :
    (devices.foldl addIfMissing c).ips.Nodup ∧ (∀ ip, ip ∈ (devices.foldl addIfMissing c).ips ↔
        ip ∈ c.ips ∨ ip ∈ devices.map Device.ip) ∧
      (devices.foldl addIfMissing c).searchDevice = c.searchDevice := by
  induction devices generalizing c with
  | nil => simp [hc]
  | cons device rest ih =>
    obtain ⟨hfirst, hmem, hsame⟩ := addIfMissing_spec c device hc
    obtain ⟨hnodup, hips, hsearch⟩ := ih (c.addIfMissing device) hfirst
    refine ⟨hnodup, fun ip ↦ ?_, hsearch.trans hsame⟩
    rw [foldl_cons, hips, hmem, map_cons, mem_cons, or_assoc]

/-- A refreshed list has the devices of the services, those that are preserved, and the
searched one. -/
theorem refreshDeviceList_spec (c : Controller) (localIp : Ip) (services : Option (List Service)) :
    (c.refreshDeviceList localIp services).ips.Nodup ∧
      (∀ ip, ip ∈ (c.refreshDeviceList localIp services).ips ↔
        (∃ service ∈ services.getD [], service.ip = ip ∧ c.isVaildDevice service.ip = true ∧
          service.ip ≠ localIp) ∨
        ip ∈ c.preserved.map Device.ip ∨ c.searchDevice.map Device.ip = some ip) ∧
      (c.refreshDeviceList localIp services).searchDevice = c.searchDevice := by
  obtain ⟨collected, hcollected⟩ : ∃ collected, collected =
    collectAvahiDevices { c with onlineDeviceList := [] } localIp services := ⟨_, rfl⟩
  have hspec : collected.ips.Nodup ∧ (∀ ip, ip ∈ collected.ips ↔ ∃ service ∈ services.getD [],
      service.ip = ip ∧ c.isVaildDevice service.ip = true ∧ service.ip ≠ localIp) ∧
      collected.searchDevice = c.searchDevice := by
    rw [hcollected]
    exact collectAvahiDevices_spec localIp services { c with onlineDeviceList := [] } rfl
  obtain ⟨hnodup, hips, hsearch⟩ := hspec
  obtain ⟨hnodup, hmore, hsame⟩ := foldl_addIfMissing_spec c.preserved collected hnodup
  have hdevice := hsame.trans hsearch
  unfold refreshDeviceList
  dsimp only
  rw [← hcollected]
  split
  · next hnone =>
    refine ⟨hnodup, fun ip ↦ ?_, hdevice⟩
    rw [hmore, hips, ← hdevice, hnone]
    simp
  · next device hsome =>
    obtain ⟨hnodup, hlast, hkept⟩ := addIfMissing_spec _ device hnodup
    refine ⟨hnodup, fun ip ↦ ?_, hkept.trans hdevice⟩
    rw [hlast, hmore, hips, ← hdevice, hsome, Option.map_some, Option.some_inj, or_assoc,
      eq_comm (a := ip)]

end Controller

end Discovery

end DdeCooperation.Cooperation
