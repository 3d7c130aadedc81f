import DdeCooperation.Foundations.Runs
import DdeCooperation.Cooperation.DiscoverController

/-!
# What an observer of the discovery knows

An observer adds the addresses of `deviceOnline` and removes that of `deviceOffline`. The
list of the controller has one entry for each address, and the observer has the addresses
of the list and of the searched device, during a whole run, if and only if every event
meets a condition in the state in which it comes: among others, no service or older host
is added whose address is in the list, no device is lost that is the searched one, and a
refresh finds every device again.
-/

namespace DdeCooperation.Cooperation

open Foundations List

namespace Discovery

/-- The controller, and the addresses that an observer knows. -/
structure Watched where
  controller : Controller
  known : Finset Ip

namespace Watched

/-- The observer gets the signals in their order. -/
def after (w : Watched) (result : Controller × List Signal) : Watched where
  controller := result.1
  known := result.2.foldl observe w.known

def step (zeroconfname : List Char) (w : Watched) (event : Event) : Watched :=
  w.after (w.controller.step zeroconfname event)

def init : Watched where
  controller := .init
  known := ∅

def run (zeroconfname : List Char) (events : List Event) : Watched :=
  events.foldl (step zeroconfname) init

end Watched

namespace Controller

variable (c : Controller)

/-- The addresses of the list and of the searched device. -/
def Visible (ip : Ip) : Prop := ip ∈ c.ips ∨ c.searchDevice.map Device.ip = some ip

instance (ip : Ip) : Decidable (c.Visible ip) := inferInstanceAs (Decidable (_ ∨ _))

/-- A device may be lost if it stays, being in the history, or is not the searched one. -/
def Losable (ip : Ip) : Prop :=
  ip ∈ c.ips ∧ ip ∈ c.historyDevices ∨ c.searchDevice.map Device.ip ≠ some ip

instance (ip : Ip) : Decidable (c.Losable ip) := inferInstanceAs (Decidable (_ ∨ _))

/-- The conditions of the events, in the state in which they come. -/
def Expects (zeroconfname : List Char) : Event → Prop
  | .addService service => service.name ≠ zeroconfname → c.isVaildDevice service.ip = true →
      service.ip ∉ c.ips
  | .removeService service => c.isVaildDevice service.ip = true → c.Losable service.ip
  | .compatAddDeivces localIp infoMap =>
      (c.ips ++ (infoMap.filterMap (compatIps localIp)).map Prod.fst).Nodup
  | .compatRemoveDeivce ip => c.Losable ip
  | .addSearchDeivce (some info) =>
      (∀ old ∈ c.searchDevice, old.ip ∈ c.ips ∨ old.ip = info.ip) ∧
        (info.isValid = true ∨ c.Visible info.ip)
  | .onConnectHistoryUpdated history => ∀ device ∈ c.searchDevice,
      device.ip ∈ c.ips → device.ip ∈ c.historyDevices → device.ip ∈ history
  | .refresh true localIp services => ∀ device ∈ c.onlineDeviceList,
      (∃ service ∈ services.getD [], service.ip = device.ip ∧
        c.isVaildDevice service.ip = true ∧ service.ip ≠ localIp) ∨
      (device.ip ∈ c.historyDevices ∧ c.status device.ref ≠ .offline) ∨
      c.searchDevice.map Device.ip = some device.ip
  | _ => True

end Controller

/-- One entry for each address, and the observer knows those that are visible. -/
def Watched.Consistent (w : Watched) : Prop :=
  w.controller.ips.Nodup ∧ ∀ ip, ip ∈ w.known ↔ w.controller.Visible ip

/-! ## Two changes of the list -/

namespace Watched

variable {w : Watched} {c : Controller} {signals : List Signal}

theorem consistent_after_iff : (w.after (c, signals)).Consistent ↔
    c.ips.Nodup ∧ ∀ ip, ip ∈ signals.foldl observe w.known ↔ c.Visible ip :=
  Iff.rfl

/-- Addresses were added to the list and told to the observer. -/
theorem Consistent.grow (h : w.Consistent) (added : List Ip)
    (hsearch : c.searchDevice = w.controller.searchDevice)
    (hips : ∀ ip, ip ∈ c.ips ↔ ip ∈ w.controller.ips ∨ ip ∈ added)
    (hknown : ∀ ip, ip ∈ signals.foldl observe w.known ↔ ip ∈ w.known ∨ ip ∈ added) :
    (w.after (c, signals)).Consistent ↔ c.ips.Nodup := by
  rw [consistent_after_iff]
  refine and_iff_left fun ip ↦ ?_
  rw [hknown, h.2, Controller.Visible, Controller.Visible, hsearch, hips]
  tauto

/-- One address was removed from the list, if it was there, and told to the observer. -/
theorem Consistent.lose (h : w.Consistent) {ip : Ip}
    (hsearch : c.searchDevice = w.controller.searchDevice)
    (hips : c.ips = w.controller.ips.erase ip) :
    (w.after (c, [.deviceOffline ip])).Consistent ↔
      w.controller.searchDevice.map Device.ip ≠ some ip := by
  constructor
  · intro hnext hsearched
    have hvisible : c.Visible ip := .inr (by rw [hsearch, hsearched])
    exact Finset.notMem_erase ip w.known ((hnext.2 ip).mpr hvisible)
  · intro hsearched
    refine consistent_after_iff.mpr ⟨?_, fun other ↦ Finset.mem_erase.trans ?_⟩
    · rw [hips]
      exact h.1.erase ip
    · rw [h.2, Controller.Visible, Controller.Visible, hsearch, hips, h.1.mem_erase_iff]
      constructor
      · rintro ⟨hne, hips | hother⟩
        · exact .inl ⟨hne, hips⟩
        · exact .inr hother
      · rintro (⟨hne, hips⟩ | hother)
        · exact ⟨hne, .inl hips⟩
        · exact ⟨fun heq ↦ hsearched (heq ▸ hother), .inr hother⟩

end Watched

/-! ## One event -/

variable {known : Finset Ip} {devices : List Device} {ip : Ip}

theorem mem_observe_deviceOnline :
    ip ∈ observe known (.deviceOnline devices) ↔ ip ∈ known ∨ ip ∈ devices.map Device.ip := by
  rw [observe, Finset.mem_union, mem_toFinset]

theorem mem_foldl_onlineUnlessEmpty :
    ip ∈ (Controller.onlineUnlessEmpty devices).foldl observe known ↔
      ip ∈ known ∨ ip ∈ devices.map Device.ip := by
  unfold Controller.onlineUnlessEmpty
  cases devices with
  | nil => simp
  | cons device rest => exact mem_observe_deviceOnline

namespace Watched

open Controller

variable {w : Watched} {zeroconfname : List Char} {service : Service}

variable (h : w.Consistent)

include h

theorem consistent_addService_iff :
    (w.after (w.controller.addService zeroconfname service)).Consistent ↔
      (service.name ≠ zeroconfname → w.controller.isVaildDevice service.ip = true →
        service.ip ∉ w.controller.ips) := by
  unfold addService
  split
  · next hself => exact iff_of_true h fun hname ↦ absurd hself hname
  · next hname =>
    split
    · next hparse =>
      have hinvalid := parseDeviceService_eq_none_iff.mp hparse
      exact iff_of_true h fun _ hvalid ↦ absurd hvalid hinvalid
    · next status hparse =>
      have hvalid := isVaildDevice_of_parseDeviceService hparse
      have hips := ips_append (c := (w.controller.create service.ip status).2)
        ⟨w.controller.next, service.ip⟩
      have hnodup : (w.controller.ips ++ [service.ip]).Nodup ↔ service.ip ∉ w.controller.ips := by
        rw [nodup_append_comm, singleton_append, nodup_cons]
        exact and_iff_left h.1
      refine (h.grow (c := append _ ⟨w.controller.next, service.ip⟩) [service.ip] rfl
        (fun ip ↦ ?_) fun ip ↦ ?_).trans ?_
      · exact (Iff.of_eq (congrArg (ip ∈ ·) hips)).trans mem_append
      · exact mem_observe_deviceOnline
      · refine (Iff.of_eq (congrArg List.Nodup hips)).trans (hnodup.trans ?_)
        exact ⟨fun h _ _ ↦ h, fun h ↦ h hname hvalid⟩

variable {c : Controller}

/-- The device with an address is replaced. -/
theorem Consistent.replace (device : Device)
    (hips : c.ips = w.controller.ips) (hsearch : c.searchDevice = w.controller.searchDevice) :
    (w.after ((c.removeByIP device.ip).append device, [.deviceOnline [device]])).Consistent := by
  have hmem : ∀ ip, ip ∈ ((c.removeByIP device.ip).append device).ips ↔
      ip ∈ w.controller.ips ∨ ip ∈ [device].map Device.ip := by
    intro ip
    rw [ips_append, ips_removeByIP, mem_append, hips, h.1.mem_erase_iff]
    by_cases hip : ip = device.ip
    · simp [hip]
    · simp [hip]
  refine (h.grow _ ?_ hmem fun ip ↦ mem_observe_deviceOnline).mpr (nodup_ips_append ?_ ?_)
  · exact (searchDevice_removeByIP c device.ip).trans hsearch
  · rw [ips_removeByIP, hips]
    exact h.1.erase _
  · rw [ips_removeByIP, hips]
    exact h.1.not_mem_erase

theorem Consistent.updateService (service : Service) :
    (w.after (w.controller.updateService zeroconfname service)).Consistent := by
  unfold Controller.updateService
  split
  · exact h
  · split
    · exact h
    · exact h.replace ⟨w.controller.next, service.ip⟩ rfl rfl

theorem Consistent.updateDeviceState (device : Device) (status : ConnectStatus) :
    (w.after (w.controller.updateDeviceState device status)).Consistent := by
  have hreplace := h.replace (c := { w.controller with
    status := Function.update w.controller.status device.ref status }) device rfl rfl
  exact hreplace

theorem consistent_deviceLosted_iff (ip : Ip) :
    (w.after (w.controller.deviceLosted ip)).Consistent ↔ w.controller.Losable ip := by
  unfold deviceLosted Losable
  split
  · next device hfind =>
    have hmem := mem_ips_of_findDeviceByIP hfind
    split
    · next hhistory =>
      refine iff_of_true ?_ (.inl ⟨hmem, contains_iff_mem.mp hhistory⟩)
      have hdevice : device.ip = ip := by simpa using find?_some hfind
      refine (h.grow [ip] rfl (fun other ↦ ?_) fun other ↦ ?_).mpr h.1
      · refine ⟨.inl, ?_⟩
        rintro (hother | hother)
        · exact hother
        · rw [mem_singleton.mp hother]
          exact hmem
      · exact mem_observe_deviceOnline.trans (by rw [map_cons, hdevice, map_nil])
    · next hhistory =>
      refine (h.lose (searchDevice_removeByIP _ ip) (ips_removeByIP _ ip)).trans ?_
      refine (or_iff_right fun hboth ↦ ?_).symm
      exact hhistory (contains_iff_mem.mpr hboth.2)
  · next hfind =>
    have hnot := findDeviceByIP_eq_none_iff.mp hfind
    refine (h.lose rfl (erase_of_not_mem hnot).symm).trans ?_
    exact (or_iff_right fun hboth ↦ hnot hboth.1).symm

theorem consistent_removeService_iff :
    (w.after (w.controller.removeService service)).Consistent ↔
      (w.controller.isVaildDevice service.ip = true → w.controller.Losable service.ip) := by
  unfold removeService
  split
  · next hparse =>
    have hinvalid := parseDeviceService_eq_none_iff.mp hparse
    exact iff_of_true h fun hvalid ↦ absurd hvalid hinvalid
  · next status hparse =>
    have hvalid := isVaildDevice_of_parseDeviceService hparse
    rw [forall_prop_of_true hvalid]
    exact consistent_deviceLosted_iff h service.ip

omit h

variable {localIp : Ip}

theorem consistent_compatAddDeivces_iff (h : w.Consistent)
    (infoMap : List (Option DeviceJson × List Char)) :
    (w.after (w.controller.compatAddDeivces localIp infoMap)).Consistent ↔
      (w.controller.ips ++ (infoMap.filterMap (compatIps localIp)).map Prod.fst).Nodup := by
  obtain ⟨hadded, hips, hsearch⟩ := compatAddLoop_spec localIp infoMap w.controller
  refine (h.grow ((infoMap.filterMap (compatIps localIp)).map Prod.fst) hsearch (fun ip ↦ ?_)
    fun ip ↦ ?_).trans ?_
  · exact (Iff.of_eq (congrArg (ip ∈ ·) hips)).trans mem_append
  · refine mem_foldl_onlineUnlessEmpty.trans ?_
    rw [hadded]
  · exact Iff.of_eq (congrArg List.Nodup hips)

theorem consistent_addSearchDeivce_iff (h : w.Consistent) (info : DeviceJson) :
    (w.after (w.controller.addSearchDeivce (some info))).Consistent ↔
      (∀ old ∈ w.controller.searchDevice, old.ip ∈ w.controller.ips ∨ old.ip = info.ip) ∧
        (info.isValid = true ∨ w.controller.Visible info.ip) := by
  have hknown : ∀ ip, ip ∈ (w.after (w.controller.addSearchDeivce (some info))).known ↔
      w.controller.Visible ip ∨ (info.isValid = true ∧ ip = info.ip) := by
    intro ip
    simp only [after, addSearchDeivce, create]
    split
    · next hvalid =>
      refine mem_observe_deviceOnline.trans ?_
      rw [h.2, map_cons, map_nil, mem_singleton, and_iff_right hvalid]
    · next hvalid =>
      rw [foldl_nil, h.2]
      exact (or_iff_left fun hboth ↦ hvalid hboth.1).symm
  have hvisible : ∀ ip, (w.after (w.controller.addSearchDeivce (some info))).controller.Visible ip ↔
      ip ∈ w.controller.ips ∨ ip = info.ip := by
    intro ip
    simp only [after, addSearchDeivce, create, Visible, Option.map_some, Option.some_inj]
    exact or_congr Iff.rfl eq_comm
  constructor
  · rintro ⟨-, hagree⟩
    simp only [hknown, hvisible] at hagree
    refine ⟨fun old hold ↦ ?_, ?_⟩
    · refine (hagree old.ip).mp (.inl (.inr ?_))
      rw [hold, Option.map_some]
    · rcases (hagree info.ip).mpr (.inr rfl) with hseen | hvalid
      · exact .inr hseen
      · exact .inl hvalid.1
  · rintro ⟨hold, hnew⟩
    refine ⟨h.1, fun ip ↦ ?_⟩
    rw [hknown, hvisible]
    constructor
    · rintro ((hip | hsearched) | hvalid)
      · exact .inl hip
      · obtain ⟨old, hsome, rfl⟩ := Option.map_eq_some_iff.mp hsearched
        exact hold old hsome
      · exact .inr hvalid.2
    · rintro (hip | rfl)
      · exact .inl (.inl hip)
      · exact hnew.elim (fun hvalid ↦ .inr ⟨hvalid, rfl⟩) .inl

theorem consistent_onConnectHistoryUpdated_iff (h : w.Consistent) (history : List Ip) :
    (w.after (w.controller.onConnectHistoryUpdated history)).Consistent ↔
      ∀ device ∈ w.controller.searchDevice, device.ip ∈ w.controller.ips →
        device.ip ∈ w.controller.historyDevices → device.ip ∈ history := by
  obtain ⟨hkept, hips, hknown, hsearch⟩ := removeObsoleteLoop_spec history
    w.controller.historyDevices w.controller h.1 w.known
  unfold onConnectHistoryUpdated
  generalize removeObsoleteLoop history w.controller.historyDevices w.controller = removed at *
  obtain ⟨hnodup, hmore, hnew, hsame⟩ := takeHistory_spec history removed.1
  -- The observer alone loses an address that is searched for and was removed.
  have hagree : ∀ ip, (ip ∈ (removed.2 ++ onlineUnlessEmpty
      (removed.1.takeHistory history).2).foldl observe w.known ↔
      (removed.1.takeHistory history).1.Visible ip) ↔
      (w.controller.searchDevice.map Device.ip = some ip → ip ∈ w.controller.ips →
        ip ∈ w.controller.historyDevices → ip ∈ history) := by
    intro ip
    rw [foldl_append, mem_foldl_onlineUnlessEmpty, hknown, h.2, Visible, Visible, hmore, hnew,
      hips, hsame, hsearch]
    tauto
  refine consistent_after_iff.trans ((and_iff_right (hnodup hkept)).trans ?_)
  refine (forall_congr' hagree).trans ⟨fun hall device hdevice ↦ hall device.ip ?_, ?_⟩
  · rw [hdevice, Option.map_some]
  · intro hall ip hsearched
    obtain ⟨device, hdevice, rfl⟩ := Option.map_eq_some_iff.mp hsearched
    exact hall device hdevice

theorem Consistent.updateHistoryDevices (h : w.Consistent) (connectMap : List Ip) :
    (w.after (w.controller.updateHistoryDevices connectMap)).Consistent := by
  obtain ⟨hnodup, hips, -, hsearch⟩ := takeHistory_spec connectMap w.controller
  refine (h.grow _ hsearch hips fun ip ↦ ?_).mpr (hnodup h.1)
  exact mem_foldl_onlineUnlessEmpty

/-- In a list with one entry for each address, a device is preserved if its address is. -/
theorem mem_map_preserved_iff (hc : c.ips.Nodup) {device : Device}
    (hdevice : device ∈ c.onlineDeviceList) :
    device.ip ∈ c.preserved.map Device.ip ↔
      device.ip ∈ c.historyDevices ∧ c.status device.ref ≠ .offline := by
  rw [mem_map]
  constructor
  · rintro ⟨other, hother, hip⟩
    obtain ⟨hmem, hkept⟩ := mem_filter.mp hother
    have hsame : other = device := inj_on_of_nodup_map hc hmem hdevice hip
    rw [hsame] at hkept
    simpa using hkept
  · intro hkept
    exact ⟨device, mem_filter.mpr ⟨hdevice, by simpa using hkept⟩, rfl⟩

theorem consistent_refresh_iff (h : w.Consistent) (services : Option (List Service)) :
    (w.after (w.controller.refresh true localIp services)).Consistent ↔
      ∀ device ∈ w.controller.onlineDeviceList,
        (∃ service ∈ services.getD [], service.ip = device.ip ∧
          w.controller.isVaildDevice service.ip = true ∧ service.ip ≠ localIp) ∨
        (device.ip ∈ w.controller.historyDevices ∧ w.controller.status device.ref ≠ .offline) ∨
        w.controller.searchDevice.map Device.ip = some device.ip := by
  obtain ⟨hnodup, hips, hsearch⟩ := refreshDeviceList_spec w.controller localIp services
  have hfound : ∀ device ∈ w.controller.onlineDeviceList,
      device.ip ∈ (w.controller.refreshDeviceList localIp services).ips ↔ _ :=
    fun device hdevice ↦ (hips device.ip).trans
      (or_congr Iff.rfl (or_congr (mem_map_preserved_iff h.1 hdevice) Iff.rfl))
  have hsearched : ∀ ip, w.controller.searchDevice.map Device.ip = some ip →
      ip ∈ (w.controller.refreshDeviceList localIp services).ips :=
    fun ip hip ↦ (hips ip).mpr (.inr (.inr hip))
  refine consistent_after_iff.trans ((and_iff_right hnodup).trans ?_)
  constructor
  · intro hagree device hdevice
    refine (hfound device hdevice).mp ?_
    have hknown : device.ip ∈ w.known := (h.2 device.ip).mpr (.inl (mem_map_of_mem hdevice))
    rcases (hagree device.ip).mp (mem_observe_deviceOnline.mpr (.inl hknown)) with hnew | hold
    · exact hnew
    · rw [hsearch] at hold
      exact hsearched _ hold
  · intro hall ip
    refine mem_observe_deviceOnline.trans ⟨?_, ?_⟩
    · rintro (hknown | hnew)
      · refine .inl ?_
        rcases (h.2 ip).mp hknown with hip | hip
        · obtain ⟨device, hdevice, rfl⟩ := mem_map.mp hip
          exact (hfound device hdevice).mpr (hall device hdevice)
        · exact hsearched ip hip
      · exact .inl hnew
    · rintro (hnew | hold)
      · exact .inr hnew
      · rw [hsearch] at hold
        exact .inr (hsearched ip hold)

theorem consistent_step_iff (h : w.Consistent) (event : Event) :
    (w.step zeroconfname event).Consistent ↔ w.controller.Expects zeroconfname event := by
  cases event with
  | addService service => exact consistent_addService_iff h
  | updateService service => exact iff_of_true (h.updateService service) trivial
  | removeService service => exact consistent_removeService_iff h
  | compatAddDeivces localIp infoMap => exact consistent_compatAddDeivces_iff h infoMap
  | compatRemoveDeivce ip => exact consistent_deviceLosted_iff h ip
  | updateDeviceState device status =>
    exact iff_of_true (h.updateDeviceState device status) trivial
  | addSearchDeivce info =>
    cases info with
    | none => exact iff_of_true h trivial
    | some info => exact consistent_addSearchDeivce_iff h info
  | onConnectHistoryUpdated history => exact consistent_onConnectHistoryUpdated_iff h history
  | updateHistoryDevices connectMap => exact iff_of_true (h.updateHistoryDevices connectMap) trivial
  | refresh zeroConf localIp services =>
    cases zeroConf with
    | false => exact iff_of_true h trivial
    | true => exact consistent_refresh_iff h services
  | publish selfIp => exact iff_of_true h trivial

/-- The list has one entry for each address and the observer knows what is visible, during
a whole run, if and only if every event meets its condition. -/
theorem consistent_iff_expects (zeroconfname : List Char) (events : List Event) :
    (∀ front, front <+: events → (run zeroconfname front).Consistent) ↔
      Throughout (step zeroconfname) (fun w ↦ w.controller.Expects zeroconfname) init events := by
  refine Throughout.forall_prefix_iff_of_step (fun w event _ h ↦ consistent_step_iff h event) ?_
  exact ⟨nodup_nil, fun ip ↦ by simp [init, Visible, ips, Controller.init]⟩

def sampleService : Service := ⟨['b'], ['1']⟩

def refreshedRun : List Event :=
  [.addService sampleService, .refresh true ['0'] (some [])]

def searchedAgainRun : List Event :=
  [.addSearchDeivce (some ⟨['1'], ['n'], true⟩), .addSearchDeivce (some ⟨['2'], ['n'], true⟩)]

def searchedLostRun : List Event :=
  [.addSearchDeivce (some ⟨['1'], ['n'], true⟩), .compatRemoveDeivce ['1']]

/-- A service that is added twice has two entries. The observer keeps a device that a
refresh does not find, and one that was searched for before another one; it loses a
searched device that is lost. -/
theorem not_consistent_samples :
    (run ['a'] [.addService sampleService, .addService sampleService]).controller.ips =
      [['1'], ['1']] ∧
    (['1'] ∈ (run ['a'] refreshedRun).known ∧
      ¬ (run ['a'] refreshedRun).controller.Visible ['1']) ∧
    (['1'] ∈ (run ['a'] searchedAgainRun).known ∧
      ¬ (run ['a'] searchedAgainRun).controller.Visible ['1']) ∧
    (['1'] ∉ (run ['a'] searchedLostRun).known ∧
      (run ['a'] searchedLostRun).controller.Visible ['1']) := by
  refine ⟨by decide, ⟨by decide, by decide⟩, ⟨by decide, by decide⟩, by decide, by decide⟩

end Watched

end Discovery

end DdeCooperation.Cooperation
