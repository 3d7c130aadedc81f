import DdeCooperation.Cooperation.SortFilter

/-!
# The order of the devices

A list is sorted when connected devices come before those that can be connected to, and these
before the ones that are offline. `Between` says where the worker puts a device into a sorted
list, and `calculateIndex` finds that place. So both lists stay sorted, no address is there
twice, and who repeats what the worker tells has the visible list.
-/

namespace DdeCooperation.Cooperation.SortFilter

open Foundations List DeviceInfo
open Discovery (Ip ConnectStatus)

def rank : ConnectStatus → ℕ
  | .connected => 0
  | .connectable => 1
  | .offline => 2
  | .unknown => 3

/-- Sorted by status, and none of them unknown. -/
structure Sorted (list : List DeviceInfo) : Prop where
  pairwise : list.Pairwise fun first second ↦
    rank first.connectStatus ≤ rank second.connectStatus
  known : ∀ info ∈ list, info.connectStatus ≠ .unknown

variable {history : List Ip} {list front back : List DeviceInfo} {info device : DeviceInfo}

variable {other : List DeviceInfo}

theorem Sorted.sublist (h : Sorted list) (hother : Sublist other list) : Sorted other :=
  ⟨h.pairwise.sublist hother, fun info hmem ↦ h.known info (hother.subset hmem)⟩

/-- A place for a device that can be connected to: behind the last one of the history, or
before all others if there is none; without history behind all that can be connected to. -/
structure Amid (history : List Ip) (info : DeviceInfo) (front back : List DeviceInfo) : Prop where
  early : ∀ device ∈ front, rank device.connectStatus ≤ 1
  late : ∀ device ∈ back, 1 ≤ rank device.connectStatus
  recorded : info.ipAddress ∈ history →
    (∀ device ∈ back, device.connectStatus = .connectable → device.ipAddress ∉ history) ∧
      ∀ device ∈ front.getLast?, device.connectStatus = .connectable → device.ipAddress ∈ history
  other : info.ipAddress ∉ history → ∀ device ∈ back, device.connectStatus ≠ .connectable

/-- Where a device goes. -/
def Between (history : List Ip) (info : DeviceInfo) (front back : List DeviceInfo) : Prop :=
  match info.connectStatus with
  | .connected => front = []
  | .connectable => Amid history info front back
  | _ => back = []

/-! ## The position that is found -/

variable {rest : List DeviceInfo} {isRecord : Bool} {startPos endPos : ℤ}

theorem findLastLoop_skip (h : ∀ info ∈ list, info.connectStatus ≠ .connectable) :
    findLastLoop history .connectable isRecord (list ++ rest) startPos endPos =
      findLastLoop history .connectable isRecord rest startPos endPos := by
  induction list with
  | nil => rfl
  | cons info list ih =>
    obtain ⟨hinfo, hlist⟩ := forall_mem_cons.mp h
    rw [cons_append, findLastLoop, if_neg hinfo]
    exact ih hlist

/-- Devices that are not in the history move the end of the range. -/
theorem findLastLoop_unrecorded (hne : list ≠ [])
    (hstart : startPos = -1 ∨ (rest.length : ℤ) ≤ startPos)
    (h : ∀ info ∈ list, info.connectStatus = .connectable ∧ info.ipAddress ∉ history) :
    ∃ startPos' : ℤ, (rest.length : ℤ) ≤ startPos' ∧
      findLastLoop history .connectable true (list ++ rest) startPos endPos =
        findLastLoop history .connectable true rest startPos' rest.length := by
  induction list generalizing startPos endPos with
  | nil => exact absurd rfl hne
  | cons info list ih =>
    obtain ⟨hinfo, hlist⟩ := forall_mem_cons.mp h
    rw [cons_append, findLastLoop, if_pos hinfo.1]
    simp only [Bool.not_true, Bool.false_eq_true, if_false, if_neg hinfo.2]
    have hnext : (rest.length : ℤ) ≤
        if startPos = -1 then ((list ++ rest).length : ℤ) else startPos := by
      rw [length_append]
      split_ifs with hnone
      · omega
      · exact hstart.resolve_left hnone
    by_cases hnil : list = []
    · rw [hnil] at hnext ⊢
      exact ⟨_, hnext, rfl⟩
    · exact ih hnil (.inr hnext) hlist

theorem connected_of_rank {status : ConnectStatus} (h : rank status ≤ 0) : status = .connected := by
  cases status <;> simp_all [rank]

/-- A sorted list is cut at a rank. -/
theorem Sorted.exists_split (h : Sorted list) (k : ℕ) : ∃ front back, list = front ++ back ∧
    (∀ device ∈ front, rank device.connectStatus ≤ k) ∧
      ∀ device ∈ back, k < rank device.connectStatus := by
  induction list with
  | nil => exact ⟨[], [], rfl, by simp, by simp⟩
  | cons device list ih =>
    by_cases hrank : rank device.connectStatus ≤ k
    · obtain ⟨front, back, hsplit, hfront, hback⟩ := ih (h.sublist (sublist_cons_self _ _))
      refine ⟨device :: front, back, by rw [hsplit, cons_append], ?_, hback⟩
      exact forall_mem_cons.mpr ⟨hrank, hfront⟩
    · have hlater := Nat.lt_of_not_le hrank
      refine ⟨[], device :: list, rfl, by simp, forall_mem_cons.mpr ⟨hlater, ?_⟩⟩
      exact fun other hother ↦ hlater.trans_le (rel_of_pairwise_cons h.pairwise hother)

/-- The devices of a sorted list that are not connected. -/
theorem exists_split_connectable (h : Sorted back)
    (hback : ∀ device ∈ back, 1 ≤ rank device.connectStatus) :
    ∃ middle last, back = middle ++ last ∧
      (∀ device ∈ middle, device.connectStatus = .connectable) ∧
      ∀ device ∈ last, device.connectStatus = .offline := by
  obtain ⟨middle, last, rfl, hmiddle, hlast⟩ := h.exists_split 1
  rw [forall_mem_append] at hback
  refine ⟨middle, last, rfl, fun device hmem ↦ ?_, fun device hmem ↦ ?_⟩
  · have hle := hmiddle device hmem
    have hge := hback.1 device hmem
    revert hle hge
    cases device.connectStatus <;> simp [rank]
  · have hlater := hlast device hmem
    have hknown := h.known device (mem_append_right _ hmem)
    revert hlater hknown
    cases device.connectStatus <;> simp [rank]

theorem findLastLoop_connected (h : ∀ device ∈ front, device.connectStatus = .connected) :
    findLastLoop history .connectable isRecord front.reverse startPos endPos =
      min startPos endPos := by
  have hskip : ∀ device ∈ front.reverse, device.connectStatus ≠ .connectable := by
    intro device hmem
    rw [h device (mem_reverse.mp hmem)]
    decide
  rw [← append_nil front.reverse, findLastLoop_skip hskip]
  rfl

/-- In front of a sorted list there are only connected devices, or the search ends at the last
one, which can be connected to. -/
theorem findLastLoop_front (h : Sorted front)
    (hfront : ∀ device ∈ front, rank device.connectStatus ≤ 1)
    (hstart : isRecord = false → startPos = -1)
    (hend : isRecord = true → ∀ device ∈ front.getLast?, device.connectStatus = .connectable →
    device.ipAddress ∈ history) :
    findLastLoop history .connectable isRecord front.reverse startPos endPos = front.length ∨
      (∀ device ∈ front, device.connectStatus = .connected) ∧
        findLastLoop history .connectable isRecord front.reverse startPos endPos =
          min startPos endPos := by
  rcases eq_nil_or_concat' front with rfl | ⟨init, last, rfl⟩
  · exact .inr ⟨by simp, rfl⟩
  · by_cases hstatus : last.connectStatus = .connectable
    · left
      rw [reverse_append, reverse_singleton, singleton_append, findLastLoop, if_pos hstatus]
      cases isRecord with
      | false => simp [hstart rfl]
      | true => simp [hend rfl last (by simp) hstatus]
    · have hlast := hfront last (by simp)
      have hzero : rank last.connectStatus ≤ 0 := by
        revert hlast hstatus
        cases last.connectStatus <;> simp [rank]
      have hconnected : ∀ device ∈ init ++ [last], device.connectStatus = .connected := by
        intro device hmem
        apply connected_of_rank
        rcases mem_append.mp hmem with hinit | hmem
        · exact ((pairwise_append.mp h.pairwise).2.2 device hinit last (by simp)).trans hzero
        · rwa [mem_singleton.mp hmem]
      exact .inr ⟨hconnected, findLastLoop_connected hconnected⟩

theorem findFirst_offline (hfront : ∀ device ∈ front, device.connectStatus ≠ .offline)
    (hback : ∀ device ∈ back, device.connectStatus = .offline) :
    findFirst (front ++ back) .offline = if back = [] then -1 else (front.length : ℤ) := by
  have hnone : front.findIdx? (fun info ↦ info.connectStatus = .offline) = none := by
    rw [findIdx?_eq_none_iff]
    exact fun device hmem ↦ decide_eq_false (hfront device hmem)
  cases back with
  | nil => simp [findFirst, hnone]
  | cons device back =>
    have hdevice := hback device mem_cons_self
    simp [findFirst, findIdx?_append, hnone, findIdx?_cons, hdevice]

/-- The search from behind ends where the device belongs, unless no other can be connected to. -/
theorem Amid.findLast (h : Amid history info front back) (hsorted : Sorted (front ++ back)) :
    findLast history (front ++ back) .connectable info = front.length ∨
      findLast history (front ++ back) .connectable info = -1 ∧
        (∀ device ∈ front, device.connectStatus = .connected) ∧
        ∀ device ∈ back, device.connectStatus = .offline := by
  have hfront := hsorted.sublist (sublist_append_left front back)
  have hback := hsorted.sublist (sublist_append_right front back)
  obtain ⟨middle, last, rfl, hmiddle, hlast⟩ := exists_split_connectable hback h.late
  have hskip : ∀ device ∈ last.reverse, device.connectStatus ≠ .connectable := by
    intro device hmem
    rw [hlast device (mem_reverse.mp hmem)]
    decide
  unfold SortFilter.findLast
  rw [reverse_append, reverse_append, append_assoc, findLastLoop_skip hskip]
  by_cases hrecord : info.ipAddress ∈ history
  · obtain ⟨hlater, hend⟩ := h.recorded hrecord
    simp only [hrecord, decide_true]
    by_cases hnil : middle = []
    · rw [hnil, reverse_nil, nil_append]
      refine (findLastLoop_front hfront h.early (by simp) fun _ ↦ hend).imp_right ?_
      rintro ⟨hconnected, hnone⟩
      exact ⟨hnone, hconnected, by simpa [hnil] using hlast⟩
    · obtain ⟨startPos, hstart, hloop⟩ : ∃ startPos : ℤ, (front.reverse.length : ℤ) ≤ startPos ∧
          findLastLoop history .connectable true (middle.reverse ++ front.reverse) (-1) (-1) =
            findLastLoop history .connectable true front.reverse startPos front.reverse.length := by
        refine findLastLoop_unrecorded (by simpa using hnil) (.inl rfl) fun device hmem ↦ ?_
        have hmem' := mem_reverse.mp hmem
        exact ⟨hmiddle device hmem', hlater device (mem_append_left _ hmem') (hmiddle device hmem')⟩
      rw [length_reverse] at hstart
      rw [hloop, length_reverse]
      left
      refine (findLastLoop_front hfront h.early (by simp) fun _ ↦ hend).elim id ?_
      rintro ⟨-, hmin⟩
      rw [hmin, min_eq_right hstart]
  · have hnil : middle = [] := by
      rw [eq_nil_iff_forall_not_mem]
      intro device hmem
      exact h.other hrecord device (mem_append_left _ hmem) (hmiddle device hmem)
    rw [hnil, reverse_nil, nil_append]
    simp only [hrecord, decide_false]
    refine (findLastLoop_front hfront h.early (fun _ ↦ rfl) (by simp)).imp_right ?_
    rintro ⟨hconnected, hnone⟩
    exact ⟨hnone, hconnected, by simpa [hnil] using hlast⟩

/-- The position that is calculated is the one where the device belongs. -/
theorem calculateIndex_of_between (h : Between history info front back)
    (hsorted : Sorted (front ++ back)) :
    calculateIndex history (front ++ back) info = front.length := by
  cases hstatus : info.connectStatus with
  | connected =>
    simp only [Between, hstatus] at h
    simp [calculateIndex, hstatus, h]
  | connectable =>
    simp only [Between, hstatus] at h
    simp only [calculateIndex, hstatus]
    rcases h.findLast hsorted with hfound | ⟨hnone, hconnected, hoffline⟩
    · rw [hfound, if_pos (by omega)]
    · rw [hnone, if_neg (by simp), findFirst_offline (fun device hmem ↦ by
        rw [hconnected device hmem]; decide) hoffline]
      by_cases hnil : back = []
      · simp [hnil]
      · simp only [if_neg hnil]
        rw [if_pos (by omega)]
  | _ =>
    simp only [Between, hstatus] at h
    simp [calculateIndex, hstatus, h]

theorem insertIdx_length : (front ++ back).insertIdx front.length info = front ++ info :: back := by
  induction front with
  | nil => rfl
  | cons device front ih => simp [ih]

theorem insertAt_of_between (h : Between history info front back)
    (hsorted : Sorted (front ++ back)) :
    insertAt (front ++ back) (calculateIndex history (front ++ back) info) info =
      front ++ info :: back := by
  rw [insertAt, calculateIndex_of_between h hsorted, Int.toNat_natCast, insertIdx_length]

/-! ## There is such a place -/

/-- The devices up to the last one of the history. -/
theorem exists_split_recorded (history : List Ip) (list : List DeviceInfo) :
    ∃ front back, list = front ++ back ∧ (∀ device ∈ back, device.ipAddress ∉ history) ∧
      ∀ device ∈ front.getLast?, device.ipAddress ∈ history := by
  induction list using reverseRecOn with
  | nil => exact ⟨[], [], rfl, by simp, by simp⟩
  | append_singleton list last ih =>
    by_cases hlast : last.ipAddress ∈ history
    · exact ⟨list ++ [last], [], by simp, by simp, by simpa using hlast⟩
    · obtain ⟨front, back, hsplit, hback, hfront⟩ := ih
      refine ⟨front, back ++ [last], by rw [hsplit, append_assoc], ?_, hfront⟩
      rw [forall_mem_append]
      exact ⟨hback, by simpa using hlast⟩

theorem exists_between (history : List Ip) (info : DeviceInfo) (h : Sorted list) :
    ∃ front back, list = front ++ back ∧ Between history info front back := by
  unfold Between
  split
  · exact ⟨[], list, rfl, rfl⟩
  · obtain ⟨connected, rest, rfl, hzero, hrest⟩ := h.exists_split 0
    have hconnected : ∀ device ∈ connected, device.connectStatus = .connected :=
      fun device hmem ↦ connected_of_rank (hzero device hmem)
    obtain ⟨middle, offline, rfl, hmiddle, hoffline⟩ :=
      exists_split_connectable (h.sublist (sublist_append_right _ _)) hrest
    have hearly : ∀ device ∈ connected, rank device.connectStatus ≤ 1 :=
      fun device hmem ↦ (hzero device hmem).trans (Nat.zero_le 1)
    have hamid : ∀ device ∈ middle, rank device.connectStatus = 1 := by
      intro device hmem
      rw [hmiddle device hmem]
      rfl
    by_cases hrecord : info.ipAddress ∈ history
    · obtain ⟨front, back, rfl, hback, hfront⟩ := exists_split_recorded history middle
      rw [forall_mem_append] at hamid
      refine ⟨connected ++ front, back ++ offline, by simp, ?_, ?_, fun _ ↦ ⟨?_, ?_⟩,
        fun hno ↦ absurd hrecord hno⟩
      · rw [forall_mem_append]
        exact ⟨hearly, fun device hmem ↦ (hamid.1 device hmem).le⟩
      · intro device hmem
        refine hrest device ?_
        rw [append_assoc]
        exact mem_append_right _ hmem
      · intro device hmem hstatus
        rcases mem_append.mp hmem with hmem | hmem
        · exact hback device hmem
        · rw [hoffline device hmem] at hstatus
          cases hstatus
      · intro device hlast hstatus
        rcases eq_nil_or_concat' front with rfl | ⟨init, last, rfl⟩
        · rw [append_nil] at hlast
          rw [hconnected device (mem_of_mem_getLast? hlast)] at hstatus
          cases hstatus
        · refine hfront device ?_
          simpa using hlast
    · refine ⟨connected ++ middle, offline, by simp, ?_, ?_, fun hyes ↦ absurd hyes hrecord,
        fun _ ↦ ?_⟩
      · rw [forall_mem_append]
        exact ⟨hearly, fun device hmem ↦ (hamid device hmem).le⟩
      · exact fun device hmem ↦ hrest device (mem_append_right _ hmem)
      · intro device hmem hstatus
        rw [hoffline device hmem] at hstatus
        cases hstatus
  · exact ⟨list, [], by simp, rfl⟩

theorem sorted_of_between (h : Between history info front back) (hsorted : Sorted (front ++ back))
    (hknown : info.connectStatus ≠ .unknown) : Sorted (front ++ info :: back) := by
  have hranks : (∀ device ∈ front, rank device.connectStatus ≤ rank info.connectStatus) ∧
      ∀ device ∈ back, rank info.connectStatus ≤ rank device.connectStatus := by
    unfold Between at h
    split at h
    · next hstatus =>
      rw [h, hstatus]
      exact ⟨by simp, fun _ _ ↦ Nat.zero_le _⟩
    · next hstatus =>
      rw [hstatus]
      exact ⟨h.early, h.late⟩
    · next hconnected hconnectable =>
      rw [h]
      refine ⟨fun device hmem ↦ ?_, by simp⟩
      have hdevice := hsorted.known device (mem_append_left _ hmem)
      revert hconnected hconnectable hknown hdevice
      cases device.connectStatus <;> cases info.connectStatus <;> simp [rank]
  have hpairs := pairwise_append.mp hsorted.pairwise
  constructor
  · rw [pairwise_append, pairwise_cons]
    refine ⟨hpairs.1, ⟨hranks.2, hpairs.2.1⟩, fun device hmem ↦ ?_⟩
    rw [forall_mem_cons]
    exact ⟨hranks.1 device hmem, hpairs.2.2 device hmem⟩
  · intro device hmem
    rw [mem_append, mem_cons] at hmem
    rcases hmem with hmem | rfl | hmem
    · exact hsorted.known device (mem_append_left _ hmem)
    · exact hknown
    · exact hsorted.known device (mem_append_right _ hmem)

/-! ## Updates of a list -/

/-- A device with an address that is in the list once. -/
structure Holds (ip : Ip) (list front : List DeviceInfo) (device : DeviceInfo)
    (back : List DeviceInfo) : Prop where
  eq : list = front ++ device :: back
  address : device.ipAddress = ip
  others : ∀ other ∈ front ++ back, other.ipAddress ≠ ip

variable {ip : Ip}

theorem exists_holds (hunique : (list.map ipAddress).Nodup) (h : ip ∈ list.map ipAddress) :
    ∃ front device back, Holds ip list front device back := by
  obtain ⟨device, hmem, hip⟩ := mem_map.mp h
  obtain ⟨front, back, rfl⟩ := append_of_mem hmem
  refine ⟨front, device, back, rfl, hip, fun other hother heq ↦ ?_⟩
  rw [map_append, map_cons, nodup_middle, nodup_cons, ← map_append] at hunique
  exact hunique.1 (mem_map.mpr ⟨other, hother, heq.trans hip.symm⟩)

variable (h : Holds ip list front device back)

include h

theorem Holds.findIdx : list.findIdx? (fun other ↦ other.ipAddress = ip) = some front.length := by
  have hnone : front.findIdx? (fun other ↦ other.ipAddress = ip) = none := by
    rw [findIdx?_eq_none_iff]
    exact fun other hmem ↦ decide_eq_false (h.others other (mem_append_left _ hmem))
  rw [h.eq, findIdx?_append, hnone, findIdx?_cons]
  simp [h.address]

theorem Holds.getElem : list[front.length]? = some device := by
  rw [h.eq]
  simp

theorem Holds.eraseIdx : list.eraseIdx front.length = front ++ back := by
  rw [h.eq, eraseIdx_append_of_length_le le_rfl]
  simp

theorem Holds.set (info : DeviceInfo) : list.set front.length info = front ++ info :: back := by
  rw [h.eq, set_append_right _ _ le_rfl]
  simp

theorem Holds.mem_rest {other : DeviceInfo} :
    other ∈ front ++ back ↔ other ∈ list ∧ other.ipAddress ≠ ip := by
  constructor
  · intro hmem
    refine ⟨?_, h.others other hmem⟩
    rw [h.eq, mem_append, mem_cons]
    exact (mem_append.mp hmem).imp_right .inr
  · rintro ⟨hmem, hne⟩
    rw [h.eq, mem_append, mem_cons] at hmem
    rw [mem_append]
    rcases hmem with hmem | rfl | hmem
    · exact .inl hmem
    · exact absurd h.address hne
    · exact .inr hmem

omit h

/-- What an update does to a list, and what it tells. -/
theorem updateDevice_eq (history : List Ip) (h : Holds info.ipAddress list front device back) :
    updateDevice history list info = if device.connectStatus ≠ info.connectStatus then
        (insertAt (front ++ back) (calculateIndex history (front ++ back) info) info,
          [.deviceMoved front.length (calculateIndex history (front ++ back) info).toNat info])
      else (front ++ info :: back, [.deviceUpdated front.length info]) := by
  unfold updateDevice
  rw [h.findIdx]
  dsimp only
  rw [h.getElem, h.eraseIdx, h.set]
  simp only [Option.map_some, ne_eq, Option.some.injEq]

/-- A list with a device in the place of the one with its address. -/
structure Renewed (list : List DeviceInfo) (info : DeviceInfo) (later : List DeviceInfo) :
    Prop where
  sorted : Sorted later
  unique : (later.map ipAddress).Nodup
  mem : ∀ other, other ∈ later ↔ other = info ∨ other ∈ list ∧ other.ipAddress ≠ info.ipAddress

/-- Only the statuses matter. -/
theorem Sorted.of_map (h : Sorted list) (heq : other.map connectStatus = list.map connectStatus) :
    Sorted other := by
  have hpairs := h.pairwise
  rw [← pairwise_map (f := connectStatus) (R := fun first second ↦ rank first ≤ rank second),
    ← heq, pairwise_map] at hpairs
  refine ⟨hpairs, fun info hmem hunknown ↦ ?_⟩
  have hstatus : .unknown ∈ list.map connectStatus := by
    rw [← heq, ← hunknown]
    exact mem_map_of_mem hmem
  obtain ⟨origin, horigin, hnone⟩ := mem_map.mp hstatus
  exact h.known origin horigin hnone

/-- The address of a device that is inserted is new. -/
theorem nodup_insert (hunique : ((front ++ back).map ipAddress).Nodup)
    (hnew : ∀ other ∈ front ++ back, other.ipAddress ≠ info.ipAddress) :
    ((front ++ info :: back).map ipAddress).Nodup := by
  rw [map_append, map_cons, nodup_middle, nodup_cons, ← map_append]
  refine ⟨fun hmem ↦ ?_, hunique⟩
  obtain ⟨other, hother, heq⟩ := mem_map.mp hmem
  exact hnew other hother heq

theorem Holds.renewed (h : Holds info.ipAddress list front device back)
    (hunique : (list.map ipAddress).Nodup) {left right : List DeviceInfo}
    (hsplit : front ++ back = left ++ right) (hsorted : Sorted (left ++ info :: right)) :
    Renewed list info (left ++ info :: right) := by
  refine ⟨hsorted, nodup_insert ?_ ?_, fun other ↦ ?_⟩
  · rw [← hsplit]
    refine hunique.sublist (Sublist.map _ ?_)
    rw [h.eq]
    exact (sublist_cons_self device back).append_left front
  · rw [← hsplit]
    exact h.others
  · rw [← h.mem_rest, hsplit, mem_append, mem_append, mem_cons]
    tauto

theorem updateDevice_spec (history : List Ip) (hsorted : Sorted list)
    (hunique : (list.map ipAddress).Nodup)
    (hmem : info.ipAddress ∈ list.map ipAddress)
    (hknown : info.connectStatus ≠ .unknown) :
    Renewed list info (updateDevice history list info).1 ∧
      (updateDevice history list info).2.foldl Signal.apply list =
        (updateDevice history list info).1 := by
  obtain ⟨front, device, back, h⟩ := exists_holds hunique hmem
  rw [updateDevice_eq history h]
  split_ifs with hmove
  · have hrest : Sorted (front ++ back) := by
      refine hsorted.sublist ?_
      rw [h.eq]
      exact (sublist_cons_self device back).append_left front
    obtain ⟨left, right, hsplit, hbetween⟩ := exists_between history info hrest
    rw [hsplit] at hrest
    refine ⟨?_, ?_⟩
    · rw [hsplit, insertAt_of_between hbetween hrest]
      exact h.renewed hunique hsplit (sorted_of_between hbetween hrest hknown)
    · rw [foldl_cons, foldl_nil, Signal.apply, h.eraseIdx]
      rfl
  · rw [ne_eq, not_not] at hmove
    refine ⟨h.renewed hunique rfl ?_, ?_⟩
    · rw [h.eq] at hsorted
      exact hsorted.of_map (by simp [hmove])
    · rw [foldl_cons, foldl_nil, Signal.apply, h.set]

/-! ## The worker -/

/-- Both lists are sorted and without repetitions, and the visible devices are among all. -/
structure Worker.Sound (w : Worker) : Prop where
  sortedAll : Sorted w.allDeviceList
  sortedVisible : Sorted w.visibleDeviceList
  uniqueAll : (w.allDeviceList.map ipAddress).Nodup
  uniqueVisible : (w.visibleDeviceList.map ipAddress).Nodup
  within : ∀ info ∈ w.visibleDeviceList, info ∈ w.allDeviceList
  whole : w.filterText = [] → w.visibleDeviceList = w.allDeviceList

/-- The worker stays sound, and repeating what it tells leads from its list to the new one. -/
structure Advances (w : Worker) (result : Worker × List Signal) : Prop where
  sound : result.1.Sound
  told : result.2.foldl Signal.apply w.visibleDeviceList = result.1.visibleDeviceList

namespace Worker

variable {fold : Char → Char} {w : Worker}

theorem Sound.advances_refl (h : w.Sound) : Advances w (w, []) := ⟨h, rfl⟩

/-- Nothing but the lists and the text matters. -/
theorem Sound.advances_of_same (h : w.Sound) (new : Worker)
    (hall : new.allDeviceList = w.allDeviceList)
    (hvisible : new.visibleDeviceList = w.visibleDeviceList)
    (hfilter : new.filterText = w.filterText) : Advances w (new, []) := by
  refine ⟨⟨?_, ?_, ?_, ?_, ?_, ?_⟩, hvisible.symm⟩ <;> simp only [hall, hvisible, hfilter]
  exacts [h.sortedAll, h.sortedVisible, h.uniqueAll, h.uniqueVisible, h.within, h.whole]

theorem sorted_nil : Sorted [] := ⟨.nil, by simp⟩

theorem mem_map_of_contains : contains list info = true ↔ info.ipAddress ∈ list.map ipAddress := by
  simp only [contains, any_eq_true, decide_eq_true_eq, mem_map]

/-- A list with one more device. -/
theorem insert_spec (history : List Ip) (hsorted : Sorted list)
    (hunique : (list.map ipAddress).Nodup)
    (hnew : info.ipAddress ∉ list.map ipAddress)
    (hknown : info.connectStatus ≠ .unknown) :
    Sorted (insertAt list (calculateIndex history list info) info) ∧
      ((insertAt list (calculateIndex history list info) info).map ipAddress).Nodup ∧
      ∀ other, other ∈ insertAt list (calculateIndex history list info) info ↔
        other = info ∨ other ∈ list := by
  obtain ⟨front, back, rfl, hbetween⟩ := exists_between history info hsorted
  rw [insertAt_of_between hbetween hsorted]
  refine ⟨sorted_of_between hbetween hsorted hknown, nodup_insert hunique ?_, fun other ↦ ?_⟩
  · exact fun other hmem heq ↦ hnew (mem_map.mpr ⟨other, hmem, heq⟩)
  · rw [mem_append, mem_append, mem_cons]
    tauto

theorem Sound.advances_addNew (h : w.Sound) (hnew : contains w.allDeviceList info = false) :
    Advances w (w.addNew fold info) := by
  have hnew : info.ipAddress ∉ w.allDeviceList.map ipAddress := by
    rw [← mem_map_of_contains, hnew]
    simp
  unfold addNew
  generalize hadded : (if info.connectStatus = .unknown then
    { info with connectStatus := .connectable } else info) = added
  have hip : added.ipAddress = info.ipAddress := by
    rw [← hadded]
    split_ifs <;> rfl
  have hknown : added.connectStatus ≠ .unknown := by
    rw [← hadded]
    split_ifs with hunknown
    · simp
    · exact hunknown
  rw [← hip] at hnew
  have hvisible : added.ipAddress ∉ w.visibleDeviceList.map ipAddress := by
    intro hmem
    obtain ⟨device, hdevice, heq⟩ := mem_map.mp hmem
    exact hnew (mem_map.mpr ⟨device, h.within device hdevice, heq⟩)
  obtain ⟨hsorted, hunique, hmem⟩ := insert_spec w.transHistory h.sortedAll h.uniqueAll hnew hknown
  obtain ⟨hsorted', hunique', hmem'⟩ :=
    insert_spec w.transHistory h.sortedVisible h.uniqueVisible hvisible hknown
  dsimp only
  split_ifs with hfilter hmatch
  · refine ⟨⟨hsorted, hsorted', hunique, hunique', fun device hdevice ↦ ?_,
      fun hempty ↦ absurd hempty hfilter⟩, rfl⟩
    rw [hmem]
    exact ((hmem' device).mp hdevice).imp_right (h.within device)
  · refine ⟨⟨hsorted, h.sortedVisible, hunique, h.uniqueVisible, fun device hdevice ↦ ?_,
      fun hempty ↦ absurd hempty hfilter⟩, rfl⟩
    rw [hmem]
    exact .inr (h.within device hdevice)
  · -- Without a text to search for the lists are the same.
    have hwhole := h.whole (by simpa using hfilter)
    refine ⟨⟨hsorted, ?_, hunique, ?_, ?_, fun _ ↦ ?_⟩, rfl⟩
    · rw [hwhole]
      exact hsorted
    · rw [hwhole]
      exact hunique
    · rw [hwhole]
      exact fun _ hdevice ↦ hdevice
    · rw [hwhole]

theorem Sound.advances_update (h : w.Sound) (hold : contains w.allDeviceList info = true)
    (hknown : info.connectStatus ≠ .unknown) : Advances w (w.update info) := by
  obtain ⟨hall, -⟩ := updateDevice_spec w.transHistory h.sortedAll h.uniqueAll
    (mem_map_of_contains.mp hold) hknown
  unfold update
  split_ifs with hvisible
  · obtain ⟨hrenewed, htold⟩ := updateDevice_spec w.transHistory h.sortedVisible h.uniqueVisible
      (mem_map_of_contains.mp hvisible) hknown
    refine ⟨⟨hall.sorted, hrenewed.sorted, hall.unique, hrenewed.unique, fun device hdevice ↦ ?_,
      fun hempty ↦ ?_⟩, htold⟩
    · rw [hall.mem]
      rcases (hrenewed.mem device).mp hdevice with heq | ⟨hin, hne⟩
      · exact .inl heq
      · exact .inr ⟨h.within device hin, hne⟩
    · rw [h.whole hempty]
  · refine ⟨⟨hall.sorted, h.sortedVisible, hall.unique, h.uniqueVisible, fun device hdevice ↦ ?_,
      fun hempty ↦ ?_⟩, rfl⟩
    · rw [hall.mem]
      refine .inr ⟨h.within device hdevice, fun heq ↦ hvisible ?_⟩
      rw [mem_map_of_contains, ← heq]
      exact mem_map_of_mem hdevice
    · rw [h.whole hempty] at hvisible
      exact absurd hold hvisible

/-- A device that is listed is not updated with an unknown status. -/
def Known (w : Worker) (info : DeviceInfo) : Prop :=
  info.ipAddress ≠ w.selfip → contains w.allDeviceList info = true →
    info.connectStatus ≠ .unknown

theorem Sound.advances_addOne (h : w.Sound) (hknown : w.Known info) :
    Advances w (w.addOne fold info) := by
  unfold addOne
  split_ifs with hself hold
  · exact h.advances_refl
  · exact h.advances_update hold (hknown hself hold)
  · exact h.advances_addNew (by simpa using hold)

theorem Sound.advances_addAll (h : w.Sound) {infoList : List DeviceInfo}
    (hknown : Throughout (fun w info ↦ (w.addOne fold info).1) Known w infoList) :
    Advances w (w.addAll fold infoList) := by
  induction infoList generalizing w with
  | nil => exact h.advances_refl
  | cons info rest ih =>
    have hone : Advances w (w.addOne fold info) := h.advances_addOne hknown.1
    have hrest := ih hone.sound hknown.2
    refine ⟨hrest.sound, ?_⟩
    rw [addAll]
    rw [foldl_append, hone.told, hrest.told]

theorem Sound.advances_removeDevice (h : w.Sound) (ip : Ip) : Advances w (w.removeDevice ip) := by
  unfold removeDevice
  split
  · exact h.advances_refl
  · next index hindex =>
    have hmem : ip ∈ w.visibleDeviceList.map ipAddress := by
      obtain ⟨hlt, hip, -⟩ := findIdx?_eq_some_iff_getElem.mp hindex
      exact mem_map.mpr ⟨_, getElem_mem hlt, of_decide_eq_true hip⟩
    obtain ⟨front, device, back, hholds⟩ := exists_holds h.uniqueVisible hmem
    have hfound : front.length = index := Option.some.inj (hholds.findIdx.symm.trans hindex)
    rw [← hfound, hholds.getElem]
    dsimp only
    have herased : Sublist (w.visibleDeviceList.eraseIdx front.length) w.visibleDeviceList :=
      eraseIdx_sublist _ _
    have hall : Sublist (w.allDeviceList.erase device) w.allDeviceList := erase_sublist
    refine ⟨⟨h.sortedAll.sublist hall, h.sortedVisible.sublist herased,
      h.uniqueAll.sublist (hall.map _), h.uniqueVisible.sublist (herased.map _),
      fun other hother ↦ ?_, fun hempty ↦ ?_⟩, rfl⟩
    · rw [hholds.eraseIdx] at hother
      obtain ⟨hin, hne⟩ := hholds.mem_rest.mp hother
      have hdiff : other ≠ device := by
        rintro rfl
        exact hne hholds.address
      exact (mem_erase_of_ne hdiff).mpr (h.within other hin)
    · have hfront : device ∉ front := fun hmem ↦
        hholds.others device (mem_append_left _ hmem) hholds.address
      rw [hholds.eraseIdx, ← h.whole hempty, hholds.eq, erase_append_right _ hfront,
        erase_cons_head]

theorem foldl_mapIdx : (list.mapIdx Signal.sortFilterResult).foldl Signal.apply [] = list := by
  induction list using reverseRecOn with
  | nil => rfl
  | append_singleton list last ih =>
    rw [mapIdx_append, foldl_append, ih]
    simp [Signal.apply]

theorem matching_nil : matching fold [] info = true := by
  simp [matching, containsNoCase]

theorem Sound.filterDevice (h : w.Sound) (filter : List Char) :
    (w.filterDevice fold filter).1.Sound := by
  have hsub : Sublist (w.allDeviceList.filter (matching fold filter)) w.allDeviceList :=
    filter_sublist
  refine ⟨h.sortedAll, h.sortedAll.sublist hsub, h.uniqueAll, h.uniqueAll.sublist (hsub.map _),
    fun info hmem ↦ hsub.subset hmem, fun hempty ↦ ?_⟩
  have hfilter : filter = [] := hempty
  rw [hfilter]
  exact filter_eq_self.mpr fun info _ ↦ matching_nil

end Worker

/-! ## All runs -/

/-- The condition on a call: no listed device is updated with an unknown status. -/
def Usual (fold : Char → Char) (s : Watched) : Event → Prop
  | .addDevice infoList => s.worker.isStoped = false →
    Throughout (fun w info ↦ (w.addOne fold info).1) Worker.Known s.worker infoList
  | _ => True

structure Watched.Sound (s : Watched) : Prop where
  worker : s.worker.Sound
  shown : s.shown = s.worker.visibleDeviceList

variable {s : Watched}

theorem Watched.Sound.of_advances (h : s.Sound) {result : Worker × List Signal}
    (hresult : Advances s.worker result) :
    Watched.Sound ⟨result.1, result.2.foldl Signal.apply s.shown⟩ :=
  ⟨hresult.sound, by rw [h.shown]; exact hresult.told⟩

theorem Watched.Sound.step {fold : Char → Char} {event : Event} (h : s.Sound)
    (husual : Usual fold s event) : (s.step fold event).Sound := by
  cases event with
  | addDevice infoList =>
    have hadvances : Advances s.worker (s.worker.addDevice fold infoList) := by
      unfold Worker.addDevice
      split_ifs with hstopped
      · exact h.worker.advances_refl
      · have hall := h.worker.advances_addAll (husual (by simpa using hstopped))
        refine ⟨hall.sound, ?_⟩
        rw [foldl_append, hall.told]
        rfl
    exact h.of_advances hadvances
  | removeDevice ip => exact h.of_advances (h.worker.advances_removeDevice ip)
  | filterDevice filter =>
    refine ⟨h.worker.filterDevice filter, ?_⟩
    change ((s.worker.filterDevice fold filter).2.foldl Signal.apply []) = _
    rw [Worker.filterDevice, foldl_append, Worker.foldl_mapIdx]
    rfl
  | clear =>
    exact ⟨⟨Worker.sorted_nil, Worker.sorted_nil, .nil, .nil, by simp [Watched.step, Worker.step],
      fun _ ↦ rfl⟩, rfl⟩
  | onTransHistoryUpdated history =>
    exact h.of_advances
      (h.worker.advances_of_same { s.worker with transHistory := history } rfl rfl rfl)
  | setSelfip ip =>
    exact h.of_advances (h.worker.advances_of_same { s.worker with selfip := ip } rfl rfl rfl)
  | stop =>
    exact h.of_advances (h.worker.advances_of_same { s.worker with isStoped := true } rfl rfl rfl)

theorem sound_start : Watched.Sound {} :=
  ⟨⟨Worker.sorted_nil, Worker.sorted_nil, .nil, .nil, by simp, fun _ ↦ rfl⟩, rfl⟩

/-- After every run without unknown updates no address is in a list twice, the lists are sorted,
and who has repeated what the worker told has the visible list. -/
theorem sorted_and_shown (fold : Char → Char) {events : List Event}
    (h : Throughout (Watched.step fold) (Usual fold) {} events) :
    let s := events.foldl (Watched.step fold) {}
    (s.worker.allDeviceList.map ipAddress).Nodup ∧
      (s.worker.visibleDeviceList.map ipAddress).Nodup ∧
      Sorted s.worker.allDeviceList ∧ Sorted s.worker.visibleDeviceList ∧
      s.shown = s.worker.visibleDeviceList := by
  have hsound := Throughout.invariant_foldl (fun _ _ hsound husual ↦ hsound.step husual)
    sound_start h
  exact ⟨hsound.worker.uniqueAll, hsound.worker.uniqueVisible, hsound.worker.sortedAll,
    hsound.worker.sortedVisible, hsound.shown⟩

/-- A second device comes, the first one is connected to, and a search hides the second. -/
theorem sorted_and_shown_search :
    let office : DeviceInfo := ⟨0, ['1'], ['a'], .connectable⟩
    let home : DeviceInfo := ⟨1, ['2'], ['b'], .unknown⟩
    let connected : DeviceInfo := ⟨2, ['1'], ['a'], .connected⟩
    let s := ([.addDevice [home, office], .addDevice [connected], .filterDevice ['a'],
      .removeDevice ['2']] : List Event).foldl (Watched.step id) {}
    s.shown = [connected] ∧ s.shown = s.worker.visibleDeviceList := by
  refine ⟨rfl, (sorted_and_shown id ?_).2.2.2.2⟩
  refine ⟨fun _ ↦ ⟨nofun, nofun, trivial⟩, fun _ ↦ ⟨fun _ _ ↦ nofun, trivial⟩, trivial, trivial,
    trivial⟩

end DdeCooperation.Cooperation.SortFilter
