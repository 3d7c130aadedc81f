import DdeCooperation.Foundations.Runs

/-!
# Settings that save themselves and watch their file

A `Settings` object keeps values in memory, over the values of a fallback and of a default
file. A local write sets a flag and starts a timer; when the timer expires, the values are
written to the file and the flag is cleared. A watcher of the file reports every change of
it, also those that the object made; the object then reads the file again and clears the
flag. `ConfigManager` uses it like this, from any thread: in a thread other than the one
of the timer, starting it is queued.

The report of a write may come when there are newer values in memory. A run keeps what was
last written locally if and only if the file has every value of the object each time a
report is handled. When neither timer nor report is left, the file has every value in any
case.
-/

namespace DdeCooperation.Configs

open Foundations Option Function

abbrev Name := List Char

/-- What Qt does with values; those that compare equal are identified. -/
structure Variants (α β : Type) where
  /-- `QVariant()`. -/
  invalid : α
  isValid : α → Bool
  toVariant : β → α
  fromVariant : α → β
  isValid_invalid : isValid invalid = false
  /-- What was read from a file once is read again as itself. -/
  toVariant_reread : ∀ json, toVariant (fromVariant (toVariant json)) = toVariant json

/-- The hashes of the groups. -/
abbrev Values (α : Type) := Name → Option (Name → Option α)

inductive Group (β : Type) where
  | object (values : Name → Option β)
  | other

/-- A file has no document when it is missing, empty or not an object. -/
abbrev File (β : Type) := Option (Name → Option (Group β))

def isPrivate (group : Name) : Bool :=
  "__".toList.isPrefixOf group && "__".toList.isSuffixOf group

/-- `values.value(group).value(key)`. -/
def find {α : Type} (values : Values α) (group key : Name) : Option α :=
  (values group).bind fun hash ↦ hash key

/-- The values of the two files that are only read. -/
structure Layers (α : Type) where
  fallbackData : Values α
  defaultData : Values α

structure Settings (α β : Type) where
  writableData : Values α
  settingFileIsDirty : Bool
  /-- Whether `syncTimer` is active. -/
  syncTimer : Bool
  /-- Starts (`true`) and stops that other threads have queued for the timer. -/
  queued : List Bool
  settingFile : File β
  /-- Reports of the watcher that are not handled yet. -/
  notifications : ℕ

/-- Local calls, in the thread of the timer or another one, and what the event loop handles.
A write of the file leads to any number of reports. -/
inductive Event (α : Type) where
  | setValue (here : Bool) (group key : Name) (value : α)
  | remove (here : Bool) (group key : Name)
  | removeGroup (here : Bool) (group : Name)
  | deliver
  | timeout (reports : ℕ)
  | fileChanged

section Files

variable {α β : Type} (qt : Variants α β)

/-- `fromJsonFile` into data without values. Private groups are kept elsewhere. -/
def fromJsonFile (file : File β) : Values α := fun group ↦
  match file.bind fun groups ↦ groups group with
  | some (.object values) =>
    if isPrivate group then none else some fun key ↦ (values key).map qt.toVariant
  | _ => none

def toJson (values : Values α) : File β :=
  some fun group ↦ (values group).map fun hash ↦ .object fun key ↦ (hash key).map qt.fromVariant

variable (layers : Layers α)

/-- The value of a key that is not in the writable data. -/
def Layers.value (group key : Name) (defaultValue : α) : α :=
  let value := (find layers.fallbackData group key).getD qt.invalid
  if qt.isValid value then value else (find layers.defaultData group key).getD defaultValue

/-- `Settings::value` over given writable data. -/
def value (values : Values α) (group key : Name) (defaultValue : α) : α :=
  let value := (find values group key).getD qt.invalid
  if qt.isValid value then value else layers.value qt group key defaultValue

end Files

namespace Settings

variable {α β : Type} [DecidableEq α] (qt : Variants α β)

def makeSettingFileToDirty (here dirty : Bool) (s : Settings α β) : Settings α β :=
  if s.settingFileIsDirty = dirty then s
  else if here then { s with settingFileIsDirty := dirty, syncTimer := dirty }
  else { s with settingFileIsDirty := dirty, queued := s.queued ++ [dirty] }

/-- A value that is there already is not written. -/
def setValue (here : Bool) (group key : Name) (value : α) (s : Settings α β) : Settings α β :=
  if find s.writableData group key = some value then s
  else makeSettingFileToDirty here true { s with
    writableData := Function.update s.writableData group
      (some (Function.update ((s.writableData group).getD fun _ ↦ none) key (some value))) }

/-- A group stays when its last key is removed. -/
def remove (here : Bool) (group key : Name) (s : Settings α β) : Settings α β :=
  if find s.writableData group key = none then s
  else makeSettingFileToDirty here true { s with
    writableData := Function.update s.writableData group
      ((s.writableData group).map fun hash ↦ Function.update hash key none) }

def removeGroup (here : Bool) (group : Name) (s : Settings α β) : Settings α β :=
  if (s.writableData group).isNone then s
  else makeSettingFileToDirty here true
    { s with writableData := Function.update s.writableData group none }

def sync (reports : ℕ) (s : Settings α β) : Settings α β :=
  if s.settingFileIsDirty = false then s
  else makeSettingFileToDirty true false { s with
    settingFile := toJson qt s.writableData, notifications := s.notifications + reports }

/-- `_q_onFileChanged`. -/
def onFileChanged (s : Settings α β) : Settings α β :=
  makeSettingFileToDirty true false { s with writableData := fromJsonFile qt s.settingFile }

/-- An event that cannot come changes nothing. -/
def step (s : Settings α β) : Event α → Settings α β
  | .setValue here group key value => s.setValue here group key value
  | .remove here group key => s.remove here group key
  | .removeGroup here group => s.removeGroup here group
  | .deliver =>
    match s.queued with
    | [] => s
    | start :: rest => { s with syncTimer := start, queued := rest }
  | .timeout reports => if s.syncTimer then sync qt reports { s with syncTimer := false } else s
  | .fileChanged =>
    if s.notifications = 0 then s
    else onFileChanged qt { s with notifications := s.notifications - 1 }

/-- The object that `ConfigManager` creates; the watcher wants the file to be there. -/
def init (file : File β) : Settings α β where
  writableData := fromJsonFile qt file
  settingFileIsDirty := false
  syncTimer := false
  queued := []
  settingFile := file
  notifications := 0

end Settings

/-! ## What was last written -/

/-- The valid values that were last written locally, or read at the start. -/
abbrev Record (α : Type) := Name → Name → Option α

namespace Record

variable {α : Type}

def note (record : Record α) : Event α → Record α
  | .setValue _ group key value => Function.update record group
      (Function.update (record group) key (some value))
  | .remove _ group key => Function.update record group (Function.update (record group) key none)
  | .removeGroup _ group => Function.update record group fun _ ↦ none
  | _ => record

/-- What was last written, or the value beneath after a removal. -/
def expected {β : Type} (qt : Variants α β) (layers : Layers α) (record : Record α)
    (group key : Name) (defaultValue : α) : α :=
  (record group key).getD (layers.value qt group key defaultValue)

end Record

/-- Values that a file gives back, in groups that are not private. -/
def Event.Admissible {α β : Type} (qt : Variants α β) : Event α → Prop
  | .setValue _ group _ value => isPrivate group = false ∧ qt.isValid value = true ∧
      qt.toVariant (qt.fromVariant value) = value
  | .remove _ group _ => isPrivate group = false
  | .removeGroup _ group => isPrivate group = false
  | _ => True

instance {α β : Type} [DecidableEq α] (qt : Variants α β) (event : Event α) :
    Decidable (event.Admissible qt) := by
  cases event <;> unfold Event.Admissible <;> infer_instance

/-- The object, and what was last written. -/
structure Watched (α β : Type) where
  settings : Settings α β
  record : Record α

namespace Watched

variable {α β : Type} [DecidableEq α] (qt : Variants α β) (layers : Layers α)

def step (w : Watched α β) (event : Event α) : Watched α β where
  settings := w.settings.step qt event
  record := w.record.note event

def init (file : File β) : Watched α β where
  settings := Settings.init qt file
  record group key := (find (fromJsonFile qt file) group key).filter qt.isValid

def run (file : File β) (events : List (Event α)) : Watched α β :=
  events.foldl (step qt) (init qt file)

/-- The object gives what was last written. -/
def Truthful (w : Watched α β) : Prop :=
  ∀ group key defaultValue,
    value qt layers w.settings.writableData group key defaultValue =
      w.record.expected qt layers group key defaultValue

/-- A new object that reads the file gives the same values. -/
def Saved (w : Watched α β) : Prop :=
  ∀ group key defaultValue,
    value qt layers (fromJsonFile qt w.settings.settingFile) group key defaultValue =
      value qt layers w.settings.writableData group key defaultValue

/-- No timer and no report is pending. -/
def Settled (w : Watched α β) : Prop :=
  w.settings.syncTimer = false ∧ w.settings.queued = [] ∧ w.settings.notifications = 0

/-- A report comes only when the file has every value. -/
def Timely (w : Watched α β) (event : Event α) : Prop :=
  match event with
  | .fileChanged => w.settings.notifications ≠ 0 → w.Saved qt layers
  | _ => True

/-- A report comes only when no local write is waiting to be saved. -/
def Undisturbed (w : Watched α β) (event : Event α) : Prop :=
  match event with
  | .fileChanged => w.settings.settingFileIsDirty = false
  | _ => True

end Watched

/-! ## Reading and writing -/

section Files

variable {α β : Type} {qt : Variants α β} {layers : Layers α}

theorem value_eq_getD (values : Values α) (group key : Name) (defaultValue : α) :
    value qt layers values group key defaultValue = ((find values group key).filter qt.isValid).getD
        (layers.value qt group key defaultValue) := by
  unfold value
  cases hfind : find values group key with
  | none => simp [qt.isValid_invalid]
  | some v =>
    by_cases hvalid : qt.isValid v = true
    · simp [filter_some, hvalid]
    · simp [filter_some, hvalid]

/-- Values that the file gives back, and no private group. -/
structure Storable (qt : Variants α β) (values : Values α) : Prop where
  readBack : ∀ group key v, find values group key = some v → qt.toVariant (qt.fromVariant v) = v
  notPrivate : ∀ group, isPrivate group = true → values group = none

theorem Storable.fromJsonFile_toJson {values : Values α} (h : Storable qt values) :
    fromJsonFile qt (toJson qt values) = values := by
  funext group
  simp only [fromJsonFile, toJson, bind_some]
  cases hgroup : values group with
  | none => rfl
  | some hash =>
    have hpublic : ¬ isPrivate group = true := by
      intro hprivate
      rw [h.notPrivate group hprivate] at hgroup
      cases hgroup
    simp only [map_some, if_neg hpublic]
    congr 1
    funext key
    cases hkey : hash key with
    | none => rfl
    | some v =>
      have hfind : find values group key = some v := by rw [find, hgroup, bind_some, hkey]
      exact congrArg some (h.readBack group key v hfind)

theorem storable_fromJsonFile (file : File β) : Storable qt (fromJsonFile qt file) := by
  constructor
  · intro group key v hfind
    simp only [find, fromJsonFile] at hfind
    split at hfind
    · split at hfind
      · cases hfind
      · rw [bind_some, map_eq_some_iff] at hfind
        obtain ⟨json, -, rfl⟩ := hfind
        exact qt.toVariant_reread json
    · cases hfind
  · intro group hprivate
    simp only [fromJsonFile]
    split
    · rw [if_pos hprivate]
    · rfl

end Files

section Writes

variable {α : Type} (values : Values α) (group key : Name) (g k : Name)

theorem find_update_some (v : α) :
    find (Function.update values group
        (some (Function.update ((values group).getD fun _ ↦ none) key (some v)))) g k =
      if g = group ∧ k = key then some v else find values g k := by
  unfold find
  by_cases hg : g = group
  · subst hg
    by_cases hk : k = key
    · simp [hk]
    · cases hvalues : values g with
      | none | some hash => simp [hk]
  · simp [hg]

theorem find_update_map :
    find (Function.update values group
        ((values group).map fun hash ↦ Function.update hash key none)) g k =
      if g = group ∧ k = key then none else find values g k := by
  unfold find
  by_cases hg : g = group
  · subst hg
    cases hvalues : values g with
    | none => simp
    | some hash =>
      by_cases hk : k = key
      · simp [hk]
      · simp [hk]
  · simp [hg]

theorem find_update_none :
    find (Function.update values group none) g k = if g = group then none else find values g k := by
  unfold find
  by_cases hg : g = group
  · simp [hg]
  · simp [hg]

end Writes

/-! ## The flag, the timer and the file -/

namespace Settings

variable {α β : Type} {qt : Variants α β} {s : Settings α β} {here dirty : Bool}

@[simp]
theorem makeSettingFileToDirty_writableData :
    (makeSettingFileToDirty here dirty s).writableData = s.writableData := by
  unfold makeSettingFileToDirty
  split_ifs <;> rfl

@[simp]
theorem makeSettingFileToDirty_settingFile :
    (makeSettingFileToDirty here dirty s).settingFile = s.settingFile := by
  unfold makeSettingFileToDirty
  split_ifs <;> rfl

@[simp]
theorem makeSettingFileToDirty_settingFileIsDirty :
    (makeSettingFileToDirty here dirty s).settingFileIsDirty = dirty := by
  unfold makeSettingFileToDirty
  split_ifs with hsame
  · exact hsame
  · rfl
  · rfl

/-- Memory can be written to the file; without the flag the file has it, and with the flag
it is going to be written. -/
structure Sound (qt : Variants α β) (s : Settings α β) : Prop where
  storable : Storable qt s.writableData
  clean : s.settingFileIsDirty = false → fromJsonFile qt s.settingFile = s.writableData
  timed : s.settingFileIsDirty = true → s.syncTimer = true ∨ s.queued ≠ []
  starts : ∀ start ∈ s.queued, start = true

theorem sound_init (qt : Variants α β) (file : File β) : (init qt file).Sound qt where
  storable := storable_fromJsonFile file
  clean _ := rfl
  timed h := nomatch h
  starts _ h := nomatch h

/-- A local write. -/
theorem Sound.write (h : s.Sound qt) {values : Values α} (hvalues : Storable qt values)
    (here : Bool) :
    (makeSettingFileToDirty here true { s with writableData := values }).Sound qt := by
  constructor
  · rw [makeSettingFileToDirty_writableData]
    exact hvalues
  · intro hclean
    rw [makeSettingFileToDirty_settingFileIsDirty] at hclean
    cases hclean
  · intro _
    unfold makeSettingFileToDirty
    split_ifs with hsame
    · exact h.timed hsame
    · exact .inl rfl
    · exact .inr (by simp)
  · unfold makeSettingFileToDirty
    split_ifs
    · exact h.starts
    · exact h.starts
    · intro start hstart
      rcases List.mem_append.mp hstart with hold | hnew
      · exact h.starts start hold
      · exact List.mem_singleton.mp hnew

/-- The file and the memory are made equal, by writing or by reading. -/
theorem Sound.equalise {next : Settings α β} (hstarts : ∀ start ∈ next.queued, start = true)
    (hstorable : Storable qt next.writableData)
    (hequal : fromJsonFile qt next.settingFile = next.writableData) :
    (makeSettingFileToDirty true false next).Sound qt := by
  constructor
  · rw [makeSettingFileToDirty_writableData]
    exact hstorable
  · intro _
    rw [makeSettingFileToDirty_settingFile, makeSettingFileToDirty_writableData]
    exact hequal
  · intro hdirty
    rw [makeSettingFileToDirty_settingFileIsDirty] at hdirty
    cases hdirty
  · unfold makeSettingFileToDirty
    rw [if_pos rfl]
    split
    · exact hstarts
    · exact hstarts

variable {group key : Name}

theorem Sound.remove (h : s.Sound qt) : (s.remove here group key).Sound qt := by
  unfold Settings.remove
  split
  · exact h
  · refine h.write ⟨?_, ?_⟩ here
    · intro g k other hfind
      rw [find_update_map] at hfind
      split at hfind
      · cases hfind
      · exact h.storable.readBack g k other hfind
    · intro g hprivate
      by_cases hg : g = group
      · subst hg
        rw [update_self, h.storable.notPrivate g hprivate, map_none]
      · rw [update_of_ne hg]
        exact h.storable.notPrivate g hprivate

theorem Sound.removeGroup (h : s.Sound qt) : (s.removeGroup here group).Sound qt := by
  unfold Settings.removeGroup
  split
  · exact h
  · refine h.write ⟨?_, ?_⟩ here
    · intro g k other hfind
      rw [find_update_none] at hfind
      split at hfind
      · cases hfind
      · exact h.storable.readBack g k other hfind
    · intro g hprivate
      by_cases hg : g = group
      · rw [hg, update_self]
      · rw [update_of_ne hg]
        exact h.storable.notPrivate g hprivate

/-- The timer has fired and is not active any more. -/
theorem Sound.sync (h : s.Sound qt) (reports : ℕ) :
    (Settings.sync qt reports { s with syncTimer := false }).Sound qt := by
  unfold Settings.sync
  split
  · next hclean =>
    refine ⟨h.storable, h.clean, fun hdirty ↦ ?_, h.starts⟩
    rw [hclean] at hdirty
    cases hdirty
  · exact Sound.equalise h.starts h.storable h.storable.fromJsonFile_toJson

variable [DecidableEq α]

theorem Sound.setValue (h : s.Sound qt) {v : α}
    (hgroup : isPrivate group = false) (hv : qt.toVariant (qt.fromVariant v) = v) :
    (s.setValue here group key v).Sound qt := by
  unfold Settings.setValue
  split
  · exact h
  · refine h.write ⟨?_, ?_⟩ here
    · intro g k other hfind
      rw [find_update_some] at hfind
      split at hfind
      · rw [← some.inj hfind]
        exact hv
      · exact h.storable.readBack g k other hfind
    · intro g hprivate
      rw [update_of_ne]
      · exact h.storable.notPrivate g hprivate
      · rintro rfl
        rw [hgroup] at hprivate
        cases hprivate

theorem Sound.step (h : s.Sound qt) {event : Event α} (hevent : event.Admissible qt) :
    (s.step qt event).Sound qt := by
  cases event with
  | setValue here group key v => exact h.setValue hevent.1 hevent.2.2
  | remove here group key => exact h.remove
  | removeGroup here group => exact h.removeGroup
  | deliver =>
    simp only [Settings.step]
    split
    · exact h
    · next start rest hqueued =>
      have hstarts := h.starts
      rw [hqueued, List.forall_mem_cons] at hstarts
      exact ⟨h.storable, h.clean, fun _ ↦ .inl hstarts.1, hstarts.2⟩
  | timeout reports =>
    simp only [Settings.step]
    split
    · exact h.sync reports
    · exact h
  | fileChanged =>
    simp only [Settings.step]
    split
    · exact h
    · exact Sound.equalise h.starts (storable_fromJsonFile _) rfl

theorem step_deliver_writableData (qt : Variants α β) :
    (s.step qt .deliver).writableData = s.writableData := by
  simp only [Settings.step]
  split <;> rfl

theorem step_timeout_writableData (qt : Variants α β) (reports : ℕ) :
    (s.step qt (.timeout reports)).writableData = s.writableData := by
  simp only [Settings.step, Settings.sync]
  split_ifs <;> simp

variable {group key g k : Name}

/-- After a write, a key has the new value, and the others have what they had. -/
theorem find_setValue (v : α) :
    find (s.setValue here group key v).writableData g k =
      if g = group ∧ k = key then some v else find s.writableData g k := by
  unfold setValue
  split
  · next hsame =>
    split
    · next hkey => rw [hkey.1, hkey.2, hsame]
    · rfl
  · rw [makeSettingFileToDirty_writableData, find_update_some]

omit [DecidableEq α] in
theorem find_remove :
    find (s.remove here group key).writableData g k =
      if g = group ∧ k = key then none else find s.writableData g k := by
  unfold remove
  split
  · next hnone =>
    split
    · next hkey => rw [hkey.1, hkey.2, hnone]
    · rfl
  · rw [makeSettingFileToDirty_writableData, find_update_map]

omit [DecidableEq α] in
theorem find_removeGroup :
    find (s.removeGroup here group).writableData g k =
      if g = group then none else find s.writableData g k := by
  unfold removeGroup
  split
  · next hnone =>
    split
    · next hgroup => rw [find, hgroup, isNone_iff_eq_none.mp hnone, bind_none]
    · rfl
  · rw [makeSettingFileToDirty_writableData, find_update_none]

end Settings

/-! ## Runs -/

namespace Watched

variable {α β : Type} [DecidableEq α] {qt : Variants α β} {layers : Layers α} {w : Watched α β}

variable {next : Watched α β}

omit [DecidableEq α] in
/-- Each key has kept what it had, or has what was written to it. -/
theorem Truthful.of_find (h : w.Truthful qt layers) (hfind : ∀ group key,
    (find next.settings.writableData group key = find w.settings.writableData group key ∧
    next.record group key = w.record group key) ∨
    (find next.settings.writableData group key).filter qt.isValid = next.record group key) :
    next.Truthful qt layers := by
  intro group key defaultValue
  rw [value_eq_getD]
  rcases hfind group key with ⟨hsame, hrecord⟩ | hnew
  · rw [hsame, ← value_eq_getD, h group key defaultValue, Record.expected, Record.expected, hrecord]
  · rw [hnew, Record.expected]

omit [DecidableEq α] in
theorem truthful_init (file : File β) : (init qt file).Truthful qt layers := by
  intro group key defaultValue
  rw [value_eq_getD]
  rfl

omit [DecidableEq α] in
theorem Truthful.congr (h : w.Truthful qt layers)
    (hvalues : next.settings.writableData = w.settings.writableData)
    (hrecord : next.record = w.record) : next.Truthful qt layers := by
  refine h.of_find fun group key ↦ .inl ?_
  rw [hvalues, hrecord]
  exact ⟨rfl, rfl⟩

variable {event : Event α}

theorem update_update_of_ne {β : Type*} {f : Name → Name → β} {group key g k : Name} {b : β}
    (h : ¬ (g = group ∧ k = key)) : update f group (update (f group) key b) g k = f g k := by
  by_cases hg : g = group
  · subst hg
    rw [update_self, update_of_ne fun hk ↦ h ⟨rfl, hk⟩]
  · rw [update_of_ne hg]

/-- A local call writes its key or group in memory as in the record. -/
theorem Truthful.step (h : w.Truthful qt layers)
    (hevent : event.Admissible qt) (htimely : w.Timely qt layers event) :
    (w.step qt event).Truthful qt layers := by
  cases event with
  | setValue here group key v =>
    refine h.of_find fun g k ↦ ?_
    simp only [Watched.step, Settings.step, Record.note, Settings.find_setValue]
    by_cases hkey : g = group ∧ k = key
    · obtain ⟨rfl, rfl⟩ := hkey
      exact .inr (by simp [filter_some, hevent.2.1])
    · exact .inl ⟨if_neg hkey, update_update_of_ne hkey⟩
  | remove here group key =>
    refine h.of_find fun g k ↦ ?_
    simp only [Watched.step, Settings.step, Record.note, Settings.find_remove]
    by_cases hkey : g = group ∧ k = key
    · obtain ⟨rfl, rfl⟩ := hkey
      exact .inr (by simp)
    · exact .inl ⟨if_neg hkey, update_update_of_ne hkey⟩
  | removeGroup here group =>
    refine h.of_find fun g k ↦ ?_
    simp only [Watched.step, Settings.step, Record.note, Settings.find_removeGroup]
    by_cases hg : g = group
    · subst hg
      exact .inr (by simp)
    · exact .inl ⟨if_neg hg, by rw [update_of_ne hg]⟩
  | deliver => exact h.congr (Settings.step_deliver_writableData qt) rfl
  | timeout reports => exact h.congr (Settings.step_timeout_writableData qt reports) rfl
  | fileChanged =>
    by_cases hnone : w.settings.notifications = 0
    · refine h.congr ?_ rfl
      simp only [Watched.step, Settings.step, if_pos hnone]
    · intro group key defaultValue
      simp only [Watched.step, Settings.step, if_neg hnone, Settings.onFileChanged,
        Settings.makeSettingFileToDirty_writableData]
      rw [htimely hnone]
      exact h group key defaultValue

/-- If a report leaves the values true, the file had them. -/
theorem timely_of_truthful_step (h : w.Truthful qt layers)
    (hnext : (w.step qt event).Truthful qt layers) : w.Timely qt layers event := by
  cases event with
  | fileChanged =>
    intro hsome group key defaultValue
    have hafter := hnext group key defaultValue
    simp only [Watched.step, Settings.step, if_neg hsome, Settings.onFileChanged,
      Settings.makeSettingFileToDirty_writableData, Record.note] at hafter
    rw [hafter, h group key defaultValue]
  | _ => trivial

omit [DecidableEq α] in
theorem saved_of_clean (h : w.settings.Sound qt) (hclean : w.settings.settingFileIsDirty = false) :
    w.Saved qt layers := by
  intro group key defaultValue
  rw [h.clean hclean]

omit [DecidableEq α] in
theorem Settled.clean (hsettled : w.Settled) (h : w.settings.Sound qt) :
    w.settings.settingFileIsDirty = false := by
  rw [Bool.eq_false_iff]
  intro hdirty
  rcases h.timed hdirty with htimer | hqueued
  · rw [hsettled.1] at htimer
    cases htimer
  · exact hqueued hsettled.2.1

theorem sound_foldl (h : w.settings.Sound qt) {events : List (Event α)}
    (hevents : ∀ event ∈ events, event.Admissible qt) :
    (events.foldl (step qt) w).settings.Sound qt := by
  induction events generalizing w with
  | nil => exact h
  | cons event rest ih =>
    rw [List.forall_mem_cons] at hevents
    exact ih (h.step hevents.1) hevents.2

theorem timely_of_undisturbed (h : w.settings.Sound qt) {events : List (Event α)}
    (hevents : ∀ event ∈ events, event.Admissible qt)
    (hrun : Throughout (step qt) Undisturbed w events) :
    Throughout (step qt) (Timely qt layers) w events := by
  induction events generalizing w with
  | nil => trivial
  | cons event rest ih =>
    rw [List.forall_mem_cons] at hevents
    refine ⟨?_, ih (h.step hevents.1) hevents.2 hrun.2⟩
    cases event with
    | fileChanged => exact fun _ ↦ saved_of_clean h hrun.1
    | _ => trivial

/-- The object gives what was last written, during a whole run, if and only if the file has
every value of the object whenever a report is handled; for this it is enough that no local
write has come between the last save and the report. When no timer and no report is pending,
the file has every value. -/
theorem truthful_iff_timely (qt : Variants α β) (layers : Layers α) (file : File β)
    (events : List (Event α)) (hevents : ∀ event ∈ events, event.Admissible qt) :
    ((∀ front, front <+: events → (run qt file front).Truthful qt layers) ↔
      Throughout (step qt) (Timely qt layers) (init qt file) events) ∧
    (Throughout (step qt) Undisturbed (init qt file) events →
      Throughout (step qt) (Timely qt layers) (init qt file) events) ∧
    ((run qt file events).settings.settingFileIsDirty = false →
      (run qt file events).Saved qt layers) ∧
    ((run qt file events).Settled → (run qt file events).Saved qt layers) := by
  have hsound : (run qt file events).settings.Sound qt :=
    sound_foldl (Settings.sound_init qt file) hevents
  refine ⟨?_, timely_of_undisturbed (Settings.sound_init qt file) hevents, saved_of_clean hsound,
    fun hsettled ↦ saved_of_clean hsound (hsettled.clean hsound)⟩
  refine Throughout.forall_prefix_iff_of_step (fun w event hevent htruthful ↦ ?_)
    (truthful_init file)
  exact ⟨timely_of_truthful_step htruthful, htruthful.step (hevents event hevent)⟩

/-- Numbers, and an invalid value. -/
def sampleVariants : Variants (Option ℕ) ℕ where
  invalid := none
  isValid value := value.isSome
  toVariant := some
  fromVariant value := value.getD 0
  isValid_invalid := rfl
  toVariant_reread _ := rfl

def sampleLayers : Layers (Option ℕ) where
  fallbackData _ := none
  defaultData _ := none

/-- A value is set again after it was saved, before the watcher has reported this. -/
def sampleRun : List (Event (Option ℕ)) :=
  [.setValue true ['g'] ['k'] (some 1), .timeout 1, .setValue true ['g'] ['k'] (some 2),
    .fileChanged]

theorem truthful_iff_timely_sampleRun :
    (∀ event ∈ sampleRun, event.Admissible sampleVariants) ∧
    ((∀ front, front <+: sampleRun →
        (run sampleVariants none front).Truthful sampleVariants sampleLayers) ↔
      Throughout (step sampleVariants) (Timely sampleVariants sampleLayers)
        (init sampleVariants none) sampleRun) :=
  have hadmissible : ∀ event ∈ sampleRun, event.Admissible sampleVariants := by decide
  ⟨hadmissible, (truthful_iff_timely sampleVariants sampleLayers none sampleRun hadmissible).1⟩

/-- The report takes the second value away, and it is never saved. -/
theorem not_truthful_set_again :
    (∀ event ∈ sampleRun, event.Admissible sampleVariants) ∧
    value sampleVariants sampleLayers (run sampleVariants none sampleRun).settings.writableData
        ['g'] ['k'] none = some 1 ∧
    (run sampleVariants none sampleRun).record.expected sampleVariants sampleLayers
        ['g'] ['k'] none = some 2 ∧
    (run sampleVariants none sampleRun).Settled := by
  refine ⟨by decide, by decide, by decide, by decide, by decide, by decide⟩

end Watched

end DdeCooperation.Configs
