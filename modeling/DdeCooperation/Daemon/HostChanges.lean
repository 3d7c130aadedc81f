import DdeCooperation.Daemon.Searchlight

/-!
# The changes of one host

The changes of an endpoint in the queue end with what the endpoint is now. What the callback
makes of a host depends on the changes with its uuid only, as long as each of them is
accepted: it says that the host is gone, or its text is the one that is kept, or differs
from it by an application that is new or has changed. Then the last change decides.
-/

namespace DdeCooperation.Daemon.Searchlight

open Foundations List Option AList

variable {endpoint : Endpoint} {ι υ : Type}

/-- The callback takes the new text in the place of the old one. -/
def Renews (fmt : Format ι υ) (old cur : ι) : Prop :=
  (fmt.apps cur).isEmpty = false ∧ ((fmt.apps old).isEmpty = true ∨ isUp fmt old cur = true)

instance (fmt : Format ι υ) (old cur : ι) : Decidable (Renews fmt old cur) :=
  inferInstanceAs (Decidable (_ ∧ _))

/-- A change that is not ignored. -/
def Accepts (fmt : Format ι υ) (old : ι) (change : Change ι) : Prop :=
  change.flags ≠ .offline → old = change.info ∨ Renews fmt old change.info

instance [DecidableEq ι] (fmt : Format ι υ) (old : ι) (change : Change ι) :
    Decidable (Accepts fmt old change) :=
  inferInstanceAs (Decidable (_ → _))

/-! ## The queue -/

namespace Discoverer

variable {d : Discoverer ι} {e : Endpoint}

/-- The changes of one endpoint. -/
def changesOf (changes : List (Change ι)) (e : Endpoint) : List (Change ι) :=
  changes.filter fun change ↦ change.endpoint = e

theorem changesOf_append (front back : List (Change ι)) :
    changesOf (front ++ back) e = changesOf front e ++ changesOf back e :=
  filter_append ..

variable (changes : List (Change ι))

include changes

theorem changesOf_eraseP {other : Endpoint} (hne : e ≠ other) :
    changesOf (changes.eraseP fun change ↦ change.endpoint = other) e = changesOf changes e := by
  induction changes with
  | nil => rfl
  | cons change rest ih =>
    unfold changesOf at ih ⊢
    by_cases hother : change.endpoint = other
    · rw [eraseP_cons_of_pos (by simpa using hother), filter_cons_of_neg]
      simpa using hother ▸ hne.symm
    · rw [eraseP_cons_of_neg (by simpa using hother)]
      by_cases he : change.endpoint = e
      · rw [filter_cons_of_pos (by simpa using he),
          filter_cons_of_pos (by simpa using he), ih]
      · rw [filter_cons_of_neg (by simpa using he),
          filter_cons_of_neg (by simpa using he), ih]

theorem getLast?_changesOf_append (change : Change ι) :
    (changesOf (changes ++ [change]) change.endpoint).getLast? = some change := by
  rw [changesOf_append, changesOf, changesOf, filter_cons_of_pos (by simp), filter_nil,
    getLast?_concat]

variable {change : Change ι}

theorem changesOf_append_ne (hne : e ≠ change.endpoint) :
    changesOf (changes ++ [change]) e = changesOf changes e := by
  rw [changesOf_append, changesOf, changesOf, filter_cons_of_neg (by simpa using hne.symm),
    filter_nil, append_nil]

theorem changesOf_enqueue_ne (hne : e ≠ change.endpoint) :
    changesOf (enqueue change changes) e = changesOf changes e := by
  rw [enqueue, changesOf_append_ne _ hne, changesOf_eraseP changes hne]

omit changes

theorem mem_enqueue {other : Change ι} {changes : List (Change ι)}
    (h : other ∈ enqueue change changes) : other ∈ changes ∨ other = change := by
  rcases mem_append.mp h with hold | hnew
  · exact .inl (mem_of_mem_eraseP hold)
  · exact .inr (mem_singleton.mp hnew)

/-- What the endpoint has announced, unless it is idle. -/
def now (d : Discoverer ι) (e : Endpoint) : Option ι := (d.discovered.lookup e).map Seen.info

/-- The last change of an endpoint is what it is now; without any, its entry is. -/
def Current (d : Discoverer ι) (e : Endpoint) (entry : Option (ι × Bool)) : Prop :=
  match (changesOf d.changes e).getLast? with
  | none => entry = (d.now e).map fun info ↦ (info, true)
  | some change => d.now e = if change.flags = .offline then none else some change.info

variable {entry : Option (ι × Bool)}

theorem Current.congr {next : Discoverer ι} (h : d.Current e entry)
    (hchanges : changesOf next.changes e = changesOf d.changes e) (hnow : next.now e = d.now e) :
    next.Current e entry := by
  unfold Current at h ⊢
  rw [hchanges, hnow]
  exact h

/-- A change that says what the endpoint is has come last. -/
theorem current_of_getLast? (entry : Option (ι × Bool))
    (hlast : (changesOf d.changes e).getLast? = some change)
    (hnow : d.now e = if change.flags = .offline then none else some change.info) :
    d.Current e entry := by
  unfold Current
  rw [hlast]
  exact hnow

theorem now_insert (discovered : AList fun _ : Endpoint ↦ Seen ι) (changes : List (Change ι))
    (seen : Seen ι) :
    now ⟨discovered.insert endpoint seen, changes⟩ e =
      if e = endpoint then some seen.info else now ⟨discovered, changes⟩ e := by
  unfold now
  split
  · next heq => rw [heq, lookup_insert, map_some]
  · next hne => rw [lookup_insert_ne hne]

theorem now_erase (discovered : AList fun _ : Endpoint ↦ Seen ι) (changes : List (Change ι)) :
    now ⟨discovered.erase endpoint, changes⟩ e =
      if e = endpoint then none else now ⟨discovered, changes⟩ e := by
  unfold now
  split
  · next heq => rw [heq, lookup_erase, map_none]
  · next hne => rw [lookup_erase_ne hne]

/-! ## One announcement, one expiration -/

theorem now_handleChanges [DecidableEq ι] (hendpoint : endpoint ≠ []) (info : ι) (time now' : ℤ) :
    (d.handleChanges endpoint info time now').now e =
      if e = endpoint then some info else d.now e := by
  unfold handleChanges
  rw [if_neg hendpoint]
  split
  · exact now_insert ..
  · exact now_insert ..

/-- An announcement that changes something is queued behind what is there. -/
theorem current_handleChanges [DecidableEq ι] (hendpoint : endpoint ≠ [])
    (info : ι) (time now' : ℤ) (h : d.Current e entry) :
    (d.handleChanges endpoint info time now').Current e entry := by
  by_cases he : e = endpoint
  · subst he
    unfold handleChanges
    rw [if_neg hendpoint]
    split
    · refine current_of_getLast? entry (getLast?_changesOf_append ..) ?_
      exact (now_insert ..).trans (if_pos rfl)
    · next seen hseen =>
      split
      · next hsame =>
        refine h.congr rfl ((now_insert ..).trans ?_)
        rw [if_pos rfl, now, hseen, map_some, hsame]
      · refine current_of_getLast? entry (getLast?_changesOf_append ..) ?_
        exact (now_insert ..).trans (if_pos rfl)
  · have hnow := now_handleChanges (d := d) (e := e) hendpoint info time now'
    rw [if_neg he] at hnow
    refine h.congr ?_ hnow
    unfold handleChanges
    rw [if_neg hendpoint]
    split
    · exact changesOf_append_ne _ he
    · dsimp only
      split
      · rfl
      · exact changesOf_enqueue_ne _ he

theorem mem_changes_handleChanges [DecidableEq ι] {info : ι} {time now' : ℤ}
    (h : change ∈ (d.handleChanges endpoint info time now').changes) :
    change ∈ d.changes ∨ change.endpoint = endpoint ∧ change.info = info := by
  unfold handleChanges at h
  split at h
  · exact .inl h
  · split at h
    · rcases mem_append.mp h with hold | hnew
      · exact .inl hold
      · rw [mem_singleton.mp hnew]
        exact .inr ⟨rfl, rfl⟩
    · dsimp only at h
      split at h
      · exact .inl h
      · rcases mem_enqueue h with hold | hnew
        · exact .inl hold
        · rw [hnew]
          exact .inr ⟨rfl, rfl⟩

theorem now_expire (endpoint : Endpoint) :
    (d.expire endpoint).now e = if e = endpoint then none else d.now e := by
  unfold expire
  split
  · next hnone =>
    split
    · next heq => rw [heq, now, hnone, map_none]
    · rfl
  · exact now_erase ..

theorem current_expire (endpoint : Endpoint) (h : d.Current e entry) :
    (d.expire endpoint).Current e entry := by
  by_cases he : e = endpoint
  · subst he
    unfold expire
    split
    · exact h
    · refine current_of_getLast? entry (getLast?_changesOf_append ..) ?_
      exact (now_erase ..).trans (if_pos rfl)
  · have hnow := now_expire (d := d) (e := e) endpoint
    rw [if_neg he] at hnow
    refine h.congr ?_ hnow
    unfold expire
    split
    · rfl
    · exact changesOf_enqueue_ne _ he

theorem mem_changes_expire (h : change ∈ (d.expire endpoint).changes) :
    change ∈ d.changes ∨ d.now change.endpoint = some change.info := by
  unfold expire at h
  split at h
  · exact .inl h
  · next seen hseen =>
    rcases mem_enqueue h with hold | hnew
    · exact .inl hold
    · rw [hnew, now, hseen]
      exact .inr rfl

end Discoverer

/-! ## One host -/

section Hosts

/-- What a change makes of the entry of its host, if it is accepted. -/
def absorb (entry : Option (ι × Bool)) (change : Change ι) : ι × Bool :=
  match entry with
  | none => (change.info, true)
  | some (stored, _) =>
    if change.flags = .offline then (stored, false) else (change.info, true)

/-- The entry depends on the last change, unless this is the end of an unknown host. -/
theorem foldl_absorb_concat (entry : Option (ι × Bool)) (front : List (Change ι))
    (last : Change ι) (hknown : last.flags = .offline → entry.isSome = true ∨ front ≠ []) :
    ∃ node, (front ++ [last]).foldl (fun entry change ↦ some (absorb entry change)) entry =
      some node ∧
      if last.flags = .offline then node.2 = false else node = (last.info, true) := by
  rw [foldl_append]
  refine ⟨_, rfl, ?_⟩
  have hbefore : last.flags = .offline → ∃ node,
      front.foldl (fun entry change ↦ some (absorb entry change)) entry = some node := by
    intro hlast
    cases front using reverseRecOn with
    | nil =>
      have hsome := (hknown hlast).resolve_right fun h ↦ h rfl
      exact isSome_iff_exists.mp hsome
    | append_singleton front change =>
      rw [foldl_append]
      exact ⟨_, rfl⟩
  split
  · next hlast =>
    obtain ⟨node, hnode⟩ := hbefore hlast
    rw [hnode, absorb]
    exact congrArg Prod.snd (if_pos hlast)
  · next hlast =>
    unfold absorb
    split
    · rfl
    · exact if_neg hlast

variable [DecidableEq υ] {fmt : Format ι υ} {capacity : ℕ}

theorem erase_erase (uid : υ) (nodes : Nodes ι υ) :
    (nodes.erase uid).erase uid = nodes.erase uid := by
  refine ext (kerase_of_notMem_keys ?_)
  exact fun h ↦ ((mem_erase).mp h).1 rfl

/-- A text that renews another one replaces it, and the last signal is up. -/
theorem compareOldAndNew_of_renews (uid : υ) {old cur : ι}
    (h : Renews fmt old cur) (nodes : Nodes ι υ) :
    (compareOldAndNew fmt capacity uid old cur nodes).1 =
        LruMap.emplace capacity (nodes.erase uid) uid (cur, true) ∧
      ∃ front : List (Signal ι), (compareOldAndNew fmt capacity uid old cur nodes).2 =
        front ++ [⟨true, cur⟩] ∧ ∀ signal ∈ front, signal.info = cur := by
  obtain ⟨hcur, hold⟩ := h
  unfold compareOldAndNew
  rw [if_neg fun hboth ↦ Bool.false_ne_true (hcur.symm.trans hboth.2)]
  cases hempty : (fmt.apps old).isEmpty with
  | true =>
    rw [if_pos ⟨rfl, hcur⟩]
    exact ⟨rfl, [], rfl, by simp⟩
  | false =>
    have hup : isUp fmt old cur = true :=
      hold.resolve_left fun htrue ↦ Bool.false_ne_true (hempty.symm.trans htrue)
    rw [if_neg fun hboth ↦ Bool.false_ne_true hboth.1, if_pos ⟨rfl, hcur⟩]
    cases hdown : isDown fmt old cur with
    | true =>
      simp only [hup, if_true, erase_erase]
      exact ⟨trivial, _, rfl, by simp⟩
    | false =>
      simp only [hup, if_true, Bool.false_eq_true, if_false]
      exact ⟨trivial, _, rfl, by simp⟩

open Discovery

variable {signals : List (Signal ι)} {u : υ}

/-- Signals about one host leave what was told of the others. -/
theorem foldl_hear_of_ne (h : ∀ signal ∈ signals, fmt.uuid signal.info ≠ some u) (told : υ → Bool) :
    signals.foldl (hear fmt) told u = told u := by
  induction signals generalizing told with
  | nil => rfl
  | cons signal rest ih =>
    obtain ⟨hfirst, hrest⟩ := forall_mem_cons.mp h
    rw [foldl_cons, ih hrest]
    cases huid : fmt.uuid signal.info with
    | none => rw [hear, huid]
    | some uid =>
      rw [hear, huid]
      refine Function.update_of_ne (fun heq ↦ hfirst ?_) ..
      rw [huid, heq]

theorem foldl_hear_concat {front : List (Signal ι)} {last : Signal ι} {uid : υ}
    (huid : fmt.uuid last.info = some uid) (told : υ → Bool) :
    (front ++ [last]).foldl (hear fmt) told uid = last.up := by
  rw [foldl_append, foldl_cons, foldl_nil, hear, huid]
  exact Function.update_self ..

variable [DecidableEq ι]

/-- Every entry has its uuid as key, and what was told is what the map has. -/
structure Faithful (fmt : Format ι υ) (nodes : Nodes ι υ) (told : υ → Bool) : Prop where
  keyed : ∀ u node, nodes.lookup u = some node → fmt.uuid node.1 = some u
  told : ∀ u, told u = true ↔ u ∈ nodes

/-- There is room for the hosts of the changes, and each change is accepted after those before
it. -/
structure Acceptable (fmt : Format ι υ) (capacity : ℕ) (allowed : Finset υ) (nodes : Nodes ι υ)
    (changes : List (Change ι)) : Prop where
  fits : allowed.card ≤ capacity
  keys : ∀ key ∈ nodes, key ∈ allowed
  uuid : ∀ change ∈ changes, ∃ uid, fmt.uuid change.info = some uid ∧ uid ∈ allowed
  stored : ∀ change ∈ changes, ∀ uid, fmt.uuid change.info = some uid →
    ∀ node, nodes.lookup uid = some node → Accepts fmt node.1 change
  ordered : changes.Pairwise fun before change ↦
    fmt.uuid before.info = fmt.uuid change.info → Accepts fmt before.info change

variable {nodes : Nodes ι υ} {change : Change ι} {changes : List (Change ι)} {uid : υ}
  {allowed : Finset υ} {told : υ → Bool}

variable (h : Acceptable fmt capacity allowed nodes (change :: changes))
  (huid : fmt.uuid change.info = some uid)

include h huid

omit [DecidableEq ι] in
theorem Acceptable.uid_mem : uid ∈ allowed := by
  obtain ⟨other, hother, hallowed⟩ := h.uuid change mem_cons_self
  rwa [some.inj (huid.symm.trans hother)]

/-- An accepted change sets the entry of its host; the host was there, or is told to be up. -/
theorem takeChange_spec :
    (∀ u, (takeChange fmt capacity nodes change).1.lookup u =
      if u = uid then some (absorb (nodes.lookup uid) change) else nodes.lookup u) ∧
    ((takeChange fmt capacity nodes change).2 = [] ∧ uid ∈ nodes ∨
      ∃ (front : List (Signal ι)) (last : Signal ι),
        (takeChange fmt capacity nodes change).2 = front ++ [last] ∧ last.up = true ∧
          ∀ signal ∈ front ++ [last], fmt.uuid signal.info = some uid) := by
  have hallowed := h.uid_mem huid
  unfold takeChange
  rw [huid]
  dsimp only
  cases hlookup : nodes.lookup uid with
  | none =>
    have hnew : uid ∉ nodes := lookup_eq_none.mp hlookup
    refine ⟨LruMap.lookup_emplace _ (LruMap.length_keys_lt h.fits h.keys hallowed hnew) hnew, ?_⟩
    exact .inr ⟨[], _, rfl, rfl, by simpa using huid⟩
  | some node =>
    obtain ⟨stored, mark⟩ := node
    have hmem : uid ∈ nodes := lookup_isSome.mp (by rw [hlookup]; rfl)
    have hinsert : ∀ (value : ι × Bool) (u : υ), (nodes.insert uid value).lookup u =
        if u = uid then some value else nodes.lookup u := by
      intro value u
      split
      · next heq => rw [heq, lookup_insert]
      · next hne => rw [lookup_insert_ne hne]
    dsimp only [absorb]
    split
    · exact ⟨hinsert _, .inl ⟨rfl, hmem⟩⟩
    · next hflags =>
      split
      · next hsame =>
        rw [← hsame]
        exact ⟨hinsert _, .inl ⟨rfl, hmem⟩⟩
      · next hne =>
        have haccepts := h.stored change mem_cons_self uid huid (stored, mark) hlookup
        have hrenews := (haccepts hflags).resolve_left hne
        obtain ⟨hnodes, front, hsignals, hfront⟩ := compareOldAndNew_of_renews uid
          hrenews (nodes.insert uid (stored, true))
        have hgone : uid ∉ (nodes.insert uid (stored, true)).erase uid :=
          fun h ↦ (mem_erase.mp h).1 rfl
        have hothers : ∀ u, u ≠ uid →
            ((nodes.insert uid (stored, true)).erase uid).lookup u = nodes.lookup u := by
          intro u hu
          rw [lookup_erase_ne hu, hinsert, if_neg hu]
        have hroom := LruMap.length_keys_lt h.fits (fun key hkey ↦ ?_) hallowed hgone
        · refine ⟨fun u ↦ ?_, .inr ⟨front, _, hsignals, rfl, ?_⟩⟩
          · rw [hnodes, LruMap.lookup_emplace _ hroom hgone]
            split
            · rfl
            · next hu => exact hothers u hu
          · intro signal hsignal
            rcases mem_append.mp hsignal with hold | hlast
            · rw [hfront signal hold, huid]
            · rw [mem_singleton.mp hlast, huid]
        · have hkey := mem_erase.mp hkey
          exact h.keys key ((mem_insert nodes).mp hkey.2 |>.resolve_left hkey.1)

/-- What was told stays what the map has. -/
theorem told_takeChange (htold : ∀ u, told u = true ↔ u ∈ nodes) (u : υ) :
    (takeChange fmt capacity nodes change).2.foldl (hear fmt) told u = true ↔
      u ∈ (takeChange fmt capacity nodes change).1 := by
  obtain ⟨hlookup, hsignals⟩ := takeChange_spec h huid
  have hmem : u ∈ (takeChange fmt capacity nodes change).1 ↔ u = uid ∨ u ∈ nodes := by
    rw [← lookup_isSome, hlookup]
    split
    · next heq => simp [heq]
    · next hne => rw [lookup_isSome, or_iff_right hne]
  rw [hmem]
  rcases hsignals with ⟨hnone, huidmem⟩ | ⟨front, last, hsome, hup, hall⟩
  · rw [hnone, foldl_nil, htold]
    exact ⟨.inr, fun h ↦ h.elim (fun heq ↦ heq ▸ huidmem) id⟩
  · rw [hsome]
    by_cases heq : u = uid
    · subst heq
      rw [foldl_hear_concat (hall last (by simp)), hup]
      simp
    · rw [foldl_hear_of_ne, htold, or_iff_right heq]
      intro signal hsignal hsame
      rw [hall signal hsignal] at hsame
      exact heq (some.inj hsame).symm

omit h huid

omit [DecidableEq υ] [DecidableEq ι] in
theorem absorb_fst (entry : Option (ι × Bool)) (change : Change ι) :
    (absorb entry change).1 = change.info ∨
      ∃ node, entry = some node ∧ (absorb entry change).1 = node.1 := by
  unfold absorb
  split
  · exact .inl rfl
  · split
    · exact .inr ⟨_, rfl, rfl⟩
    · exact .inl rfl

/-- The changes of a host. -/
def changesFor (fmt : Format ι υ) (changes : List (Change ι)) (u : υ) : List (Change ι) :=
  changes.filter fun change ↦ fmt.uuid change.info = some u

/-- The entry of a host comes from a change or from before. -/
theorem entry_takeChange (h : Acceptable fmt capacity allowed nodes (change :: changes))
    (huid : fmt.uuid change.info = some uid) {node : ι × Bool}
    (hnode : (takeChange fmt capacity nodes change).1.lookup u = some node) :
    u = uid ∧ node.1 = change.info ∨ ∃ old, nodes.lookup u = some old ∧ node.1 = old.1 := by
  rw [(takeChange_spec h huid).1] at hnode
  split at hnode
  · next heq =>
    rw [← some.inj hnode]
    refine (absorb_fst (nodes.lookup uid) change).imp (fun hnew ↦ ⟨heq, hnew⟩) ?_
    rintro ⟨old, hold, hsame⟩
    exact ⟨old, heq ▸ hold, hsame⟩
  · exact .inr ⟨node, hnode, rfl⟩

/-- After an accepted change, the rest is accepted. -/
theorem Acceptable.takeChange (h : Acceptable fmt capacity allowed nodes (change :: changes)) :
    Acceptable fmt capacity allowed (takeChange fmt capacity nodes change).1 changes := by
  obtain ⟨uid, huid, hallowed⟩ := h.uuid change mem_cons_self
  have hordered := pairwise_cons.mp h.ordered
  refine ⟨h.fits, fun key hkey ↦ ?_, fun later hlater ↦ h.uuid later (mem_cons_of_mem _ hlater),
    fun later hlater other hother node hnode ↦ ?_, hordered.2⟩
  · obtain ⟨node, hnode⟩ := isSome_iff_exists.mp (lookup_isSome.mpr hkey)
    rcases entry_takeChange h huid hnode with ⟨heq, -⟩ | ⟨old, hold, -⟩
    · exact heq ▸ hallowed
    · exact h.keys key (lookup_isSome.mp (by rw [hold]; rfl))
  · rcases entry_takeChange h huid hnode with ⟨heq, hnew⟩ | ⟨old, hold, hsame⟩
    · rw [hnew]
      exact hordered.1 later hlater (by rw [huid, hother, heq])
    · rw [hsame]
      exact h.stored later (mem_cons_of_mem _ hlater) other hother old hold

/-- Each host only depends on its changes, as long as all are accepted. -/
theorem takeChanges_spec (h : Acceptable fmt capacity allowed nodes changes)
    (hfaithful : Faithful fmt nodes told) :
    (∀ u, (takeChanges fmt capacity changes nodes).1.lookup u = (changesFor fmt changes u).foldl
      (fun entry change ↦ some (absorb entry change)) (nodes.lookup u)) ∧
    Faithful fmt (takeChanges fmt capacity changes nodes).1
      ((takeChanges fmt capacity changes nodes).2.foldl (hear fmt) told) := by
  induction changes generalizing nodes told with
  | nil => exact ⟨fun _ ↦ rfl, hfaithful⟩
  | cons change rest ih =>
    obtain ⟨uid, huid, -⟩ := h.uuid change mem_cons_self
    have hnext : Faithful fmt (takeChange fmt capacity nodes change).1
        ((takeChange fmt capacity nodes change).2.foldl (hear fmt) told) := by
      refine ⟨fun u node hnode ↦ ?_, told_takeChange h huid hfaithful.told⟩
      rcases entry_takeChange h huid hnode with ⟨heq, hnew⟩ | ⟨old, hold, hsame⟩
      · rw [hnew, huid, heq]
      · rw [hsame]
        exact hfaithful.keyed u old hold
    obtain ⟨hresult, hrest⟩ := ih h.takeChange hnext
    rw [← foldl_append] at hrest
    refine ⟨fun u ↦ (hresult u).trans ?_, hrest⟩
    rw [(takeChange_spec h huid).1]
    unfold changesFor
    split
    · next heq => rw [heq, filter_cons_of_pos (by simpa using huid), foldl_cons]
    · next hne =>
      rw [filter_cons_of_neg]
      rw [decide_eq_true_eq, huid]
      exact fun h ↦ hne (some.inj h).symm

omit [DecidableEq ι] in
theorem foldl_hear_down (hdown : ∀ signal ∈ signals, signal.up = false) (told : υ → Bool) (u : υ) :
    signals.foldl (hear fmt) told u = true ↔
      told u = true ∧ ∀ signal ∈ signals, fmt.uuid signal.info ≠ some u := by
  induction signals generalizing told with
  | nil => simp
  | cons signal rest ih =>
    obtain ⟨hfirst, hrest⟩ := forall_mem_cons.mp hdown
    rw [foldl_cons, ih hrest, forall_mem_cons, ← and_assoc]
    refine and_congr_left fun _ ↦ ?_
    cases huid : fmt.uuid signal.info with
    | none => simp [hear, huid]
    | some uid =>
      rw [hear, huid]
      by_cases heq : u = uid
      · simp [heq, hfirst]
      · simp [heq, Ne.symm heq]

omit [DecidableEq ι] in
/-- Those without the mark are gone, and told to be down. -/
theorem sweptNodes_spec (h : Faithful fmt nodes told) :
    (∀ u, (sweptNodes fmt nodes).1.lookup u = (nodes.lookup u).filter Prod.snd) ∧
    ∀ u, (sweptNodes fmt nodes).2.foldl (hear fmt) told u = true ↔
      u ∈ (sweptNodes fmt nodes).1 := by
  have hlookup : ∀ u, (sweptNodes fmt nodes).1.lookup u = (nodes.lookup u).filter Prod.snd :=
    LruMap.lookup_sweep _
  refine ⟨hlookup, fun u ↦ ?_⟩
  have hdown : ∀ signal ∈ (sweptNodes fmt nodes).2, signal.up = false := by
    intro signal hsignal
    obtain ⟨node, -, rfl⟩ := mem_map.mp hsignal
    rfl
  -- A signal is about a host exactly if its entry has no mark.
  have hsignals : (∃ signal ∈ (sweptNodes fmt nodes).2, fmt.uuid signal.info = some u) ↔
      ∃ info, nodes.lookup u = some (info, false) := by
    constructor
    · rintro ⟨signal, hsignal, huid⟩
      obtain ⟨⟨key, info, mark⟩, hentry, rfl⟩ := mem_map.mp hsignal
      obtain ⟨hmem, hmark⟩ := mem_filter.mp hentry
      have hnode : nodes.lookup key = some (info, mark) := mem_lookup_iff.mpr hmem
      have hkey := h.keyed key _ hnode
      rw [fmt.uuid_withoutApps, hkey] at huid
      have hmark : mark = false := by simpa using hmark
      rw [← some.inj huid, hnode, hmark]
      exact ⟨info, rfl⟩
    · rintro ⟨info, hnode⟩
      refine ⟨_, mem_map.mpr ⟨⟨u, info, false⟩, mem_filter.mpr ⟨?_, rfl⟩, rfl⟩, ?_⟩
      · exact mem_lookup_iff.mp hnode
      · rw [fmt.uuid_withoutApps]
        exact h.keyed u _ hnode
  rw [foldl_hear_down hdown, h.told, ← lookup_isSome, ← lookup_isSome, hlookup]
  have hnone : (∀ signal ∈ (sweptNodes fmt nodes).2, fmt.uuid signal.info ≠ some u) ↔
      ¬ ∃ info, nodes.lookup u = some (info, false) := by
    rw [← hsignals]
    simp
  rw [hnone]
  cases hnode : nodes.lookup u with
  | none => simp
  | some node =>
    obtain ⟨info, mark⟩ := node
    cases mark with
    | true | false => simp [filter_some]

/-- No host is erased, or the erased iterator leads to the entry behind it. -/
def LeadsOn (fmt : Format ι υ) (nodes : Nodes ι υ) : Prop :=
  nodes.entries.all (fun node ↦ node.2.2) = true ∨ fmt.freed nodes = sweptNodes fmt nodes

omit [DecidableEq ι] [DecidableEq υ] in
theorem sweepNodes_of_leadsOn (h : LeadsOn fmt nodes) : sweepNodes fmt nodes = sweptNodes fmt nodes := by
  unfold sweepNodes
  split
  · next hall =>
    have hmarked : ∀ node ∈ nodes.entries, node.2.2 = true := all_eq_true.mp hall
    have hkept : nodes.sweep (fun _ node ↦ node.2) = nodes :=
      AList.ext (filter_eq_self.mpr hmarked)
    have hnone : (nodes.entries.filter fun node ↦ !node.2.2) = [] :=
      filter_eq_nil_iff.mpr fun node hnode ↦ by simp [hmarked node hnode]
    rw [sweptNodes, hkept, hnone, map_nil]
  · next hsome => exact h.resolve_left hsome

/-- What the callback makes of a queue that is accepted. -/
theorem onServicesChanged_spec (h : Acceptable fmt capacity allowed nodes changes)
    (hleads : LeadsOn fmt (takeChanges fmt capacity changes nodes).1)
    (hfaithful : Faithful fmt nodes told) :
    (∀ u, (onServicesChanged fmt capacity changes nodes).1.lookup u =
      ((changesFor fmt changes u).foldl (fun entry change ↦ some (absorb entry change))
        (nodes.lookup u)).filter Prod.snd) ∧
    (∀ u node, (onServicesChanged fmt capacity changes nodes).1.lookup u = some node →
      node.2 = true ∧ fmt.uuid node.1 = some u) ∧
    ∀ u, (onServicesChanged fmt capacity changes nodes).2.foldl (hear fmt) told u = true ↔
      u ∈ (onServicesChanged fmt capacity changes nodes).1 := by
  obtain ⟨hlookup, htaken⟩ := takeChanges_spec h hfaithful
  obtain ⟨hsweep, htold⟩ := sweptNodes_spec htaken
  rw [← sweepNodes_of_leadsOn hleads] at hsweep htold
  rw [← foldl_append] at htold
  refine ⟨fun u ↦ (hsweep u).trans (by rw [hlookup]), fun u node hnode ↦ ?_, htold⟩
  have hboth := mem_filter_iff.mp ((hsweep u).symm.trans hnode)
  exact ⟨hboth.2, htaken.keyed u node hboth.1⟩

end Hosts

end DdeCooperation.Daemon.Searchlight
