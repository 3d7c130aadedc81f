import DdeCooperation.Foundations.Runs
import DdeCooperation.Daemon.HostChanges

/-!
# Where the older discovery converges

After all queued changes have been given to the callback, the hosts that `DiscoveryJob`
keeps are those that some endpoint announces, each with its latest text, provided that
every endpoint has a uuid of its own, and that each time the queue is given away: the hosts
fit into the map; a host that is gone was known, or announced in the same queue; and every
text in the queue differs from the ones before it, if at all, by an application that is new
or has changed; and the loop that erases the hosts that are gone finds its way on.
-/

namespace DdeCooperation.Daemon.Searchlight

open Foundations List Option

variable {ι υ : Type}

namespace Discovery

variable [DecidableEq ι] [DecidableEq υ]

/-- The hosts fit into the map, every text in the queue is accepted, and a host that is gone
was known or announced in the same queue. -/
def Receivable (fmt : Format ι υ) (capacity : ℕ) (s : Discovery ι υ) : Prop :=
  (s.nodes.keys ++ s.discoverer.changes.filterMap fun change ↦
    fmt.uuid change.info).toFinset.card ≤ capacity ∧
  (∀ change ∈ s.discoverer.changes, ∀ uid ∈ fmt.uuid change.info,
    ∀ node ∈ s.nodes.lookup uid, Accepts fmt node.1 change) ∧
  (s.discoverer.changes.Pairwise fun before change ↦
    fmt.uuid before.info = fmt.uuid change.info → Accepts fmt before.info change) ∧
  ∀ change ∈ s.discoverer.changes, change.flags = .offline → ∀ uid ∈ fmt.uuid change.info,
    uid ∈ s.nodes ∨ 2 ≤ (changesFor fmt s.discoverer.changes uid).length

instance (fmt : Format ι υ) (capacity : ℕ) (s : Discovery ι υ) :
    Decidable (s.Receivable fmt capacity) :=
  inferInstanceAs (Decidable (_ ∧ _ ∧ _ ∧ _))

/-- The queue is given away only when it is receivable, and the loop behind it leads on. -/
def Expects (fmt : Format ι υ) (capacity : ℕ) (s : Discovery ι υ) : Event ι → Prop
  | .deliver => s.Receivable fmt capacity ∧
      LeadsOn fmt (takeChanges fmt capacity s.discoverer.changes s.nodes).1
  | _ => True

/-- An endpoint and what it announces. -/
def announced : Event ι → Option (Endpoint × ι)
  | .announce endpoint info _ _ => if endpoint = [] then none else some (endpoint, info)
  | _ => none

/-- Every announcement has a uuid, and every endpoint one of its own. -/
def Owned (fmt : Format ι υ) (events : List (Event ι)) : Prop :=
  ∀ a ∈ events.filterMap announced, (fmt.uuid a.2).isSome ∧
    ∀ b ∈ events.filterMap announced, a.1 = b.1 ↔ fmt.uuid a.2 = fmt.uuid b.2

instance (fmt : Format ι υ) (events : List (Event ι)) : Decidable (Owned fmt events) :=
  inferInstanceAs (Decidable (∀ a ∈ _, _ ∧ ∀ b ∈ _, _))

/-- What holds between deliveries, for endpoints that are paired with uuids. -/
structure Inv (fmt : Format ι υ) (pairs : Endpoint → υ → Prop) (s : Discovery ι υ) : Prop where
  seen : ∀ e info, s.discoverer.now e = some info →
    ∃ u, fmt.uuid info = some u ∧ pairs e u ∧ s.latest u = some info
  queued : ∀ change ∈ s.discoverer.changes,
    ∃ u, fmt.uuid change.info = some u ∧ pairs change.endpoint u
  kept : ∀ u node, s.nodes.lookup u = some node →
    node.2 = true ∧ fmt.uuid node.1 = some u ∧ ∃ e, pairs e u
  told : ∀ u, s.told u = true ↔ u ∈ s.nodes
  current : ∀ e u, pairs e u → s.discoverer.Current e (s.nodes.lookup u)

variable {fmt : Format ι υ} {capacity : ℕ} {pairs : Endpoint → υ → Prop} {s : Discovery ι υ}

omit [DecidableEq ι] in
theorem inv_init : (init : Discovery ι υ).Inv fmt pairs where
  seen e info h := by cases h
  queued change h := by cases h
  kept u node h := by cases h
  told u := by simp [init]
  current e u _ := rfl

theorem Inv.announce (h : s.Inv fmt pairs)
    (howned : ∀ e u e' u', pairs e u → pairs e' u' → (e = e' ↔ u = u'))
    {endpoint : Endpoint} {info : ι} (time now : ℤ)
    (hpair : endpoint ≠ [] → ∃ u, fmt.uuid info = some u ∧ pairs endpoint u) :
    (s.step fmt capacity (.announce endpoint info time now)).Inv fmt pairs := by
  by_cases hendpoint : endpoint = []
  · have hsame : s.step fmt capacity (.announce endpoint info time now) = s := by
      simp only [step, Discoverer.handleChanges, note, hendpoint, if_true]
      split <;> rfl
    rw [hsame]
    exact h
  · obtain ⟨u, hu, hpaired⟩ := hpair hendpoint
    have hlatest : note fmt s.latest endpoint info = Function.update s.latest u (some info) := by
      rw [note, hu]
      exact if_neg hendpoint
    refine ⟨fun e other hother ↦ ?_, fun change hchange ↦ ?_, h.kept, h.told, fun e v hev ↦ ?_⟩
    · have hnow := Discoverer.now_handleChanges (d := s.discoverer) (e := e) hendpoint info time now
      change (s.discoverer.handleChanges endpoint info time now).now e = some other at hother
      rw [hnow] at hother
      change ∃ v, fmt.uuid other = some v ∧ pairs e v ∧
        note fmt s.latest endpoint info v = some other
      rw [hlatest]
      split at hother
      · next heq =>
        rw [← some.inj hother, heq]
        exact ⟨u, hu, hpaired, Function.update_self ..⟩
      · next hne =>
        obtain ⟨v, hv, hev, hsaid⟩ := h.seen e other hother
        refine ⟨v, hv, hev, ?_⟩
        rw [Function.update_of_ne fun heq ↦ hne ((howned e v endpoint u hev hpaired).mpr heq)]
        exact hsaid
    · rcases Discoverer.mem_changes_handleChanges hchange with hold | ⟨hend, hinfo⟩
      · exact h.queued change hold
      · rw [hend, hinfo]
        exact ⟨u, hu, hpaired⟩
    · exact Discoverer.current_handleChanges hendpoint info time now (h.current e v hev)

omit [DecidableEq ι] in
theorem Inv.expire (h : s.Inv fmt pairs) (endpoint : Endpoint) :
    Inv fmt pairs { s with discoverer := s.discoverer.expire endpoint } := by
  refine ⟨fun e info hinfo ↦ ?_, fun change hchange ↦ ?_, h.kept, h.told, fun e u hpair ↦ ?_⟩
  · have hnow := Discoverer.now_expire (d := s.discoverer) (e := e) endpoint
    rw [hnow] at hinfo
    split at hinfo
    · cases hinfo
    · exact h.seen e info hinfo
  · rcases Discoverer.mem_changes_expire hchange with hold | hnow
    · exact h.queued change hold
    · obtain ⟨u, hu, hpair, -⟩ := h.seen _ _ hnow
      exact ⟨u, hu, hpair⟩
  · exact Discoverer.current_expire endpoint (h.current e u hpair)

theorem Inv.removeIdle (h : s.Inv fmt pairs) (now : ℤ) :
    (s.step fmt capacity (.removeIdle now)).Inv fmt pairs := by
  suffices ∀ (endpoints : List Endpoint) (s : Discovery ι υ), s.Inv fmt pairs →
      Inv fmt pairs { s with discoverer := endpoints.foldl Discoverer.expire s.discoverer } from
    this (s.discoverer.idle now) s h
  intro endpoints
  induction endpoints with
  | nil => exact fun s h ↦ h
  | cons endpoint rest ih => exact fun s h ↦ ih _ (h.expire endpoint)

variable {e : Endpoint} {u : υ}

omit [DecidableEq ι] in
/-- The changes of a host are those of its endpoint. -/
theorem Inv.changesFor_eq (h : s.Inv fmt pairs)
    (howned : ∀ e u e' u', pairs e u → pairs e' u' → (e = e' ↔ u = u')) (hpair : pairs e u) :
    changesFor fmt s.discoverer.changes u = Discoverer.changesOf s.discoverer.changes e := by
  refine filter_congr fun change hchange ↦ ?_
  obtain ⟨v, hv, hother⟩ := h.queued change hchange
  rw [hv, decide_eq_decide, some_inj, howned _ _ _ _ hother hpair]

variable (h : s.Inv fmt pairs) (howned : ∀ e u e' u', pairs e u → pairs e' u' → (e = e' ↔ u = u'))

include h howned

omit [DecidableEq ι] in
/-- What is left of the entry of a host is what its endpoint is now. -/
theorem Inv.filter_foldl_absorb (hreceivable : s.Receivable fmt capacity) (hpair : pairs e u) :
    ((changesFor fmt s.discoverer.changes u).foldl (fun entry change ↦ some (absorb entry change))
      (s.nodes.lookup u)).filter Prod.snd = (s.discoverer.now e).map fun info ↦ (info, true) := by
  have hcurrent := h.current e u hpair
  unfold Discoverer.Current at hcurrent
  rw [← h.changesFor_eq howned hpair] at hcurrent
  rcases eq_nil_or_concat (changesFor fmt s.discoverer.changes u) with
    hnone | ⟨front, last, hsome⟩
  · rw [hnone] at hcurrent ⊢
    rw [foldl_nil, hcurrent]
    cases s.discoverer.now e <;> rfl
  · have hlast : last ∈ changesFor fmt s.discoverer.changes u := by simp [hsome]
    obtain ⟨hmem, huid⟩ := mem_filter.mp hlast
    have hknown : last.flags = .offline → (s.nodes.lookup u).isSome = true ∨ front ≠ [] := by
      intro hoffline
      rcases hreceivable.2.2.2 last hmem hoffline u (of_decide_eq_true huid) with hin | htwo
      · exact .inl (AList.lookup_isSome.mpr hin)
      · rw [hsome] at htwo
        refine .inr fun hfront ↦ ?_
        simp [hfront] at htwo
    obtain ⟨node, hnode, hresult⟩ := foldl_absorb_concat (s.nodes.lookup u) front last hknown
    rw [hsome, concat_eq_append] at hcurrent ⊢
    rw [getLast?_concat] at hcurrent
    rw [hnode, filter_some]
    dsimp only at hcurrent
    rw [hcurrent]
    split at hresult
    · next hoffline => rw [hresult, if_pos hoffline]; rfl
    · next hoffline => rw [hresult, if_neg hoffline]; rfl

theorem Inv.deliver (hreceivable : s.Receivable fmt capacity)
    (hleads : LeadsOn fmt (takeChanges fmt capacity s.discoverer.changes s.nodes).1) :
    (s.step fmt capacity .deliver).Inv fmt pairs := by
  by_cases hempty : s.discoverer.changes.isEmpty = true
  · rw [step, if_pos hempty]
    exact h
  · have huuid : ∀ change ∈ s.discoverer.changes, ∃ uid, fmt.uuid change.info = some uid ∧
        uid ∈ (s.nodes.keys ++ s.discoverer.changes.filterMap fun change ↦
          fmt.uuid change.info).toFinset := by
      intro change hchange
      obtain ⟨uid, huid, -⟩ := h.queued change hchange
      refine ⟨uid, huid, mem_toFinset.mpr (mem_append_right _ ?_)⟩
      exact mem_filterMap.mpr ⟨change, hchange, huid⟩
    obtain ⟨hlookup, hkept, htold⟩ := onServicesChanged_spec
      ⟨hreceivable.1, fun key hkey ↦ mem_toFinset.mpr (mem_append_left _ hkey), huuid,
        hreceivable.2.1, hreceivable.2.2.1⟩ hleads ⟨fun u node hnode ↦ (h.kept u node hnode).2.1, h.told⟩
    rw [step, if_neg hempty]
    refine ⟨h.seen, fun change hchange ↦ absurd hchange not_mem_nil, fun u node hnode ↦ ?_,
      htold, fun e u hpair ↦ ?_⟩
    · obtain ⟨hmark, huid⟩ := hkept u node hnode
      refine ⟨hmark, huid, ?_⟩
      -- The host was known, or a change in the queue is about it.
      rcases eq_nil_or_concat (changesFor fmt s.discoverer.changes u) with
        hnone | ⟨front, last, hsome⟩
      · have hold := mem_filter_iff.mp ((hlookup u).symm.trans hnode)
        rw [hnone] at hold
        exact (h.kept u node hold.1).2.2
      · have hlast : last ∈ changesFor fmt s.discoverer.changes u := by simp [hsome]
        obtain ⟨hmem, hlastUid⟩ := mem_filter.mp hlast
        obtain ⟨v, hv, hpair⟩ := h.queued last hmem
        rw [of_decide_eq_true hlastUid] at hv
        exact ⟨last.endpoint, some.inj hv ▸ hpair⟩
    · exact (hlookup u).trans (h.filter_foldl_absorb howned hreceivable hpair)

theorem Inv.foldl {events : List (Event ι)}
    (hpairs : ∀ a ∈ events.filterMap announced, ∃ u, fmt.uuid a.2 = some u ∧ pairs a.1 u)
    (hguard : Throughout (step fmt capacity) (Expects fmt capacity) s events) :
    (events.foldl (step fmt capacity) s).Inv fmt pairs := by
  induction events generalizing s with
  | nil => exact h
  | cons event rest ih =>
    have hrest : ∀ a ∈ rest.filterMap announced, ∃ u, fmt.uuid a.2 = some u ∧ pairs a.1 u := by
      intro a ha
      obtain ⟨other, hother, heq⟩ := mem_filterMap.mp ha
      exact hpairs a (mem_filterMap.mpr ⟨other, mem_cons_of_mem _ hother, heq⟩)
    refine ih ?_ hrest hguard.2
    cases event with
    | announce endpoint info time now =>
      refine h.announce howned time now fun hendpoint ↦ hpairs (endpoint, info) ?_
      exact mem_filterMap.mpr ⟨_, mem_cons_self, if_neg hendpoint⟩
    | removeIdle now => exact h.removeIdle now
    | deliver => exact h.deliver howned hguard.1.1 hguard.1.2

omit h howned

/-- When all changes were delivered, and each time receivable, the hosts are the live ones,
each with what was announced last, and the signals have said so. -/
theorem converged_of_receivable (fmt : Format ι υ) (capacity : ℕ) (events : List (Event ι))
    (howned : Owned fmt events)
    (hreceivable : Throughout (step fmt capacity) (Expects fmt capacity) init events)
    (hdelivered : (run fmt capacity events).discoverer.changes = []) :
    (run fmt capacity events).Converged fmt := by
  have hinv : (run fmt capacity events).Inv fmt
      fun e u ↦ ∃ a ∈ events.filterMap announced, a.1 = e ∧ fmt.uuid a.2 = some u := by
    refine inv_init.foldl ?_ (fun a ha ↦ ?_) hreceivable
    · rintro e u e' u' ⟨a, ha, rfl, hu⟩ ⟨b, hb, rfl, hu'⟩
      rw [(howned a ha).2 b hb, hu, hu', some_inj]
    · obtain ⟨u, hu⟩ := isSome_iff_exists.mp (howned a ha).1
      exact ⟨u, hu, a, ha, rfl, hu⟩
  have hentry : ∀ e u, (∃ a ∈ events.filterMap announced, a.1 = e ∧ fmt.uuid a.2 = some u) →
      (run fmt capacity events).nodes.lookup u =
        ((run fmt capacity events).discoverer.now e).map fun info ↦ (info, true) := by
    intro e u hpair
    have hcurrent := hinv.current e u hpair
    unfold Discoverer.Current at hcurrent
    rw [hdelivered] at hcurrent
    exact hcurrent
  -- A host that is kept is what its endpoint has announced last.
  have hkept : ∀ u node, (run fmt capacity events).nodes.lookup u = some node →
      (∃ e, (run fmt capacity events).discoverer.now e = some node.1) ∧
        fmt.uuid node.1 = some u := by
    intro u node hnode
    obtain ⟨-, huid, e, hpair⟩ := hinv.kept u node hnode
    rw [hentry e u hpair] at hnode
    obtain ⟨info, hnow, rfl⟩ := map_eq_some_iff.mp hnode
    exact ⟨⟨e, hnow⟩, huid⟩
  refine ⟨fun u ↦ ⟨fun hmem ↦ ?_, ?_⟩, fun u node hnode ↦ ?_, hinv.told⟩
  · obtain ⟨node, hnode⟩ := isSome_iff_exists.mp (AList.lookup_isSome.mpr hmem)
    obtain ⟨⟨e, hnow⟩, huid⟩ := hkept u node hnode
    obtain ⟨seen, hseen, hinfo⟩ := map_eq_some_iff.mp hnow
    exact ⟨e, seen, hseen, hinfo ▸ huid⟩
  · rintro ⟨e, seen, hseen, huid⟩
    have hnow : (run fmt capacity events).discoverer.now e = some seen.info := by
      rw [Discoverer.now, hseen, map_some]
    obtain ⟨v, hv, hpair, -⟩ := hinv.seen e seen.info hnow
    rw [huid] at hv
    have hlookup := hentry e v hpair
    rw [hnow, ← some.inj hv] at hlookup
    exact AList.lookup_isSome.mp (by rw [hlookup]; rfl)
  · obtain ⟨⟨e, hnow⟩, huid⟩ := hkept u node hnode
    obtain ⟨v, hv, -, hlatest⟩ := hinv.seen e node.1 hnow
    rw [huid] at hv
    rw [some.inj hv, hlatest]

/-- A uuid, an address and applications; a freed node still leads to the next one. -/
def sampleFormat : Format (ℕ × ℕ × List App) ℕ where
  uuid info := some info.1
  apps info := info.2.2
  withoutApps info := (info.1, info.2.1, [])
  uuid_withoutApps _ := rfl
  freed nodes := (nodes.sweep fun _ node ↦ node.2,
    (nodes.entries.filter fun node ↦ !node.2.2).map fun node ↦ ⟨false, node.2.1.1, node.2.1.2.1, []⟩)

def sampleApp : App := ⟨['a'], ['x']⟩

/-- A host comes, gets an application, and is idle after that. -/
def sampleRun : List (Event (ℕ × ℕ × List App)) :=
  [.announce ['e'] (1, 0, []) 0 0, .deliver, .announce ['e'] (1, 0, [sampleApp]) 100 100, .deliver,
    .removeIdle 4000, .deliver]

theorem converged_sampleRun :
    Owned sampleFormat sampleRun ∧
    Throughout (step sampleFormat 1024) (Expects sampleFormat 1024) init sampleRun ∧
    (run sampleFormat 1024 sampleRun).Converged sampleFormat :=
  have howned : Owned sampleFormat sampleRun := by decide
  have hreceivable :
      Throughout (step sampleFormat 1024) (Expects sampleFormat 1024) init sampleRun :=
    ⟨trivial, ⟨by decide, .inl (by decide)⟩, trivial, ⟨by decide, .inl (by decide)⟩, trivial,
      ⟨by decide, .inr rfl⟩, trivial⟩
  ⟨howned, hreceivable, converged_of_receivable sampleFormat 1024 sampleRun howned hreceivable rfl⟩

/-- The address of the host changes, and its application does not. -/
def sharedRun : List (Event (ℕ × ℕ × List App)) :=
  [.announce ['e'] (1, 0, [sampleApp]) 0 0, .deliver, .announce ['e'] (1, 5, [sampleApp]) 1 1,
    .deliver]

/-- The host closes its last application. -/
def closedRun : List (Event (ℕ × ℕ × List App)) :=
  [.announce ['e'] (1, 0, [sampleApp]) 0 0, .deliver, .announce ['e'] (1, 0, []) 1 1, .deliver]

/-- Of two endpoints of the host, one is idle. -/
def twoEndpointsRun : List (Event (ℕ × ℕ × List App)) :=
  [.announce ['e'] (1, 0, []) 0 0, .announce ['f'] (1, 0, []) 2000 2000, .deliver,
    .removeIdle 4000, .deliver]

/-- The host is idle before its announcement is delivered. -/
def lateRun : List (Event (ℕ × ℕ × List App)) :=
  [.announce ['e'] (1, 0, []) 0 0, .removeIdle 4000, .deliver]

/-- The map has an old text, lacks a host that is live, and has one that is gone. -/
theorem not_converged_samples :
    ¬ (run sampleFormat 1024 sharedRun).Converged sampleFormat ∧
    ¬ (run sampleFormat 1024 closedRun).Converged sampleFormat ∧
    ¬ (run sampleFormat 1024 twoEndpointsRun).Converged sampleFormat ∧
    ¬ (run sampleFormat 1024 lateRun).Converged sampleFormat := by
  refine ⟨fun h ↦ ?_, fun h ↦ ?_, fun h ↦ ?_, fun h ↦ ?_⟩
  · exact absurd (h.2.1 1 _ rfl) (by decide)
  · exact absurd ((h.1 1).mpr ⟨['e'], _, rfl, rfl⟩) (by decide)
  · exact absurd ((h.1 1).mpr ⟨['f'], _, rfl, rfl⟩) (by decide)
  · obtain ⟨e, seen, hseen, -⟩ := (h.1 1).mp (by decide)
    cases hseen

end Discovery

end DdeCooperation.Daemon.Searchlight
