import DdeCooperation.Foundations.Bimap
import DdeCooperation.Foundations.Layers
import DdeCooperation.Qt.Values

/-!
# The order in which plugins are loaded

`dependsSort` makes a pair of each dependency on a plugin of the queue and lets `doPluginSort`
take the plugins without open dependencies, layer after layer. The remaining pairs always lead
from one remaining plugin to another, so the sort gets stuck exactly if some of them are on a
cycle; the queue is then used as it is.
-/

namespace DdeCooperation.Framework

open Foundations Relation Qt List AList

/-- The code units that `QString::operator<` compares. -/
def utf16 (text : QString) : List ℕ :=
  text.toList.flatMap fun c ↦
    if c.toNat < 0x10000 then [c.toNat]
    else [0xD800 + (c.toNat - 0x10000) / 0x400, 0xDC00 + (c.toNat - 0x10000) % 0x400]

abbrev QMap (Value : Type) := AList (fun _ : QString ↦ Value)

namespace QMap

variable {Value : Type}

/-- The keys in ascending order. -/
def keys (map : QMap Value) : List QString :=
  (AList.keys map).insertionSort fun a b ↦ utf16 a ≤ utf16 b

def isEmpty (map : QMap Value) : Bool := (keys map).isEmpty

def values (map : QMap Value) : List Value := (keys map).filterMap map.lookup

variable {map : QMap Value}

theorem mem_keys {key : QString} : key ∈ keys map ↔ key ∈ map := by
  rw [keys, List.mem_insertionSort, AList.mem_keys]

theorem nodup_keys (map : QMap Value) : (keys map).Nodup :=
  (perm_insertionSort _ _).nodup_iff.mpr map.nodupKeys

theorem isEmpty_iff : isEmpty map = true ↔ ∀ key, key ∉ map := by
  rw [isEmpty, List.isEmpty_iff, List.eq_nil_iff_forall_not_mem]
  exact forall_congr' fun key ↦ not_congr mem_keys

theorem mem_values {value : Value} : value ∈ values map ↔ ∃ key, map.lookup key = some value := by
  rw [values, mem_filterMap]
  constructor
  · rintro ⟨key, -, hlookup⟩
    exact ⟨key, hlookup⟩
  · rintro ⟨key, hlookup⟩
    exact ⟨key, mem_keys.mpr (lookup_isSome.mp (by rw [hlookup]; rfl)), hlookup⟩

end QMap

structure PluginDepend where
  name : QString

structure PluginMetaObject where
  name : QString
  depends : List PluginDepend

/-- A plugin that is depended on, and a plugin that depends on it. -/
abbrev PluginDependGroup := List (PluginMetaObject × PluginMetaObject)

namespace PluginManagerPrivate

/-- The plugin that depends on another is moved to those of the next round. -/
def postpone (maps : QMap PluginMetaObject × QMap PluginMetaObject)
    (pair : PluginMetaObject × PluginMetaObject) : QMap PluginMetaObject × QMap PluginMetaObject :=
  let rname := pair.2.name
  if rname ∈ maps.1 then
    (maps.1.erase rname, if rname ∈ maps.2 then maps.2 else maps.2.insert rname pair.2)
  else maps

/-- The plugins of this round and those of the next. -/
def split (group : PluginDependGroup) (src : QMap PluginMetaObject) :
    QMap PluginMetaObject × QMap PluginMetaObject :=
  group.foldl postpone (src, ∅)

def remaining (group : PluginDependGroup) (src : QMap PluginMetaObject) : PluginDependGroup :=
  group.filter fun pair ↦ pair.1.name ∉ QMap.keys src

/-- What the rounds use up: the pairs, and at last the plugins. -/
def rounds (group : PluginDependGroup) (src : QMap PluginMetaObject) : ℕ :=
  group.length + if QMap.isEmpty src then 0 else 1

theorem length_remaining_le (group : PluginDependGroup) (src : QMap PluginMetaObject) :
    (remaining group src).length ≤ group.length :=
  length_filter_le _ _

theorem rounds_lt {group next : PluginDependGroup} {src : QMap PluginMetaObject} (hsrc : ¬ QMap.isEmpty src = true)
    (hlength : next.length ≤ group.length) (hless : ¬ (next ≠ [] ∧ next.length = group.length)) :
    rounds next (split group src).2 < rounds group src := by
  rw [rounds, rounds, if_neg hsrc]
  cases group with
  | nil =>
    have hnext : next = [] := length_eq_zero_iff.mp (Nat.le_zero.mp hlength)
    rw [hnext]
    exact Nat.zero_lt_one
  | cons pair group =>
    have hlt : next.length < (pair :: group).length := by
      refine lt_of_le_of_ne hlength fun heq ↦ hless ⟨?_, heq⟩
      rintro rfl
      cases heq
    split_ifs <;> omega

def doPluginSort (group : PluginDependGroup) (src : QMap PluginMetaObject)
    (dest : List PluginMetaObject) : Bool × List PluginMetaObject :=
  if group ≠ [] ∧ QMap.isEmpty src then (false, dest)
  else if group = [] ∧ QMap.isEmpty src then (true, dest)
  else
    let src' := (split group src).1
    let nextSrc := (split group src).2
    let dest' := dest ++ QMap.values src'
    let nextGroup := remaining group src'
    if nextGroup ≠ [] ∧ nextGroup.length = group.length then (false, dest')
    else doPluginSort nextGroup nextSrc dest'
termination_by rounds group src
decreasing_by
  rename_i hcircle hend hstuck
  refine rounds_lt ?_ (length_remaining_le _ _) hstuck
  intro hsrc
  by_cases hgroup : group = []
  · exact hend ⟨hgroup, hsrc⟩
  · exact hcircle ⟨hgroup, hsrc⟩

def sourceMap (srcQueue : List PluginMetaObject) : QMap PluginMetaObject :=
  srcQueue.foldl (fun srcMap ptr ↦ srcMap.insert ptr.name ptr) ∅

/-- The pairs of one plugin; a dependency on an unknown plugin is only logged. -/
def dependPairs (srcMap : QMap PluginMetaObject) (ptr : PluginMetaObject) : PluginDependGroup :=
  ptr.depends.filterMap fun depend ↦ (srcMap.lookup depend.name).map fun depended ↦ (depended, ptr)

def dependsSort (srcQueue : List PluginMetaObject) : List PluginMetaObject :=
  let srcMap := sourceMap srcQueue
  let dependGroup := srcQueue.flatMap (dependPairs srcMap)
  let (sorted, dstQueue) := doPluginSort dependGroup srcMap []
  if sorted then dstQueue else srcQueue

/-! ## One round -/

section Round

variable {queue dest : List PluginMetaObject} {group : PluginDependGroup}
  {src : QMap PluginMetaObject}

/-- The names of the plugins with open dependencies. -/
def dependents (group : PluginDependGroup) : List QString := group.map fun pair ↦ pair.2.name

theorem lookup_split (h : ∀ pair ∈ group, src.lookup pair.2.name = some pair.2) (name : QString) :
    (split group src).1.lookup name = (if name ∈ dependents group then none else src.lookup name) ∧
      (split group src).2.lookup name =
        if name ∈ dependents group then src.lookup name else none := by
  induction group using reverseRecOn generalizing name with
  | nil => exact ⟨rfl, rfl⟩
  | append_singleton group pair ih =>
    obtain ⟨hgroup, hpair⟩ := forall_mem_append.mp h
    have hsecond := hpair pair mem_cons_self
    have hnames : name ∈ dependents (group ++ [pair]) ↔
        name ∈ dependents group ∨ name = pair.2.name := by
      simp [dependents]
    have hsplit : split (group ++ [pair]) src = postpone (split group src) pair := by
      rw [split, foldl_append]
      rfl
    obtain ⟨hsame, hnext⟩ := ih hgroup pair.2.name
    obtain ⟨hname, hnextName⟩ := ih hgroup name
    rw [hsplit, postpone]
    by_cases hold : pair.2.name ∈ dependents group
    · -- The plugin has been postponed for another dependency.
      rw [if_pos hold, lookup_eq_none] at hsame
      rw [if_neg hsame, hname, hnextName]
      simp only [hnames]
      by_cases heq : name = pair.2.name
      · simp [heq, hold]
      · simp [heq]
    · rw [if_neg hold, hsecond] at hsame
      rw [if_neg hold, lookup_eq_none] at hnext
      have hmem : pair.2.name ∈ (split group src).1 := lookup_isSome.mp (by rw [hsame]; rfl)
      rw [if_pos hmem, if_neg hnext]
      simp only [hnames, Bimap.lookup_erase_eq, Bimap.lookup_insert_eq, hname, hnextName]
      by_cases heq : name = pair.2.name
      · rw [heq]
        simp [hsecond]
      · simp [heq]

/-- A plugin of the queue depends on another one of the queue. -/
def Requires (queue : List PluginMetaObject) (plugin depended : PluginMetaObject) : Prop :=
  plugin ∈ queue ∧ depended ∈ queue ∧ ∃ depend ∈ plugin.depends, depend.name = depended.name

/-- The plugins that have not come out yet, with the dependencies on each other; those that
have come out stand behind what they depend on. -/
structure Sorting (queue : List PluginMetaObject) (group : PluginDependGroup)
    (src : QMap PluginMetaObject) (dest : List PluginMetaObject) : Prop where
  keyed : ∀ name plugin, src.lookup name = some plugin → plugin.name = name
  covers : ∀ plugin, plugin ∈ queue ↔ plugin ∈ dest ∨ src.lookup plugin.name = some plugin
  apart : ∀ plugin ∈ dest, plugin.name ∉ src
  nodup : (dest.map PluginMetaObject.name).Nodup
  first : ∀ pair ∈ group, src.lookup pair.1.name = some pair.1
  second : ∀ pair ∈ group, src.lookup pair.2.name = some pair.2
  requires : ∀ pair ∈ group, Requires queue pair.2 pair.1
  pending : ∀ plugin depended, src.lookup plugin.name = some plugin → Requires queue plugin depended →
    depended ∈ dest ∨ (depended, plugin) ∈ group
  layered : Layered (Requires queue) dest

namespace Sorting

variable {plugin : PluginMetaObject}

/-- The plugins that come out in a round are those without open dependencies. -/
theorem mem_values (h : Sorting queue group src dest) :
    plugin ∈ QMap.values (split group src).1 ↔
      src.lookup plugin.name = some plugin ∧ plugin.name ∉ dependents group := by
  rw [QMap.mem_values]
  constructor
  · rintro ⟨name, hlookup⟩
    rw [(lookup_split h.second name).1] at hlookup
    split_ifs at hlookup with hname
    rw [h.keyed name plugin hlookup]
    exact ⟨hlookup, hname⟩
  · rintro ⟨hlookup, hname⟩
    refine ⟨plugin.name, ?_⟩
    rw [(lookup_split h.second plugin.name).1, if_neg hname, hlookup]

theorem lookup_next (h : Sorting queue group src dest) (name : QString) :
    (split group src).2.lookup name = some plugin ↔
      src.lookup name = some plugin ∧ name ∈ dependents group := by
  rw [(lookup_split h.second name).2]
  split_ifs with hname
  · simp [hname]
  · simp [hname]

theorem mem_remaining (h : Sorting queue group src dest) {pair : PluginMetaObject × PluginMetaObject} :
    pair ∈ remaining group (split group src).1 ↔ pair ∈ group ∧ pair.1.name ∈ dependents group := by
  rw [remaining, mem_filter]
  refine and_congr_right fun hpair ↦ ?_
  rw [decide_eq_true_iff, QMap.mem_keys, ← lookup_eq_none, (lookup_split h.second _).1,
    h.first pair hpair]
  split_ifs with hname
  · simp [hname]
  · simp [hname]

/-- The names of the plugins that come out in a round are different. -/
theorem nodup_values (h : Sorting queue group src dest) :
    ((QMap.values (split group src).1).map PluginMetaObject.name).Nodup := by
  have hkeys : ∀ names : List QString, ((names.filterMap (split group src).1.lookup).map
      PluginMetaObject.name).Sublist names := by
    intro names
    induction names with
    | nil => exact List.Sublist.slnil
    | cons name names ih =>
      rw [filterMap_cons]
      rcases hlookup : (split group src).1.lookup name with _ | plugin
      · exact ih.cons name
      · rw [(lookup_split h.second name).1] at hlookup
        split_ifs at hlookup
        rw [map_cons, h.keyed name plugin hlookup]
        exact ih.cons_cons name
  exact (QMap.nodup_keys _).sublist (hkeys _)

theorem step (h : Sorting queue group src dest) :
    Sorting queue (remaining group (split group src).1) (split group src).2
      (dest ++ QMap.values (split group src).1) where
  keyed := fun name plugin hlookup ↦ h.keyed name plugin ((h.lookup_next name).mp hlookup).1
  covers := by
    intro plugin
    rw [h.covers, mem_append, h.mem_values, h.lookup_next, or_assoc, ← and_or_left]
    simp [em']
  apart := by
    intro plugin hplugin hmem
    obtain ⟨found, hfound⟩ := Option.isSome_iff_exists.mp (lookup_isSome.mpr hmem)
    obtain ⟨hlookup, hname⟩ := (h.lookup_next _).mp hfound
    rcases mem_append.mp hplugin with hold | hnew
    · exact h.apart plugin hold (lookup_isSome.mp (by rw [hlookup]; rfl))
    · exact (h.mem_values.mp hnew).2 hname
  nodup := by
    rw [map_append, nodup_append]
    refine ⟨h.nodup, h.nodup_values, ?_⟩
    intro name hold other hnew heq
    obtain ⟨plugin, hplugin, rfl⟩ := mem_map.mp hold
    obtain ⟨fresh, hfresh, rfl⟩ := mem_map.mp hnew
    apply h.apart plugin hplugin
    rw [heq]
    exact lookup_isSome.mp (by rw [(h.mem_values.mp hfresh).1]; rfl)
  first := by
    intro pair hpair
    obtain ⟨hgroup, hname⟩ := h.mem_remaining.mp hpair
    exact (h.lookup_next _).mpr ⟨h.first pair hgroup, hname⟩
  second := by
    intro pair hpair
    obtain ⟨hgroup, -⟩ := h.mem_remaining.mp hpair
    exact (h.lookup_next _).mpr ⟨h.second pair hgroup, mem_map.mpr ⟨pair, hgroup, rfl⟩⟩
  requires := fun pair hpair ↦ h.requires pair (h.mem_remaining.mp hpair).1
  pending := by
    intro plugin depended hlookup hrequires
    rcases h.pending plugin depended ((h.lookup_next _).mp hlookup).1 hrequires with hdest | hgroup
    · exact .inl (mem_append_left _ hdest)
    · by_cases hname : depended.name ∈ dependents group
      · exact .inr (h.mem_remaining.mpr ⟨hgroup, hname⟩)
      · exact .inl (mem_append_right _ (h.mem_values.mpr ⟨h.first _ hgroup, hname⟩))
  layered := by
    refine h.layered.append fun plugin hplugin depended hrequires ↦ ?_
    obtain ⟨hlookup, hname⟩ := h.mem_values.mp hplugin
    rcases h.pending plugin depended hlookup hrequires with hdest | hgroup
    · exact hdest
    · exact absurd (mem_map.mpr ⟨_, hgroup, rfl⟩) hname

/-- A round that uses up no pair: each of them leads to a plugin with open dependencies. -/
theorem exists_cycle (h : Sorting queue group src dest)
    (hne : remaining group (split group src).1 ≠ [])
    (hstuck : (remaining group (split group src).1).length = group.length) :
    ∃ plugin, TransGen (Requires queue) plugin plugin := by
  have hall : remaining group (split group src).1 = group := filter_sublist.eq_of_length hstuck
  rw [hall] at hne
  have hopen : ∀ plugin ∈ group.map Prod.snd, ∃ depended ∈ group.map Prod.snd,
      Requires queue plugin depended := by
    intro plugin hplugin
    obtain ⟨pair, hpair, rfl⟩ := mem_map.mp hplugin
    refine ⟨pair.1, ?_, h.requires pair hpair⟩
    obtain ⟨-, hname⟩ := h.mem_remaining.mp (hall.symm ▸ hpair)
    obtain ⟨other, hother, heq⟩ := mem_map.mp hname
    have hsame := h.second other hother
    rw [heq, h.first pair hpair] at hsame
    exact mem_map.mpr ⟨other, hother, (Option.some.inj hsame).symm⟩
  obtain ⟨plugin, -, hcycle⟩ := exists_transGen_self (by simpa using hne) hopen
  exact ⟨plugin, hcycle⟩

theorem perm (h : Sorting queue group src dest) (hsrc : QMap.isEmpty src = true)
    (hunique : (queue.map PluginMetaObject.name).Nodup) : dest.Perm queue := by
  refine (perm_ext_iff_of_nodup h.nodup.of_map hunique.of_map).mpr fun plugin ↦ ?_
  have hnone := lookup_eq_none.mpr (QMap.isEmpty_iff.mp hsrc plugin.name)
  rw [h.covers plugin, hnone]
  simp

/-- All plugins come out, or some are on a cycle. -/
theorem doPluginSort_spec (h : Sorting queue group src dest)
    (hunique : (queue.map PluginMetaObject.name).Nodup) :
    ((doPluginSort group src dest).1 = true ∧ (doPluginSort group src dest).2.Perm queue ∧
        Layered (Requires queue) (doPluginSort group src dest).2) ∨
      ((doPluginSort group src dest).1 = false ∧ ∃ plugin, TransGen (Requires queue) plugin plugin) := by
  fun_induction doPluginSort group src dest with
  | case1 group src dest hcircle =>
    obtain ⟨pair, hpair⟩ := exists_mem_of_ne_nil group hcircle.1
    have hmem : pair.1.name ∈ src := lookup_isSome.mp (by rw [h.first pair hpair]; rfl)
    exact absurd hmem (QMap.isEmpty_iff.mp hcircle.2 _)
  | case2 group src dest _ hend => exact .inl ⟨rfl, h.perm hend.2 hunique, h.layered⟩
  | case3 group src dest _ _ _ _ _ hstuck => exact .inr ⟨rfl, h.exists_cycle hstuck.1 hstuck.2⟩
  | case4 group src dest _ _ _ _ _ _ _ ih => exact ih h.step

end Sorting

end Round

/-! ## The whole sort -/

section Queue

variable {queue : List PluginMetaObject} (hunique : (queue.map PluginMetaObject.name).Nodup)

include hunique

variable {plugin : PluginMetaObject}

theorem lookup_sourceMap {name : QString} :
    (sourceMap queue).lookup name = some plugin ↔ plugin ∈ queue ∧ plugin.name = name := by
  induction queue using reverseRecOn with
  | nil => simp [sourceMap]
  | append_singleton queue last ih =>
    rw [map_append, nodup_append] at hunique
    obtain ⟨hqueue, -, hlast⟩ := hunique
    have hsource : sourceMap (queue ++ [last]) = (sourceMap queue).insert last.name last := by
      rw [sourceMap, foldl_append]
      rfl
    rw [hsource, Bimap.lookup_insert_eq, mem_append, mem_singleton]
    split_ifs with hname
    · constructor
      · intro hsome
        cases hsome
        exact ⟨.inr rfl, hname.symm⟩
      · rintro ⟨hold | rfl, heq⟩
        · refine absurd (heq.trans hname) (hlast _ (mem_map.mpr ⟨plugin, hold, rfl⟩) _ ?_)
          exact mem_cons_self
        · rfl
    · rw [ih hqueue]
      constructor
      · rintro ⟨hold, heq⟩
        exact ⟨.inl hold, heq⟩
      · rintro ⟨hold | rfl, heq⟩
        · exact ⟨hold, heq⟩
        · exact absurd heq.symm hname

theorem mem_dependGroup {pair : PluginMetaObject × PluginMetaObject} :
    pair ∈ queue.flatMap (dependPairs (sourceMap queue)) ↔ Requires queue pair.2 pair.1 := by
  rw [mem_flatMap]
  constructor
  · rintro ⟨ptr, hptr, hpair⟩
    obtain ⟨depend, hdepend, hsome⟩ := mem_filterMap.mp hpair
    obtain ⟨depended, hlookup, rfl⟩ := Option.map_eq_some_iff.mp hsome
    obtain ⟨hmem, hname⟩ := (lookup_sourceMap hunique).mp hlookup
    exact ⟨hptr, hmem, depend, hdepend, hname.symm⟩
  · rintro ⟨hptr, hmem, depend, hdepend, hname⟩
    refine ⟨pair.2, hptr, mem_filterMap.mpr ⟨depend, hdepend, ?_⟩⟩
    rw [(lookup_sourceMap hunique).mpr ⟨hmem, hname.symm⟩]
    rfl

theorem sorting_start :
    Sorting queue (queue.flatMap (dependPairs (sourceMap queue))) (sourceMap queue) [] where
  keyed := fun _ _ hlookup ↦ ((lookup_sourceMap hunique).mp hlookup).2
  covers := by
    intro plugin
    rw [lookup_sourceMap hunique]
    simp
  apart := fun _ hplugin ↦ nomatch hplugin
  nodup := nodup_nil
  first := fun _ hpair ↦ (lookup_sourceMap hunique).mpr ⟨((mem_dependGroup hunique).mp hpair).2.1, rfl⟩
  second := fun _ hpair ↦ (lookup_sourceMap hunique).mpr ⟨((mem_dependGroup hunique).mp hpair).1, rfl⟩
  requires := fun _ hpair ↦ (mem_dependGroup hunique).mp hpair
  pending := fun _ _ _ hrequires ↦ .inr ((mem_dependGroup hunique).mpr hrequires)
  layered := layered_nil

omit hunique

/-- No plugin of the queue depends on itself, directly or through others of the queue. -/
def Acyclic (queue : List PluginMetaObject) : Prop :=
  ∀ plugin, ¬ TransGen (Requires queue) plugin plugin

/-- The sort always ends. Without a cycle it gives the plugins of the queue in an order where each
comes after all it depends on, and with a cycle the queue itself. -/
theorem dependsSort_spec (hunique : (queue.map PluginMetaObject.name).Nodup) :
    (Acyclic queue → (dependsSort queue).Perm queue ∧
        ∀ before plugin after, dependsSort queue = before ++ plugin :: after →
          ∀ depended, Requires queue plugin depended → depended ∈ before) ∧
      (¬ Acyclic queue → dependsSort queue = queue) := by
  have hsort : dependsSort queue =
      if (doPluginSort (queue.flatMap (dependPairs (sourceMap queue))) (sourceMap queue) []).1 then
        (doPluginSort (queue.flatMap (dependPairs (sourceMap queue))) (sourceMap queue) []).2
      else queue := rfl
  rcases (sorting_start hunique).doPluginSort_spec hunique with
    ⟨hsorted, hperm, hlayered⟩ | ⟨hstuck, plugin, hcycle⟩
  · rw [hsort, if_pos hsorted]
    refine ⟨fun _ ↦ ⟨hperm, hlayered⟩, fun hcyclic ↦ absurd (fun plugin hcycle ↦ ?_) hcyclic⟩
    have hmem : plugin ∈ queue := by
      obtain ⟨next, hnext, -⟩ := TransGen.head'_iff.mp hcycle
      exact hnext.1
    exact hlayered.not_transGen_self (hperm.nodup_iff.mpr hunique.of_map) (hperm.mem_iff.mpr hmem) hcycle
  · rw [hsort, if_neg (by rw [hstuck]; decide)]
    exact ⟨fun hacyclic ↦ absurd hcycle (hacyclic plugin), fun _ ↦ rfl⟩

def core : PluginMetaObject := ⟨"core", []⟩

/-- It depends on the plugin above and on one that is not known. -/
def daemon : PluginMetaObject := ⟨"daemon", [⟨"core"⟩, ⟨"missing"⟩]⟩

theorem requires_daemon {depended : PluginMetaObject}
    (h : Requires [daemon, core] plugin depended) : plugin = daemon ∧ depended = core := by
  obtain ⟨hplugin, hdepended, depend, hdepend, hname⟩ := h
  simp only [mem_cons, not_mem_nil, or_false] at hplugin hdepended
  rcases hplugin with rfl | rfl
  · rcases hdepended with rfl | rfl
    · simp only [daemon, mem_cons, not_mem_nil, or_false] at hdepend hname
      rcases hdepend with rfl | rfl
      · exact absurd hname (by decide)
      · exact absurd hname (by decide)
    · exact ⟨rfl, rfl⟩
  · simp [core] at hdepend

theorem dependsSort_spec_daemon : ([daemon, core].map PluginMetaObject.name).Nodup ∧
    Acyclic [daemon, core] ∧ (dependsSort [daemon, core]).Perm [daemon, core] ∧
    ∀ before plugin after, dependsSort [daemon, core] = before ++ plugin :: after →
      ∀ depended, Requires [daemon, core] plugin depended → depended ∈ before := by
  have hunique : ([daemon, core].map PluginMetaObject.name).Nodup := by decide
  have hacyclic : Acyclic [daemon, core] := by
    intro plugin hcycle
    obtain ⟨next, hnext, -⟩ := TransGen.head'_iff.mp hcycle
    obtain ⟨last, -, hlast⟩ := TransGen.tail'_iff.mp hcycle
    have hname : daemon.name = core.name := by
      rw [← (requires_daemon hnext).1, (requires_daemon hlast).2]
    exact absurd hname (by decide)
  exact ⟨hunique, hacyclic, (dependsSort_spec hunique).1 hacyclic⟩

end Queue

end PluginManagerPrivate

end DdeCooperation.Framework
