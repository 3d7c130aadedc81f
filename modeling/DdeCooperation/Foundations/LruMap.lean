import Mathlib.Data.List.AList
import Mathlib.Data.Finset.Card

/-!
# Maps that forget the least recently used key

The entries of an association list are in the order of their last use. A new key takes the
place of the last one when the map is full. As long as all keys come from a set that fits
into the map, it behaves like any other map.
-/

namespace DdeCooperation.Foundations

variable {κ ν : Type*} [DecidableEq κ]

abbrev LruMap (κ ν : Type*) := AList fun _ : κ ↦ ν

namespace LruMap

variable (capacity : ℕ) (map : LruMap κ ν)

/-- Room for one more key. -/
def evict : LruMap κ ν :=
  if capacity ≤ map.keys.length then
    match map.keys.getLast? with
    | some key => map.erase key
    | none => map
  else map

/-- A key that is there keeps its value. -/
def emplace (key : κ) (value : ν) : LruMap κ ν :=
  let map := map.evict capacity
  if key ∈ map then map else map.insert key value

/-- The entries that pass a test stay, in their order. -/
def sweep (keep : κ → ν → Bool) : LruMap κ ν where
  entries := map.entries.filter fun entry ↦ keep entry.1 entry.2
  nodupKeys := map.nodupKeys.sublist List.filter_sublist

variable {capacity map}

/-- All keys are from a set that fits into the map, and one key of the set is missing. -/
theorem length_keys_lt {allowed : Finset κ} (hallowed : allowed.card ≤ capacity)
    (hkeys : ∀ key ∈ map, key ∈ allowed) {key : κ} (hkey : key ∈ allowed) (hnew : key ∉ map) :
    map.keys.length < capacity := by
  have hsub : map.keys.toFinset ⊆ allowed.erase key := by
    intro other hother
    have hmem : other ∈ map := List.mem_toFinset.mp hother
    exact Finset.mem_erase.mpr ⟨fun heq ↦ hnew (heq ▸ hmem), hkeys other hmem⟩
  have hcard := Finset.card_le_card hsub
  rw [List.toFinset_card_of_nodup map.keys_nodup, Finset.card_erase_of_mem hkey] at hcard
  have hpos : 0 < allowed.card := Finset.card_pos.mpr ⟨key, hkey⟩
  omega

/-- Below its capacity, the map takes a new key and keeps the others. -/
theorem lookup_emplace {key : κ} (value : ν) (hroom : map.keys.length < capacity)
    (hnew : key ∉ map) (other : κ) :
    (map.emplace capacity key value).lookup other =
      if other = key then some value else map.lookup other := by
  unfold emplace evict
  rw [if_neg (not_le.mpr hroom), if_neg hnew]
  split
  · next heq => rw [heq, AList.lookup_insert]
  · next hne => rw [AList.lookup_insert_ne hne]

theorem lookup_sweep (keep : κ → ν → Bool) (key : κ) :
    (map.sweep keep).lookup key = (map.lookup key).filter (keep key) := by
  ext value
  rw [← Option.mem_def, ← Option.mem_def, AList.mem_lookup_iff, sweep, List.mem_filter,
    ← AList.mem_lookup_iff, Option.mem_filter_iff]

end LruMap

end DdeCooperation.Foundations
