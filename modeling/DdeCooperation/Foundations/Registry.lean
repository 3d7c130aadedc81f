import DdeCooperation.Foundations.Bimap

/-!
# Tables that own what they record

A table from keys to things, each of which is recorded under at most one key. Recording
a new thing under a free key and taking a key out of the table change the set of things
that are recorded by exactly that thing. Replacing an entry does not: the old thing is
lost, which is why the rules ask for a free key.
-/

namespace DdeCooperation.Foundations

namespace Registry

variable {κ ν : Type*} [DecidableEq κ] {table : AList (fun _ : κ ↦ ν)} {key : κ} {value other : ν}

/-- The thing is recorded under some key. -/
def Holds (table : AList (fun _ : κ ↦ ν)) (value : ν) : Prop :=
  ∃ key, table.lookup key = some value

/-- Nothing is recorded twice. -/
def Distinct (table : AList (fun _ : κ ↦ ν)) : Prop :=
  ∀ key key' value, table.lookup key = some value → table.lookup key' = some value → key = key'

/-- What is recorded is among the entries. -/
theorem Holds.mem_entries (h : Holds table value) :
    value ∈ table.entries.map (fun entry ↦ entry.2) := by
  obtain ⟨key, hlookup⟩ := h
  exact List.mem_map.mpr ⟨⟨key, value⟩, AList.mem_lookup_iff.mp hlookup, rfl⟩

theorem not_holds_empty (value : ν) : ¬ Holds (∅ : AList (fun _ : κ ↦ ν)) value := by
  rintro ⟨key, hlookup⟩
  simp at hlookup

theorem distinct_empty : Distinct (∅ : AList (fun _ : κ ↦ ν)) := by
  intro key key' value hlookup
  simp at hlookup

/-- Recording under a free key adds one thing and loses none. -/
theorem holds_insert_iff (hfree : key ∉ table) :
    Holds (table.insert key value) other ↔ other = value ∨ Holds table other := by
  constructor
  · rintro ⟨found, hlookup⟩
    rw [Bimap.lookup_insert_eq] at hlookup
    split at hlookup
    · exact .inl (Option.some.inj hlookup).symm
    · exact .inr ⟨found, hlookup⟩
  · rintro (heq | ⟨found, hlookup⟩)
    · rw [heq]
      exact ⟨key, AList.lookup_insert table⟩
    · refine ⟨found, ?_⟩
      rw [Bimap.lookup_insert_eq, if_neg]
      · exact hlookup
      · rintro rfl
        rw [AList.lookup_eq_none.mpr hfree] at hlookup
        cases hlookup

theorem Distinct.insert (h : Distinct table) (hnew : ¬ Holds table value) :
    Distinct (table.insert key value) := by
  intro first second thing hfirst hsecond
  rw [Bimap.lookup_insert_eq] at hfirst hsecond
  split at hfirst
  · next hkey =>
    split at hsecond
    · next hkey' => rw [hkey, hkey']
    · rw [← Option.some.inj hfirst] at hsecond
      exact absurd ⟨second, hsecond⟩ hnew
  · split at hsecond
    · rw [← Option.some.inj hsecond] at hfirst
      exact absurd ⟨first, hfirst⟩ hnew
    · exact h first second thing hfirst hsecond

/-- Taking a key out removes the thing that it records. -/
theorem holds_erase_iff (h : Distinct table) (hlookup : table.lookup key = some value) :
    Holds (table.erase key) other ↔ other ≠ value ∧ Holds table other := by
  constructor
  · rintro ⟨found, hfound⟩
    rw [Bimap.lookup_erase_eq] at hfound
    split at hfound
    · cases hfound
    · next hne =>
      refine ⟨?_, found, hfound⟩
      rintro rfl
      exact hne (h found key other hfound hlookup)
  · rintro ⟨hne, found, hfound⟩
    refine ⟨found, ?_⟩
    rw [Bimap.lookup_erase_eq, if_neg]
    · exact hfound
    · rintro rfl
      exact hne (Option.some.inj (hfound.symm.trans hlookup))

theorem Distinct.erase (h : Distinct table) : Distinct (table.erase key) := by
  intro first second thing hfirst hsecond
  rw [Bimap.lookup_erase_eq] at hfirst hsecond
  split at hfirst
  · cases hfirst
  · split at hsecond
    · cases hsecond
    · exact h first second thing hfirst hsecond

/-- What a table without the key loses is the thing under it at most. -/
theorem holds_erase_of_holds (hholds : Holds table other) :
    Holds (table.erase key) other ∨ table.lookup key = some other := by
  obtain ⟨found, hfound⟩ := hholds
  by_cases hkey : found = key
  · exact .inr (hkey ▸ hfound)
  · refine .inl ⟨found, ?_⟩
    rw [Bimap.lookup_erase_eq, if_neg hkey]
    exact hfound

end Registry

end DdeCooperation.Foundations
