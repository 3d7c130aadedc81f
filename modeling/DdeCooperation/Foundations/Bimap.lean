import Mathlib.Data.List.AList

/-!
# Two maps kept as inverses of each other

A partial one-to-one correspondence between two types of keys, stored as a map in
each direction. `link` makes a pair correspond and first drops the partners the two
keys had; `unlink` drops a key together with its partner. Both keep the maps inverse
to each other, and what they do is described by the forward map alone.
-/

namespace DdeCooperation.Foundations

open Option

/-- A map in each direction. -/
structure Bimap (α β : Type*) where
  forth : AList (fun _ : α ↦ β)
  back : AList (fun _ : β ↦ α)

namespace Bimap

variable {α β : Type*} [DecidableEq α] [DecidableEq β]

/-- The two maps are inverses on their domains. -/
def Inverse (m : Bimap α β) : Prop := ∀ a b, m.forth.lookup a = some b ↔ m.back.lookup b = some a

def empty : Bimap α β := ⟨∅, ∅⟩

/-- Drop the partner of the first key from the backward map. -/
def forgetForth (m : Bimap α β) (a : α) : Bimap α β :=
  match m.forth.lookup a with
  | some b => { m with back := m.back.erase b }
  | none => m

/-- Drop the partner of the second key from the forward map. -/
def forgetBack (m : Bimap α β) (b : β) : Bimap α β :=
  match m.back.lookup b with
  | some a => { m with forth := m.forth.erase a }
  | none => m

def link (m : Bimap α β) (a : α) (b : β) : Bimap α β :=
  let m := (m.forgetForth a).forgetBack b
  ⟨m.forth.insert a b, m.back.insert b a⟩

def unlink (m : Bimap α β) (b : β) : Bimap α β :=
  match m.back.lookup b with
  | some a => ⟨m.forth.erase a, m.back.erase b⟩
  | none => m

theorem inverse_empty : (empty : Bimap α β).Inverse := by
  intro a b
  simp [empty]

theorem lookup_erase_eq {κ ν : Type*} [DecidableEq κ] (m : AList (fun _ : κ ↦ ν)) (key other : κ) :
    (m.erase key).lookup other = if other = key then none else m.lookup other := by
  by_cases h : other = key
  · rw [if_pos h, h, AList.lookup_erase]
  · rw [if_neg h, AList.lookup_erase_ne h]

theorem lookup_insert_eq {κ ν : Type*} [DecidableEq κ] (m : AList (fun _ : κ ↦ ν)) (key other : κ)
    (value : ν) :
    (m.insert key value).lookup other = if other = key then some value else m.lookup other := by
  by_cases h : other = key
  · rw [if_pos h, h, AList.lookup_insert]
  · rw [if_neg h, AList.lookup_insert_ne h]

variable {m : Bimap α β}

theorem lookup_back_forgetForth (h : m.Inverse) (a : α) (b : β) :
    (m.forgetForth a).back.lookup b =
      if m.back.lookup b = some a then none else m.back.lookup b := by
  unfold forgetForth
  cases ha : m.forth.lookup a with
  | none =>
    rw [if_neg]
    intro hb
    rw [(h a b).mpr hb] at ha
    cases ha
  | some partner =>
    have hiff : b = partner ↔ m.back.lookup b = some a := by
      rw [← h a b, ha, some.injEq, eq_comm]
    simp only [lookup_erase_eq, hiff]

/-- What `link` does to the forward map: the pair corresponds, and a key that had the
second key as its partner has none any more. -/
theorem lookup_forth_link (h : m.Inverse) (a : α) (b : β) (key : α) :
    (m.link a b).forth.lookup key =
      if key = a then some b else if m.forth.lookup key = some b then none
      else m.forth.lookup key := by
  have hforth : (m.forgetForth a).forth = m.forth := by
    unfold forgetForth
    split <;> rfl
  by_cases hkey : key = a
  · rw [if_pos hkey, link, lookup_insert_eq, if_pos hkey]
  · rw [if_neg hkey, link, lookup_insert_eq, if_neg hkey, forgetBack]
    have hback := lookup_back_forgetForth h a b
    cases hb : m.back.lookup b with
    | none =>
      have hne : m.forth.lookup key ≠ some b := by
        rw [Ne, h key b, hb]
        exact nofun
      rw [hb, ite_self] at hback
      simp only [hback, hforth, if_neg hne]
    | some old =>
      rw [hb] at hback
      by_cases hold : old = a
      · have hne : m.forth.lookup key ≠ some b := by
          rw [Ne, h key b, hb, hold, some.injEq]
          exact fun heq ↦ hkey heq.symm
        rw [hold, if_pos rfl] at hback
        simp only [hback, hforth, if_neg hne]
      · have hiff : key = old ↔ m.forth.lookup key = some b := by
          rw [h key b, hb, some.injEq, eq_comm]
        rw [if_neg (fun heq ↦ hold (some.inj heq))] at hback
        simp only [hback, hforth, lookup_erase_eq, hiff]

theorem lookup_back_link (h : m.Inverse) (a : α) (b key : β) :
    (m.link a b).back.lookup key =
      if key = b then some a else if m.back.lookup key = some a then none
      else m.back.lookup key := by
  have hback : ((m.forgetForth a).forgetBack b).back = (m.forgetForth a).back := by
    unfold forgetBack
    split <;> rfl
  rw [link, lookup_insert_eq, hback, lookup_back_forgetForth h]

theorem Inverse.link (h : m.Inverse) (a : α) (b : β) : (m.link a b).Inverse := by
  intro x y
  rw [lookup_forth_link h, lookup_back_link h]
  by_cases hx : x = a
  · by_cases hy : y = b
    · rw [if_pos hx, if_pos hy, hx, hy]
      exact ⟨fun _ ↦ rfl, fun _ ↦ rfl⟩
    · rw [if_pos hx, if_neg hy, hx]
      constructor
      · intro heq
        exact absurd (some.inj heq).symm hy
      · intro heq
        split at heq
        · cases heq
        · next hne => exact absurd heq hne
  · rw [if_neg hx]
    by_cases hy : y = b
    · rw [if_pos hy, hy]
      constructor
      · intro heq
        split at heq
        · cases heq
        · next hne => exact absurd heq hne
      · intro heq
        exact absurd (some.inj heq).symm hx
    · -- neither key is one of the new pair
      rw [if_neg hy]
      by_cases hforth : m.forth.lookup x = some b
      · rw [if_pos hforth]
        refine iff_of_false nofun fun heq ↦ ?_
        split at heq
        · cases heq
        · rw [← h x y, hforth] at heq
          exact hy (some.inj heq).symm
      · rw [if_neg hforth]
        by_cases hback : m.back.lookup y = some a
        · rw [if_pos hback]
          refine iff_of_false (fun heq ↦ ?_) nofun
          rw [h x y, hback] at heq
          exact hx (some.inj heq).symm
        · rw [if_neg hback]
          exact h x y

/-- What `unlink` does to the forward map. -/
theorem lookup_forth_unlink (h : m.Inverse) (b : β) (key : α) :
    (m.unlink b).forth.lookup key =
      if m.forth.lookup key = some b then none else m.forth.lookup key := by
  unfold unlink
  cases hb : m.back.lookup b with
  | none =>
    rw [if_neg]
    rw [h key b, hb]
    exact nofun
  | some a =>
    have hiff : key = a ↔ m.forth.lookup key = some b := by
      rw [h key b, hb, some.injEq, eq_comm]
    simp only [lookup_erase_eq, hiff]

theorem lookup_back_unlink (b key : β) :
    (m.unlink b).back.lookup key = if key = b then none else m.back.lookup key := by
  unfold unlink
  cases hb : m.back.lookup b with
  | none =>
    by_cases hkey : key = b
    · rw [if_pos hkey, hkey, hb]
    · rw [if_neg hkey]
  | some a => rw [lookup_erase_eq]

theorem Inverse.unlink (h : m.Inverse) (b : β) : (m.unlink b).Inverse := by
  intro x y
  rw [lookup_forth_unlink h, lookup_back_unlink]
  by_cases hy : y = b
  · rw [if_pos hy, hy]
    refine iff_of_false (fun heq ↦ ?_) nofun
    split at heq
    · cases heq
    · next hne => exact hne heq
  · rw [if_neg hy]
    by_cases hx : m.forth.lookup x = some b
    · rw [if_pos hx, ← h x y, hx]
      exact iff_of_false nofun fun heq ↦ hy (some.inj heq).symm
    · rw [if_neg hx]
      exact h x y

end Bimap

end DdeCooperation.Foundations
