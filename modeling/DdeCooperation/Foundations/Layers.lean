import Mathlib.Data.Set.Finite.List

/-!
# Orders built layer by layer

A list is layered for a relation if everything an element needs stands before it. Such a
list grows by layers whose needs are already met, and its elements are on no cycle. The
other way around, a finite list in which every element still needs another one of the list
has a cycle. Together these say that taking the elements without open needs, layer after
layer, comes to an end exactly if there is no cycle.
-/

namespace DdeCooperation.Foundations

open Relation List

variable {α : Type*} {needs : α → α → Prop} {order layer : List α} {x y : α}

/-- Whatever an element of the list needs stands before it. -/
def Layered (needs : α → α → Prop) (order : List α) : Prop :=
  ∀ before x after, order = before ++ x :: after → ∀ y, needs x y → y ∈ before

theorem layered_nil : Layered needs [] := by
  intro before x after h
  simp at h

/-- A layer whose needs are met is put behind the others. -/
theorem Layered.append (h : Layered needs order) (hlayer : ∀ x ∈ layer, ∀ y, needs x y → y ∈ order) :
    Layered needs (order ++ layer) := by
  intro before x after heq y hneeds
  rcases append_eq_append_iff.mp heq with ⟨front, rfl, hfront⟩ | ⟨rest, horder, hrest⟩
  · have hx : x ∈ layer := by
      rw [hfront]
      simp
    exact mem_append_left _ (hlayer x hx y hneeds)
  · cases rest with
    | nil =>
      rw [append_nil] at horder
      have hx : x ∈ layer := by
        rw [← nil_append layer, ← hrest]
        exact mem_cons_self
      rw [← horder]
      exact hlayer x hx y hneeds
    | cons first rest =>
      obtain ⟨rfl, -⟩ := cons.inj hrest
      exact h before x rest horder y hneeds

theorem Layered.mem_of_transGen (h : Layered needs order) {before after : List α}
    (heq : order = before ++ x :: after) (hneeds : TransGen needs x y) : y ∈ before := by
  induction hneeds with
  | single hone => exact h before x after heq _ hone
  | @tail middle last _ hnext ih =>
    obtain ⟨front, back, rfl⟩ := append_of_mem ih
    have hsplit : order = front ++ middle :: (back ++ x :: after) := by
      rw [heq]
      simp
    exact mem_append_left _ (h front middle _ hsplit last hnext)

/-- Nothing in a layered list needs itself, over however many steps. -/
theorem Layered.not_transGen_self (h : Layered needs order) (hnodup : order.Nodup) (hx : x ∈ order) :
    ¬ TransGen needs x x := by
  intro hcycle
  obtain ⟨before, after, heq⟩ := append_of_mem hx
  have hmem := h.mem_of_transGen heq hcycle
  rw [heq] at hnodup
  exact disjoint_of_nodup_append hnodup hmem mem_cons_self

/-- If everything in a list that is not empty needs something in it, there is a cycle. -/
theorem exists_transGen_self (hne : order ≠ []) (hopen : ∀ x ∈ order, ∃ y ∈ order, needs x y) :
    ∃ x ∈ order, TransGen needs x x := by
  by_contra hnone
  have hirrefl : ∀ x ∈ order, ¬ TransGen needs x x := fun x hx hcycle ↦ hnone ⟨x, hx, hcycle⟩
  let below : {x // x ∈ order} → {x // x ∈ order} → Prop := fun y x ↦ TransGen needs x.1 y.1
  have : IsTrans _ below := ⟨fun _ _ _ hab hbc ↦ hbc.trans hab⟩
  have : Std.Irrefl below := ⟨fun x ↦ hirrefl x.1 x.2⟩
  have : Finite {x // x ∈ order} := (finite_toSet order).to_subtype
  have hwf : WellFounded below := Finite.wellFounded_of_trans_of_irrefl below
  obtain ⟨first, hfirst⟩ := exists_mem_of_ne_nil order hne
  obtain ⟨least, -, hleast⟩ := hwf.has_min Set.univ ⟨⟨first, hfirst⟩, trivial⟩
  obtain ⟨y, hy, hneeds⟩ := hopen least.1 least.2
  exact hleast ⟨y, hy⟩ trivial (.single hneeds)

end DdeCooperation.Foundations
