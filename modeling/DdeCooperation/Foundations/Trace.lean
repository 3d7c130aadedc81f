import Mathlib.Data.List.Basic

/-!
# Labelled traces

A step relation whose steps emit a list of labels, and the traces it generates.
A trace emits the labels of its steps in order. The rules at the end carry a
property of one step to all traces: a property of the state, a property of the
labels, and a property that relates the state to everything emitted before it.
-/

namespace DdeCooperation.Foundations

variable {σ ε : Type*}

/-- Finitely many steps, with the labels they emit. -/
inductive Trace (step : σ → List ε → σ → Prop) : σ → List ε → σ → Prop
  | refl (state : σ) : Trace step state [] state
  | tail {first middle last : σ} {labels new : List ε} (htrace : Trace step first labels middle)
      (hstep : step middle new last) : Trace step first (labels ++ new) last

namespace Trace

variable {step : σ → List ε → σ → Prop} {first middle last : σ} {labels left right : List ε}

theorem single (h : step first labels last) : Trace step first labels last := by
  simpa using (Trace.refl first).tail h

theorem trans (hleft : Trace step first left middle) (hright : Trace step middle right last) :
    Trace step first (left ++ right) last := by
  induction hright with
  | refl => simpa using hleft
  | tail _ hstep ih =>
    rw [← List.append_assoc]
    exact ih.tail hstep

theorem head (hstep : step first left middle) (htrace : Trace step middle right last) :
    Trace step first (left ++ right) last :=
  (single hstep).trans htrace

/-- What every step keeps, every trace keeps. -/
theorem preserves {P : σ → Prop} (hstep : ∀ first labels last, step first labels last → P first → P last)
    (h : Trace step first labels last) (hfirst : P first) : P last := by
  induction h with
  | refl => exact hfirst
  | tail _ hlast ih => exact hstep _ _ _ hlast ih

/-- What holds of the labels of every step from a good state holds of the labels of every trace,
when steps lead from good states to good states. -/
theorem forall_mem {P : σ → Prop} {Q : ε → Prop}
    (hstep : ∀ first labels last, step first labels last → P first → P last)
    (hlabels : ∀ first labels last, step first labels last → P first → ∀ label ∈ labels, Q label)
    (h : Trace step first labels last) (hfirst : P first) : ∀ label ∈ labels, Q label := by
  induction h with
  | refl => simp
  | tail htrace hlast ih =>
    exact List.forall_mem_append.mpr ⟨ih, hlabels _ _ _ hlast (htrace.preserves hstep hfirst)⟩

/-- A relation between a history of labels and the state that every step keeps when it adds its
labels to the history. -/
theorem preserves_history {P : List ε → σ → Prop}
    (hstep : ∀ first labels last, step first labels last →
      ∀ history, P history first → P (history ++ labels) last)
    (h : Trace step first labels last) (history : List ε) (hfirst : P history first) :
    P (history ++ labels) last := by
  induction h with
  | refl => simpa using hfirst
  | tail _ hlast ih =>
    rw [← List.append_assoc]
    exact hstep _ _ _ hlast _ ih

end Trace

end DdeCooperation.Foundations
