import Mathlib.Data.List.Basic

/-!
# Runs of a machine driven by events

A machine moves by a function of its state and the event that comes. `Throughout` says
that every event of a run finds a state with a given relation to it; both the conditions
under which a machine is used and the properties it guarantees are of this kind. The
rule at the end derives the one from the other through an invariant.
-/

namespace DdeCooperation.Foundations

variable {σ ε : Type*} {step : σ → ε → σ}

/-- Every event of the run is related to the state it comes in. -/
def Throughout (step : σ → ε → σ) (related : σ → ε → Prop) : σ → List ε → Prop
  | _, [] => True
  | state, event :: rest =>
    related state event ∧ Throughout step related (step state event) rest

namespace Throughout

variable {guard property : σ → ε → Prop} {invariant : σ → Prop} {state : σ} {events : List ε}

instance decidable [∀ state event, Decidable (guard state event)] :
    ∀ (state : σ) (events : List ε), Decidable (Throughout step guard state events)
  | _, [] => isTrue trivial
  | state, event :: rest =>
    have := decidable (step state event) rest
    inferInstanceAs (Decidable (guard state event ∧ _))

theorem of_append {front rest : List ε} (h : Throughout step guard state (front ++ rest)) :
    Throughout step guard state front := by
  induction front generalizing state with
  | nil => trivial
  | cons event front ih => exact ⟨h.1, ih h.2⟩

/-- The last event of a run comes in the state after the events before it. -/
theorem last {event : ε} (h : Throughout step guard state (events ++ [event])) :
    guard (events.foldl step state) event := by
  induction events generalizing state with
  | nil => exact h.1
  | cons first rest ih => exact ih h.2

theorem mono (himp : ∀ state event, guard state event → property state event)
    (h : Throughout step guard state events) : Throughout step property state events := by
  induction events generalizing state with
  | nil => trivial
  | cons event rest ih => exact ⟨himp state event h.1, ih h.2⟩

theorem congr (h : ∀ state event, guard state event ↔ property state event) :
    Throughout step guard state events ↔ Throughout step property state events := by
  induction events generalizing state with
  | nil => exact Iff.rfl
  | cons event rest ih => exact and_congr (h state event) ih

/-- An invariant that guarded events keep holds after a guarded run. -/
theorem invariant_foldl
    (hkeep : ∀ state event, invariant state → guard state event → invariant (step state event))
    (hinvariant : invariant state) (hguard : Throughout step guard state events) :
    invariant (events.foldl step state) := by
  induction events generalizing state with
  | nil => exact hinvariant
  | cons event rest ih => exact ih (hkeep state event hinvariant hguard.1) hguard.2

/-- What holds after every part of a run holds at its start and after every event. -/
theorem forall_prefix_iff {property : σ → Prop} :
    (∀ front, front <+: events → property (front.foldl step state)) ↔ property state ∧
        Throughout step (fun state event ↦ property (step state event)) state events := by
  induction events generalizing state with
  | nil =>
    constructor
    · exact fun h ↦ ⟨h [] List.prefix_rfl, trivial⟩
    · rintro ⟨hstate, -⟩ front hfront
      rw [List.prefix_nil.mp hfront]
      exact hstate
  | cons event rest ih =>
    constructor
    · intro h
      refine ⟨h [] List.nil_prefix, ih.mp fun front hfront ↦ ?_⟩
      exact h (event :: front) (List.cons_prefix_cons.mpr ⟨rfl, hfront⟩)
    · rintro ⟨hstate, hrest⟩ front hfront
      cases front with
      | nil => exact hstate
      | cons first front =>
        obtain ⟨rfl, hshorter⟩ := List.cons_prefix_cons.mp hfront
        exact ih.mpr hrest front hshorter

/-- If the guard of an event says whether a property stays, the property holds after every
part of a run exactly when the run is guarded. -/
theorem forall_prefix_iff_of_step {property : σ → Prop}
    (hstep : ∀ state, ∀ event ∈ events, property state →
      (property (step state event) ↔ guard state event)) (hstate : property state) :
    (∀ front, front <+: events → property (front.foldl step state)) ↔
      Throughout step guard state events := by
  refine forall_prefix_iff.trans ((and_iff_right hstate).trans ?_)
  induction events generalizing state with
  | nil => exact Iff.rfl
  | cons event rest ih =>
    have hfirst := hstep state event List.mem_cons_self hstate
    have hlater : ∀ state, ∀ event ∈ rest, property state →
        (property (step state event) ↔ guard state event) :=
      fun state event hevent ↦ hstep state event (List.mem_cons_of_mem _ hevent)
    constructor
    · rintro ⟨hnext, h⟩
      exact ⟨hfirst.mp hnext, (ih hlater hnext).mp h⟩
    · rintro ⟨hguard, h⟩
      have hnext := hfirst.mpr hguard
      exact ⟨hnext, (ih hlater hnext).mpr h⟩

/-- In a guarded run, what the invariant guarantees of one event holds throughout. -/
theorem of_invariant
    (hkeep : ∀ state event, invariant state → guard state event → invariant (step state event))
    (hproperty : ∀ state event, invariant state → guard state event → property state event)
    (hinvariant : invariant state) (hguard : Throughout step guard state events) :
    Throughout step property state events := by
  induction events generalizing state with
  | nil => trivial
  | cons event rest ih =>
    refine ⟨hproperty state event hinvariant hguard.1, ?_⟩
    exact ih (hkeep state event hinvariant hguard.1) hguard.2

end Throughout

end DdeCooperation.Foundations
