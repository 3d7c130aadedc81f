import Mathlib.Logic.Basic

/-!
# Computations that may halt

A computation changes a state and gives a result, or halts with an error; the changes it
made until then stay. `Returns` says how a computation ends when it does not halt, and the
rules below derive this for the sequence of two computations and for the loops over a list,
where an invariant relates the elements done so far to the state.
-/

namespace DdeCooperation.Foundations

abbrev Computation (σ ε : Type) := ExceptT ε (StateM σ)

namespace Computation

variable {σ ε α β : Type}

/-- From the state, the computation gives the result and ends in the second state. -/
def Returns (x : Computation σ ε α) (s : σ) (a : α) (s' : σ) : Prop := x.run.run s = (.ok a, s')

variable {x : Computation σ ε α} {next : α → Computation σ ε β} {s s' s'' : σ} {a : α} {b : β}

theorem returns_of_ok (h : (x.run.run s).1 = .ok a) : Returns x s a (x.run.run s).2 := Prod.ext h rfl

theorem returns_pure (a : α) (s : σ) : Returns (pure a : Computation σ ε α) s a s := rfl

theorem returns_get (s : σ) : Returns (get : Computation σ ε σ) s s s := rfl

theorem returns_set (s s' : σ) : Returns (set s' : Computation σ ε PUnit) s () s' := rfl

theorem returns_modify (f : σ → σ) (s : σ) :
    Returns (modify f : Computation σ ε PUnit) s () (f s) := rfl

theorem Returns.bind (h : Returns x s a s') (h' : Returns (next a) s' b s'') :
    Returns (x >>= next) s b s'' := by
  unfold Returns at h h' ⊢
  rw [ExceptT.run_bind, StateT.run_bind, h]
  exact h'

/-- A sequence that returns has a first part that returns. -/
theorem Returns.of_bind (h : Returns (x >>= next) s b s'') :
    ∃ a s', Returns x s a s' ∧ Returns (next a) s' b s'' := by
  unfold Returns at h ⊢
  rw [ExceptT.run_bind, StateT.run_bind] at h
  rcases hx : x.run.run s with ⟨result, s'⟩
  rw [hx] at h
  cases result with
  | error e => cases h
  | ok a => exact ⟨a, s', rfl, h⟩

theorem Returns.of_pure {a : α} {s' : σ} {a' : α}
    (h : Returns (pure a : Computation σ ε α) s a' s') : a' = a ∧ s' = s := by
  cases h
  exact ⟨rfl, rfl⟩

/-- A loop over a list, with what holds after each part of it. -/
theorem returns_foldlM {f : β → α → Computation σ ε β} (invariant : List α → β → σ → Prop)
    (l : List α)
    (hstep : ∀ done x rest b s, l = done ++ x :: rest → invariant done b s →
      ∃ b' s', Returns (f b x) s b' s' ∧ invariant (done ++ [x]) b' s')
    {b : β} {s : σ} (h : invariant [] b s) :
    ∃ b' s', Returns (l.foldlM f b) s b' s' ∧ invariant l b' s' := by
  suffices ∀ done rest b s, l = done ++ rest → invariant done b s →
      ∃ b' s', Returns (rest.foldlM f b) s b' s' ∧ invariant l b' s' from this [] l b s rfl h
  intro done rest
  induction rest generalizing done with
  | nil =>
    intro b s hl hinvariant
    rw [List.append_nil] at hl
    exact ⟨b, s, returns_pure b s, hl ▸ hinvariant⟩
  | cons x rest ih =>
    intro b s hl hinvariant
    obtain ⟨b', s', hx, hnext⟩ := hstep done x rest b s hl hinvariant
    obtain ⟨b'', s'', hrest, hend⟩ := ih (done ++ [x]) b' s' (by rw [hl]; simp) hnext
    exact ⟨b'', s'', by rw [List.foldlM_cons]; exact hx.bind hrest, hend⟩

end Computation

end DdeCooperation.Foundations
