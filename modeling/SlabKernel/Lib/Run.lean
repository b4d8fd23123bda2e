import Mathlib.Logic.Basic

/-!
# Runs of a guarded machine

`step s i` executes the operation `i`; it is `none` when the code's run is undefined. `ok s i` says
that the environment may issue `i` in `s`. `Run ok step s is s'` is a run of admitted operations,
`Run.inv` the induction rule for invariants. With a decidable guard `exec` computes runs.
-/

namespace Runs

variable {σ ι : Type*} {ok ok' : σ → ι → Prop} {step : σ → ι → Option σ}

/-- Executing the admitted operations `is` from `s` ends in `s'`. -/
inductive Run (ok : σ → ι → Prop) (step : σ → ι → Option σ) : σ → List ι → σ → Prop
  | nil {s : σ} : Run ok step s [] s
  | cons {s s' s'' : σ} {i : ι} {is : List ι} : ok s i → step s i = some s' →
      Run ok step s' is s'' → Run ok step s (i :: is) s''

/-- What every admitted step keeps, every run keeps. -/
theorem Run.inv {s s' : σ} {is : List ι} (h : Run ok step s is s') (P : σ → Prop)
    (hstep : ∀ s i s', P s → ok s i → step s i = some s' → P s') (h0 : P s) : P s' := by
  induction h with
  | nil => exact h0
  | cons hok hs _ ih => exact ih (hstep _ _ _ h0 hok hs)

theorem Run.trans {s s' s'' : σ} {is is' : List ι} (h : Run ok step s is s')
    (h' : Run ok step s' is' s'') : Run ok step s (is ++ is') s'' := by
  induction h with
  | nil => exact h'
  | cons hok hs _ ih => exact .cons hok hs (ih h')

/-- Operations that are admitted in every state. -/
theorem Run.mono {ok' : σ → ι → Prop} {s s' : σ} {is : List ι} (h : Run ok step s is s')
    (himp : ∀ s i, ok s i → ok' s i) : Run ok' step s is s' := by
  induction h with
  | nil => exact .nil
  | cons hok hs _ ih => exact .cons (himp _ _ hok) hs ih

theorem Run.of_foldlM {s s' : σ} {is : List ι} (hok : ∀ i ∈ is, ∀ s, ok s i)
    (h : is.foldlM step s = some s') : Run ok step s is s' := by
  induction is generalizing s with
  | nil =>
    obtain rfl := Option.some.inj h
    exact .nil
  | cons i is ih =>
    rw [List.foldlM_cons] at h
    obtain ⟨s₁, h₁, h⟩ := Option.bind_eq_some_iff.1 h
    exact .cons (hok i (.head _) s) h₁ (ih (fun j hj => hok j (.tail _ hj)) h)

/-- Executing operations, each checked before it. -/
def exec (ok : σ → ι → Prop) [∀ s i, Decidable (ok s i)] (step : σ → ι → Option σ) (s : σ)
    (is : List ι) : Option σ :=
  is.foldlM (fun s i => if ok s i then step s i else none) s

theorem Run.of_exec [∀ s i, Decidable (ok s i)] {s s' : σ} {is : List ι}
    (h : exec ok step s is = some s') : Run ok step s is s' := by
  induction is generalizing s with
  | nil =>
    obtain rfl := Option.some.inj h
    exact .nil
  | cons i is ih =>
    unfold exec at h
    rw [List.foldlM_cons] at h
    obtain ⟨s₁, h₁, h⟩ := Option.bind_eq_some_iff.1 h
    split at h₁
    · exact .cons ‹_› h₁ (ih h)
    · cases h₁

end Runs
