import Mathlib.Data.List.Count
import Mathlib.Data.List.Infix
import SlabKernel.Lib.Run

/-!
# Round robin

A guarded machine serves a queue: in a step members join the queue at its end, or the first member
leaves it and is served. Every `q`th tick at the latest serves one (`count` is the number of ticks
since then). So the member at position `n` is served within `q * (n + 1)` ticks
(`Run.served`), whatever else the run does.
-/

namespace Runs

variable {σ ι α : Type*} {ok : σ → ι → Prop} {step : σ → ι → Option σ}

/-- A step from the queue `l` to the queue `l'`: no member leaves, or the first one is served. -/
def Turn (l l' : List α) (count count' : ℕ) (tick : Bool) (served : α → Prop) : Prop :=
  l <+: l' ∧ count' = count + tick.toNat ∨ ∀ a rest, l = a :: rest → served a ∧ rest <+: l'

theorem prefix_getElem? {l l' : List α} {n : ℕ} {a : α} (h : l <+: l') (ha : l[n]? = some a) :
    l'[n]? = some a := by
  obtain ⟨hn, rfl⟩ := List.getElem?_eq_some_iff.1 ha
  exact List.prefix_iff_getElem?.1 h n hn

/-- No member of the queue waits for more ticks than `q` for itself and for each one before it. -/
theorem Run.served {P : σ → List α → Prop} (count : σ → ℕ) (runs : σ → α → Prop) {tick : ι → Bool}
    {q : ℕ} (hcount : ∀ s l, P s l → count s < q)
    (hstep : ∀ s i s' l, P s l → ok s i → step s i = some s' → ∃ l', P s' l' ∧
      Turn l l' (count s) (count s') (tick i) (runs s'))
    {s s' : σ} {is : List ι} (h : Run ok step s is s') {l : List α} (hs : P s l) {n : ℕ} {a : α}
    (ha : l[n]? = some a) (hticks : q * (n + 1) ≤ count s + is.countP tick) :
    ∃ is₁ is₂ s₁, is = is₁ ++ is₂ ∧ Run ok step s is₁ s₁ ∧ runs s₁ a ∧ Run ok step s₁ is₂ s' := by
  induction h generalizing l n with
  | nil =>
    have hlt := hcount _ _ hs
    rw [Nat.mul_add_one, List.countP_nil] at hticks
    omega
  | @cons s s₁ s' i is hok hi hrun ih =>
    obtain ⟨l', hs', hturn⟩ := hstep _ _ _ _ hs hok hi
    have hlt := hcount _ _ hs
    have hone : (if tick i then 1 else 0) = (tick i).toNat := by cases tick i <;> rfl
    rw [List.countP_cons, hone] at hticks
    -- the rest of the run serves `a`
    have hlater : ∀ {m}, l'[m]? = some a → q * (m + 1) ≤ count s₁ + is.countP tick →
        ∃ is₁ is₂ s₂, i :: is = is₁ ++ is₂ ∧ Run ok step s is₁ s₂ ∧ runs s₂ a ∧
          Run ok step s₂ is₂ s' := by
      intro m hm hle
      obtain ⟨is₁, is₂, s₂, rfl, h₁, hr, h₂⟩ := ih hs' hm hle
      exact ⟨i :: is₁, is₂, s₂, rfl, .cons hok hi h₁, hr, h₂⟩
    rcases hturn with ⟨hpre, hc⟩ | hserve
    · exact hlater (prefix_getElem? hpre ha) (by omega)
    · cases l with
      | nil => cases ha
      | cons b rest =>
        obtain ⟨hb, hpre⟩ := hserve b rest rfl
        cases n with
        | zero =>
          obtain rfl := Option.some.inj ha
          exact ⟨[i], is, s₁, rfl, .cons hok hi .nil, hb, hrun⟩
        | succ m =>
          refine hlater (prefix_getElem? hpre ha) ?_
          have hle : (tick i).toNat ≤ 1 := Bool.toNat_le _
          rw [Nat.mul_add_one q (m + 1)] at hticks
          omega

end Runs
