import Mathlib.Data.List.Induction

/-!
# Lifecycles

What happens to an object of a pool: functions are applied to it, it is handed out and taken back.
`replay` follows such a history through the phases of a pool that constructs an object when its
memory comes in, again after each time it was taken back and destructed, and destructs it at the end.
In an admitted history the functions alternate (`callbacks_eq`), the constructor is what comes right
before the object is handed out (`ready_last`), and its last holder has given it back before
(`returned_before`).
-/

namespace Lifecycle

variable {α : Type*} [DecidableEq α]

inductive Event (α : Type*)
  | call (fn : α)
  | given
  | taken

inductive Phase
  | raw
  | ready
  | held
  | returned
  | gone
  deriving DecidableEq

variable (ctor dtor : α)

/-- The next phase; `none` when the event is out of order. -/
def next : Phase → Event α → Option Phase
  | .raw, .call f => if f = ctor then some .ready else none
  | .ready, .given => some .held
  | .held, .taken => some .returned
  | .returned, .call f => if f = dtor then some .raw else none
  | .ready, .call f => if f = dtor then some .gone else none
  | .held, .call f => if f = dtor then some .gone else none
  | _, _ => none

/-- The phase after a history. -/
def replay (q : Phase) (l : List (Event α)) : Option Phase := l.foldlM (next ctor dtor) q

/-- The functions of a history. -/
def callbacks (l : List (Event α)) : List α :=
  l.filterMap fun
    | .call f => some f
    | _ => none

variable {ctor dtor : α} {q q' : Phase} {l l' : List (Event α)} {e : Event α}

@[simp] theorem replay_nil : replay ctor dtor q [] = some q := rfl

@[simp] theorem replay_cons :
    replay ctor dtor q (e :: l) = (next ctor dtor q e).bind (replay ctor dtor · l) := rfl

theorem replay_append :
    replay ctor dtor q (l ++ l') = (replay ctor dtor q l).bind (replay ctor dtor · l') :=
  List.foldlM_append

theorem replay_concat (h : replay ctor dtor q (l ++ [e]) = some q') :
    ∃ p, replay ctor dtor q l = some p ∧ next ctor dtor p e = some q' := by
  rw [replay_append] at h
  obtain ⟨p, hp, h⟩ := Option.bind_eq_some_iff.1 h
  rw [replay_cons] at h
  obtain ⟨p', hp', h⟩ := Option.bind_eq_some_iff.1 h
  obtain rfl := Option.some.inj h
  exact ⟨p, hp, hp'⟩

/-- The object has been constructed and not been destructed since. -/
def Phase.constructed : Phase → Bool
  | .raw | .gone => false
  | .ready | .held | .returned => true

/-- A constructor and a destructor change this, nothing else does. -/
theorem next_constructed (h : next ctor dtor q e = some q') :
    e = .call ctor ∧ q.constructed = false ∧ q'.constructed = true ∨
    e = .call dtor ∧ q.constructed = true ∧ q'.constructed = false ∨
    callbacks [e] = [] ∧ q'.constructed = q.constructed := by
  cases e with
  | call f =>
    cases q with
    | raw =>
      obtain ⟨rfl, hq⟩ := Option.ite_none_right_eq_some.1 h
      exact .inl ⟨rfl, rfl, Option.some.inj hq ▸ rfl⟩
    | ready =>
      obtain ⟨rfl, hq⟩ := Option.ite_none_right_eq_some.1 h
      exact .inr (.inl ⟨rfl, rfl, Option.some.inj hq ▸ rfl⟩)
    | held =>
      obtain ⟨rfl, hq⟩ := Option.ite_none_right_eq_some.1 h
      exact .inr (.inl ⟨rfl, rfl, Option.some.inj hq ▸ rfl⟩)
    | returned =>
      obtain ⟨rfl, hq⟩ := Option.ite_none_right_eq_some.1 h
      exact .inr (.inl ⟨rfl, rfl, Option.some.inj hq ▸ rfl⟩)
    | gone => exact nomatch h
  | given =>
    cases q with
    | ready => exact .inr (.inr ⟨rfl, Option.some.inj h ▸ rfl⟩)
    | _ => exact nomatch h
  | taken =>
    cases q with
    | held => exact .inr (.inr ⟨rfl, Option.some.inj h ▸ rfl⟩)
    | _ => exact nomatch h

/-- The functions are `ctor`, `dtor`, `ctor`, … in turn. -/
theorem callbacks_eq (h : replay ctor dtor .raw l = some q) :
    ∃ n, callbacks l = (List.replicate n [ctor, dtor]).flatten ++
      if q.constructed then [ctor] else [] := by
  induction l using List.reverseRecOn generalizing q with
  | nil =>
    obtain rfl := Option.some.inj h
    exact ⟨0, rfl⟩
  | append_singleton l e ih =>
    obtain ⟨p, hp, he⟩ := replay_concat h
    obtain ⟨n, hn⟩ := ih hp
    have happ : callbacks (l ++ [e]) = callbacks l ++ callbacks [e] := List.filterMap_append
    rw [happ, hn]
    rcases next_constructed he with ⟨rfl, h1, h2⟩ | ⟨rfl, h1, h2⟩ | ⟨h0, h1⟩
    · exact ⟨n, by rw [h1, h2]; simp [callbacks]⟩
    · refine ⟨n + 1, ?_⟩
      rw [h1, h2, List.replicate_succ', List.flatten_append]
      simp [callbacks]
    · exact ⟨n, by rw [h0, h1, List.append_nil]⟩

/-- What comes before an object is ready is its constructor. -/
theorem ready_last (h : replay ctor dtor q l = some .ready) (hq : q ≠ .ready) :
    ∃ l₀, l = l₀ ++ [.call ctor] ∧ replay ctor dtor q l₀ = some .raw := by
  rcases List.eq_nil_or_concat l with rfl | ⟨l₀, e, rfl⟩
  · exact absurd (Option.some.inj h) hq
  · rw [List.concat_eq_append] at h ⊢
    obtain ⟨p, hp, he⟩ := replay_concat h
    cases p with
    | raw =>
      cases e with
      | call f =>
        obtain ⟨rfl, -⟩ := Option.ite_none_right_eq_some.1 he
        exact ⟨l₀, rfl, hp⟩
      | _ => exact nomatch he
    | returned | ready | held =>
      cases e with
      | call f => exact nomatch (Option.ite_none_right_eq_some.1 he).2
      | _ => exact nomatch he
    | gone => cases e <;> exact nomatch he

theorem gone_replay (h : replay ctor dtor .gone l = some q) : l = [] := by
  cases l with
  | nil => rfl
  | cons e l => cases e <;> exact nomatch h

/-- A holder gives the object back before it is ready again. -/
theorem returned_before (h : replay ctor dtor .held l = some .ready) : .taken ∈ l := by
  cases l with
  | nil => exact nomatch h
  | cons e l =>
    cases e with
    | taken => exact .head _
    | given => exact nomatch h
    | call f =>
      rw [replay_cons] at h
      obtain ⟨p, hp, h⟩ := Option.bind_eq_some_iff.1 h
      obtain ⟨-, hp⟩ := Option.ite_none_right_eq_some.1 hp
      obtain rfl := Option.some.inj hp
      obtain rfl := gone_replay h
      exact nomatch h

/-- **Handing out.** The constructor is what came last before, and after the last holder. -/
theorem given_after {l₁ l₂ : List (Event α)}
    (h : replay ctor dtor .raw (l₁ ++ .given :: l₂) = some q) :
    ∃ l₀, l₁ = l₀ ++ [.call ctor] ∧
      ∀ l₃ l₄, l₀ = l₃ ++ .given :: l₄ → .taken ∈ l₄ := by
  rw [replay_append] at h
  obtain ⟨p, hp, h⟩ := Option.bind_eq_some_iff.1 h
  rw [replay_cons] at h
  obtain ⟨p', hp', -⟩ := Option.bind_eq_some_iff.1 h
  obtain rfl : p = .ready := by
    cases p with
    | ready => rfl
    | _ => exact nomatch hp'
  obtain ⟨l₀, rfl, -⟩ := ready_last hp (by decide)
  refine ⟨l₀, rfl, fun l₃ l₄ he => ?_⟩
  rw [he, List.append_assoc, replay_append] at hp
  obtain ⟨r, hr, hp⟩ := Option.bind_eq_some_iff.1 hp
  rw [List.cons_append, replay_cons] at hp
  obtain ⟨r', hr', hp⟩ := Option.bind_eq_some_iff.1 hp
  obtain rfl : r' = .held := by
    cases r with
    | ready => exact (Option.some.inj hr').symm
    | _ => exact nomatch hr'
  rcases List.mem_append.1 (returned_before hp) with hm | hm
  · exact hm
  · exact nomatch List.mem_singleton.1 hm

end Lifecycle
