import Mathlib.Data.List.Nodup
import Mathlib.Logic.Function.Basic

/-!
# Families of queues and counting semaphores

* `keys.flatMap W` are the members of the queues `W s` of a family. Changing one queue changes the
  members by that queue only (`contents_perm`, `contents_perm_of_eq`, `contents_update_perm`).
* `History`: a counting semaphore as the record of its calls. Its value and its queue are functions
  of the record: the first `init + signals` callers have passed, the others wait in the order of
  their calls.
-/

namespace Queues

open Function (update)

variable {α κ : Type*}

/-! ## Families -/

section
variable [DecidableEq κ] {keys : List κ} {s : κ}

theorem contents_perm (W : κ → List α) (hs : s ∈ keys) :
    (keys.flatMap W).Perm (W s ++ (keys.erase s).flatMap W) :=
  (List.perm_cons_erase hs).flatMap_right W

theorem contents_update_of_notMem (W : κ → List α) (l : List α) (hs : s ∉ keys) :
    keys.flatMap (update W s l) = keys.flatMap W := by
  induction keys with
  | nil => rfl
  | cons k keys ih =>
    rw [List.mem_cons, not_or] at hs
    rw [List.flatMap_cons, List.flatMap_cons, ih hs.2, Function.update_of_ne (Ne.symm hs.1)]

theorem contents_update_perm (W : κ → List α) (l : List α) (hnd : keys.Nodup) (hs : s ∈ keys) :
    (keys.flatMap (update W s l)).Perm (l ++ (keys.erase s).flatMap W) := by
  have h := contents_perm (update W s l) hs
  rwa [Function.update_self, contents_update_of_notMem W l hnd.not_mem_erase] at h

/-- A member of two queues repeats in the family. -/
theorem contents_inj {W : κ → List α} {t : κ} {a : α} (hnd : (keys.flatMap W).Nodup)
    (hs : s ∈ keys) (ht : t ∈ keys) (ha : a ∈ W s) (ha' : a ∈ W t) : s = t := by
  by_contra hne
  have h := (List.nodup_append.1 ((contents_perm W hs).nodup_iff.1 hnd)).2.2
  have hmem : t ∈ keys.erase s := (List.mem_erase_of_ne (Ne.symm hne)).2 ht
  exact h a ha a (List.mem_flatMap.2 ⟨t, hmem, ha'⟩) rfl

/-- Only the queue of `s` has changed. -/
theorem contents_perm_of_eq {W W' : κ → List α} (hnd : keys.Nodup) (hs : s ∈ keys)
    (h : ∀ t ∈ keys, t ≠ s → W' t = W t) :
    (keys.flatMap W').Perm (W' s ++ (keys.erase s).flatMap W) := by
  have he : (keys.erase s).flatMap W' = (keys.erase s).flatMap W :=
    List.flatMap_congr fun t ht => h t (List.mem_of_mem_erase ht) (hnd.mem_erase_iff.1 ht).1
  exact he ▸ contents_perm W' hs

end

/-! ## Counting semaphores -/

/-- The calls on a counting semaphore: its initial count, the number of signals, and the callers of
`wait`, the oldest first. -/
structure History (α : Type*) where
  init : Nat
  signals : Nat
  callers : List α

namespace History

variable (h : History α) (t : α)

def value : Int := (h.init : Int) + h.signals - h.callers.length

/-- The callers that have not passed. -/
def queue : List α := h.callers.drop (h.init + h.signals)

def wait : History α := { h with callers := h.callers ++ [t] }

def signal : History α := { h with signals := h.signals + 1 }

@[simp] theorem value_wait : (h.wait t).value = h.value - 1 := by
  simp only [value, wait, List.length_append, List.length_singleton]
  omega

@[simp] theorem value_signal : h.signal.value = h.value + 1 := by
  simp only [value, signal]
  omega

/-- A caller queues up when the value falls below zero. -/
theorem queue_wait : (h.wait t).queue = if h.value - 1 < 0 then h.queue ++ [t] else h.queue := by
  unfold queue wait
  split
  · rename_i hlt
    unfold value at hlt
    have hle : h.init + h.signals ≤ h.callers.length := by omega
    exact List.drop_append_of_le_length hle
  · rename_i hlt
    unfold value at hlt
    simp only
    rw [List.drop_eq_nil_of_le (by simp only [List.length_append, List.length_singleton]; omega),
      List.drop_eq_nil_of_le (by omega)]

/-- A signal lets the oldest waiting caller pass. -/
theorem queue_signal : h.signal.queue = h.queue.tail := by
  simp only [queue, signal, List.tail_drop, Nat.add_assoc]

/-- The callers that have passed. -/
def passed : List α := h.callers.take (h.init + h.signals)

theorem passed_append_queue : h.passed ++ h.queue = h.callers := List.take_append_drop _ _

theorem passed_length : h.passed.length = min h.callers.length (h.init + h.signals) := by
  rw [passed, List.length_take, Nat.min_comm]

theorem passed_wait :
    (h.wait t).passed = if h.value - 1 < 0 then h.passed else h.passed ++ [t] := by
  unfold passed wait
  split
  · rename_i hlt
    unfold value at hlt
    have hle : h.init + h.signals ≤ h.callers.length := by omega
    exact List.take_append_of_le_length hle
  · rename_i hlt
    unfold value at hlt
    simp only
    rw [List.take_of_length_le (by simp only [List.length_append, List.length_singleton]; omega),
      List.take_of_length_le (by omega)]

theorem passed_signal : h.signal.passed = h.passed ++ h.queue.head?.toList := by
  simp only [passed, queue, signal, List.head?_drop, ← Nat.add_assoc, List.take_add_one]

end History

end Queues
