import SlabKernel.Threads.Runs

/-!
# The range of a semaphore's count

`createSem` takes an `unsigned` count and keeps it as an `int`, whose sign tells whether threads
wait. `Metered` runs the kernel and keeps the count of one semaphore: its initial value plus the
signals minus the waits. A count beyond `INT_MAX` reads as waiting threads: `wait` blocks though
there are counts left, and `signal` takes a thread off an empty queue (`any_count_iff`). An entry
that does not name the semaphore leaves it alone (`Kernel.step_sem`).
-/

namespace SlabKernel

open Function (update update_self update_of_ne)
open Runs

/-! ## Frames -/

variable {k k' : Kernel} {s t n : Nat} {p : Ptr}

@[simp] theorem Kernel.modTcb_sem (k : Kernel) (t : Nat) (f : TCB → TCB) :
    (k.modTcb t f).sem = k.sem := rfl

@[simp] theorem Kernel.modBlocked_sem (k : Kernel) (n : Nat) (f : BlockedQueue → BlockedQueue) :
    (k.modBlocked n f).sem = k.sem := rfl

@[simp] theorem Kernel.modSleep_sem (k : Kernel) (n : Nat) (f : SleepQueue → SleepQueue) :
    (k.modSleep n f).sem = k.sem := rfl

@[simp] theorem Kernel.modSem_self (k : Kernel) (s : Nat) (f : KernelSem → KernelSem) :
    (k.modSem s f).sem s = f (k.sem s) := update_self ..

theorem Kernel.modSem_ne {s' : Nat} (hs : s ≠ s') (k : Kernel) (f : KernelSem → KernelSem) :
    (k.modSem s' f).sem s = k.sem s := update_of_ne hs ..

theorem Scheduler.put_sem (h : Scheduler.put k p = some k') : k'.sem = k.sem := by
  cases p with
  | none => cases h
  | some t =>
    unfold Scheduler.put at h
    cases htail : k.tail with
    | none =>
      rw [htail] at h
      obtain rfl := Option.some.inj h
      rfl
    | some u =>
      rw [htail] at h
      obtain rfl := Option.some.inj h
      rfl

theorem Scheduler.get_sem (k : Kernel) : (Scheduler.get k).2.sem = k.sem := by
  unfold Scheduler.get
  cases k.head with
  | none => rfl
  | some data =>
    simp only
    split <;> rfl

theorem TCB.dispatch_sem (h : TCB.dispatch k = some k') : k'.sem = k.sem := by
  unfold TCB.dispatch at h
  simp only [Option.bind_eq_bind] at h
  obtain ⟨old, -, h⟩ := Option.bind_eq_some_iff.1 h
  split at h
  · obtain ⟨k₁, h₁, h⟩ := Option.bind_eq_some_iff.1 h
    obtain ⟨u, -, h⟩ := Option.bind_eq_some_iff.1 h
    obtain rfl := Option.some.inj h
    exact (Scheduler.get_sem k₁).trans (Scheduler.put_sem h₁)
  · rw [Option.bind_some] at h
    obtain ⟨u, -, h⟩ := Option.bind_eq_some_iff.1 h
    obtain rfl := Option.some.inj h
    exact Scheduler.get_sem k

theorem TCB.createThread_sem {f arg stack r : Ptr} {id : Int} {start : Bool}
    (h : TCB.createThread k p f arg stack id start = some (r, k')) : k'.sem = k.sem := by
  cases p with
  | none => rw [(Prod.mk.inj (Option.some.inj h)).2]
  | some t =>
    unfold TCB.createThread at h
    simp only at h
    split at h
    · obtain ⟨k₁, h₁, h⟩ := Option.bind_eq_some_iff.1 h
      obtain ⟨-, rfl⟩ := Prod.mk.inj (Option.some.inj h)
      have hp := Scheduler.put_sem h₁
      exact hp
    · obtain ⟨-, rfl⟩ := Prod.mk.inj (Option.some.inj h)
      rfl

theorem TCB.startThread_sem {r : Int} (h : TCB.startThread k p = some (r, k')) :
    k'.sem = k.sem := by
  cases p with
  | none => rw [(Prod.mk.inj (Option.some.inj h)).2]
  | some t =>
    unfold TCB.startThread at h
    simp only at h
    split at h
    · rw [(Prod.mk.inj (Option.some.inj h)).2]
    · obtain ⟨k₁, h₁, h⟩ := Option.bind_eq_some_iff.1 h
      obtain ⟨-, rfl⟩ := Prod.mk.inj (Option.some.inj h)
      have hp := Scheduler.put_sem h₁
      exact hp

theorem TCB.suspend_sem (h : TCB.suspend k = some k') : k'.sem = k.sem := by
  unfold TCB.suspend at h
  split at h
  · rw [Option.some.inj h]
  · have hd := TCB.dispatch_sem h
    exact hd

theorem Sleeping.removeLoop_sem {fuel : Nat} (h : Sleeping.removeLoop fuel p k = some k') :
    k'.sem = k.sem := by
  induction fuel generalizing p k with
  | zero =>
    cases p with
    | none => rw [Option.some.inj h]
    | some => cases h
  | succ fuel ih =>
    cases p with
    | none => rw [Option.some.inj h]
    | some curr =>
      unfold Sleeping.removeLoop at h
      split at h
      · obtain ⟨k₁, h₁, h⟩ := Option.bind_eq_some_iff.1 h
        have hp := Scheduler.put_sem h₁
        exact (ih h).trans hp
      · rw [Option.some.inj h]

theorem Sleeping.remove_sem (h : Sleeping.remove k = some k') : k'.sem = k.sem := by
  unfold Sleeping.remove at h
  split at h
  · rw [Option.some.inj h]
  · have hl := Sleeping.removeLoop_sem h
    exact hl

theorem Sleeping.addLoop_sem {fuel curr : Nat} (h : Sleeping.addLoop n fuel curr k = some k') :
    k'.sem = k.sem := by
  induction fuel generalizing curr k with
  | zero => cases h
  | succ fuel ih =>
    unfold Sleeping.addLoop at h
    split at h
    · obtain rfl := Option.some.inj h
      rfl
    · simp only at h
      split at h
      · obtain rfl := Option.some.inj h
        rfl
      · have hl := ih h
        exact hl

theorem Sleeping.insertNode_sem (h : Sleeping.insertNode k n = some k') : k'.sem = k.sem := by
  unfold Sleeping.insertNode at h
  split at h
  · obtain rfl := Option.some.inj h
    rfl
  · simp only at h
    split at h
    · obtain rfl := Option.some.inj h
      rfl
    · have hl := Sleeping.addLoop_sem h
      exact hl

theorem Riscv.timeSleep_sem {time : Nat} (h : Riscv.timeSleep k time p = some k') :
    k'.sem = k.sem := by
  unfold Riscv.timeSleep Sleeping.add at h
  simp only [Option.bind_eq_bind] at h
  obtain ⟨t, -, h⟩ := Option.bind_eq_some_iff.1 h
  obtain ⟨k₁, h₁, h⟩ := Option.bind_eq_some_iff.1 h
  obtain ⟨n, -, h₁⟩ := Option.bind_eq_some_iff.1 h₁
  obtain ⟨u, -, h₁⟩ := Option.bind_eq_some_iff.1 h₁
  have hn := Sleeping.insertNode_sem h₁
  exact (TCB.dispatch_sem h).trans hn

theorem Riscv.timer_sem (h : Riscv.timer k = some k') : k'.sem = k.sem := by
  unfold Riscv.timer at h
  simp only [Option.bind_eq_bind] at h
  obtain ⟨k₁, h₁, h⟩ := Option.bind_eq_some_iff.1 h
  obtain ⟨t, -, h⟩ := Option.bind_eq_some_iff.1 h
  have hr := Sleeping.remove_sem h₁
  refine Eq.trans ?_ hr
  split at h
  · have hd := TCB.dispatch_sem h
    exact hd
  · rw [Option.some.inj h]

namespace KernelSem

theorem semDtorLoop_sem {fuel : Nat} (h : semDtorLoop fuel p k = some k') : k'.sem = k.sem := by
  induction fuel generalizing p k with
  | zero =>
    cases p with
    | none => rw [Option.some.inj h]
    | some => cases h
  | succ fuel ih =>
    cases p with
    | none => rw [Option.some.inj h]
    | some prev =>
      obtain ⟨k₁, h₁, h⟩ := Option.bind_eq_some_iff.1 h
      have hp := Scheduler.put_sem h₁
      exact (ih h).trans hp

variable {s' : Nat}

theorem insert_sem (hs : s ≠ s') (h : insert k s' t p = some k') : k'.sem s = k.sem s := by
  unfold insert at h
  obtain ⟨n, -, h⟩ := Option.bind_eq_some_iff.1 h
  simp only at h
  split at h
  · obtain rfl := Option.some.inj h
    exact Kernel.modSem_ne hs ..
  · obtain rfl := Option.some.inj h
    exact Kernel.modSem_ne hs ..

theorem remove_sem (hs : s ≠ s') : (remove k s').2.sem s = k.sem s := by
  unfold remove
  cases (k.sem s').head with
  | none => rfl
  | some old =>
    simp only
    unfold deleteNode
    simp only
    split
    · exact (Kernel.modSem_ne hs ..).trans (Kernel.modSem_ne hs ..)
    · exact Kernel.modSem_ne hs ..

theorem wait_sem (hs : s ≠ s') (h : wait k s' p = some k') : k'.sem s = k.sem s := by
  unfold wait at h
  simp only at h
  split at h
  · unfold block at h
    obtain ⟨t, -, h⟩ := Option.bind_eq_some_iff.1 h
    obtain ⟨k₁, h₁, h⟩ := Option.bind_eq_some_iff.1 h
    have hd := TCB.dispatch_sem h
    have hi := insert_sem hs h₁
    rw [Kernel.modTcb_sem] at hi
    rw [hd]
    exact hi.trans (Kernel.modSem_ne hs ..)
  · obtain rfl := Option.some.inj h
    exact Kernel.modSem_ne hs ..

theorem signal_sem (hs : s ≠ s') (h : signal k s' = some k') : k'.sem s = k.sem s := by
  unfold signal at h
  simp only at h
  split at h
  · have hp := Scheduler.put_sem h
    rw [hp]
    exact (remove_sem hs).trans (Kernel.modSem_ne hs ..)
  · obtain rfl := Option.some.inj h
    exact Kernel.modSem_ne hs ..

end KernelSem

/-- The entries that open, use or close the semaphore `s`. -/
def Entry.Names (s : Nat) : Entry → Prop
  | .semOpen semaphore _ => semaphore = some s
  | .wait s' _ => s = s'
  | .signal s' => s = s'
  | .semClose s' => s = s'
  | _ => False

theorem Kernel.step_sem {e : Entry} (h : k.step e = some k') (hs : ¬ e.Names s) :
    k'.sem s = k.sem s := by
  cases e with
  | createThread thread startRoutine arg stackSpace id start =>
    obtain ⟨r, hr, rfl⟩ := Option.map_eq_some_iff.1 h
    rw [TCB.createThread_sem hr]
  | startThread handle =>
    obtain ⟨r, hr, rfl⟩ := Option.map_eq_some_iff.1 h
    rw [TCB.startThread_sem hr]
  | dispatch =>
    have hd := TCB.dispatch_sem h
    rw [hd]
  | exit => rw [TCB.suspend_sem h]
  | timer => rw [Riscv.timer_sem h]
  | sleep time node => rw [Riscv.timeSleep_sem h]
  | semOpen semaphore init =>
    obtain ⟨s', hs', h⟩ := Option.bind_eq_some_iff.1 h
    obtain rfl := Option.some.inj h
    refine Kernel.modSem_ne (fun he => hs ?_) ..
    rw [he]
    exact hs'
  | wait s' node => exact KernelSem.wait_sem hs h
  | signal s' => exact KernelSem.signal_sem hs h
  | semClose s' =>
    obtain ⟨k₁, h₁, h⟩ := Option.bind_eq_some_iff.1 h
    obtain rfl := Option.some.inj h
    have hl := KernelSem.semDtorLoop_sem h₁
    exact (Kernel.modSem_ne hs ..).trans (congrFun hl s)
  | threadDestroy t =>
    obtain rfl := Option.some.inj h
    rfl

/-! ## The count -/

namespace KernelSem

/-- Nobody waits on the semaphore `s`, whose count is `n`. -/
structure Counts (k : Kernel) (s : Nat) (n : Int) : Prop where
  val : (k.sem s).val = toInt32 n
  head : (k.sem s).head = none
  tail : (k.sem s).tail = none

/-- The state after a `wait` that does not block. -/
def takeOne (k : Kernel) (s : Nat) : Kernel :=
  k.modSem s fun x => { x with val := toInt32 (x.val - 1) }

/-- The state after a `signal` that releases no thread. -/
def giveOne (k : Kernel) (s : Nat) : Kernel :=
  k.modSem s fun x => { x with val := toInt32 (x.val + 1) }

variable {m : Int}

theorem toInt32_neg_iff (h : 0 ≤ m) (h' : m < 2 ^ 32) : toInt32 m < 0 ↔ 2 ^ 31 ≤ m := by
  unfold toInt32
  rw [Int.bmod_def]
  split <;> omega

theorem Counts.takeOne (h : Counts k s m) : Counts (takeOne k s) s (m - 1) := by
  unfold KernelSem.takeOne
  refine ⟨?_, ?_, ?_⟩ <;> rw [Kernel.modSem_self]
  · rw [h.val]
    exact Int.bmod_sub_bmod
  · exact h.head
  · exact h.tail

theorem Counts.giveOne (h : Counts k s m) : Counts (giveOne k s) s (m + 1) := by
  unfold KernelSem.giveOne
  refine ⟨?_, ?_, ?_⟩ <;> rw [Kernel.modSem_self]
  · rw [h.val]
    exact Int.bmod_add_bmod
  · exact h.head
  · exact h.tail

/-- A blocked thread is at the head of the queue. -/
theorem block_head (htail : (k.sem s).tail = none) (h : block k s p = some k') :
    (k'.sem s).head ≠ none := by
  unfold block at h
  obtain ⟨t, -, h⟩ := Option.bind_eq_some_iff.1 h
  obtain ⟨k₁, h₁, h⟩ := Option.bind_eq_some_iff.1 h
  obtain ⟨n, -, h₁⟩ := Option.bind_eq_some_iff.1 h₁
  simp only [Kernel.modBlocked_sem, Kernel.modTcb_sem, htail] at h₁
  obtain rfl := Option.some.inj h₁
  have hd := TCB.dispatch_sem h
  rw [hd]
  simp

/-- `wait` takes one of the counts, without blocking, unless they are more than `2 ^ 31`. -/
theorem Counts.wait_iff (h : Counts k s m) (hm : 1 ≤ m) (hm' : m < 2 ^ 32) (node : Ptr) :
    wait k s node = some (KernelSem.takeOne k s) ↔ m ≤ 2 ^ 31 := by
  have h₁ := h.takeOne
  have hneg := toInt32_neg_iff (m := m - 1) (by omega) (by omega)
  have hwait : wait k s node = if ((KernelSem.takeOne k s).sem s).val < 0 then
      block (KernelSem.takeOne k s) s node else some (KernelSem.takeOne k s) := rfl
  rw [hwait, h₁.val]
  constructor
  · intro he
    by_contra hbig
    rw [if_pos (hneg.2 (by omega))] at he
    exact block_head h₁.tail he h₁.head
  · intro hsmall
    rw [if_neg fun hlt => by have := hneg.1 hlt; omega]

/-- `signal` adds a count unless there are `2 ^ 31`. -/
theorem Counts.signal_iff (h : Counts k s m) (hm : 0 ≤ m) (hm' : m < 2 ^ 32) :
    signal k s = some (KernelSem.giveOne k s) ∧ m < 2 ^ 31 ∨
      signal k s = none ∧ 2 ^ 31 ≤ m := by
  have h₁ := h.giveOne
  have hneg := toInt32_neg_iff hm hm'
  have hsignal : signal k s = if (k.sem s).val < 0 then deblock (KernelSem.giveOne k s) s
      else some (KernelSem.giveOne k s) := rfl
  rw [hsignal, h.val]
  by_cases hlt : toInt32 m < 0
  · right
    rw [if_pos hlt]
    refine ⟨?_, hneg.1 hlt⟩
    -- there is no thread to take off the queue
    unfold deblock remove
    simp only [h₁.head]
    rfl
  · left
    rw [if_neg hlt]
    exact ⟨rfl, by omega⟩

end KernelSem

/-! ## Runs -/

/-- The kernel and the count of a semaphore: its initial value plus the signals minus the waits. -/
structure Metered where
  kernel : Kernel
  count : Int

namespace Metered

/-- The count of `s` after an entry. -/
def next (s : Nat) (n : Int) : Entry → Int
  | .wait s' _ => if s' = s then n - 1 else n
  | .signal s' => if s' = s then n + 1 else n
  | _ => n

def step (s : Nat) (m : Metered) (e : Entry) : Option Metered :=
  (m.kernel.step e).map fun k => ⟨k, next s m.count e⟩

/-- The semaphore `s` stays open, and its count is an `unsigned`. -/
def InRange (s : Nat) (m : Metered) (e : Entry) : Prop :=
  (∀ init, e ≠ .semOpen (some s) init) ∧ e ≠ .semClose s ∧ 0 ≤ next s m.count e ∧
    next s m.count e < 2 ^ 32

/-- The count can be taken or added to. -/
def Meets (s : Nat) (m : Metered) : Entry → Prop
  | .wait s' _ => s' = s → m.count ≤ 2 ^ 31
  | .signal s' => s' = s → m.count < 2 ^ 31
  | _ => True

def Ok (s : Nat) (m : Metered) (e : Entry) : Prop := m.InRange s e ∧ m.Meets s e

/-- The count is an `unsigned`, and nobody waits. -/
structure Inv (s : Nat) (m : Metered) : Prop where
  counts : KernelSem.Counts m.kernel s m.count
  range : 0 ≤ m.count ∧ m.count < 2 ^ 32

variable {m m' : Metered} {e : Entry} {es : List Entry}

theorem Inv.step (h : m.Inv s) (hok : m.Ok s e) (he : m.step s e = some m') : m'.Inv s := by
  obtain ⟨⟨hopen, hclose, hrange⟩, hmeets⟩ := hok
  obtain ⟨k', hk, rfl⟩ := Option.map_eq_some_iff.1 he
  by_cases hnames : e.Names s
  · cases e with
    | wait s' node =>
      obtain rfl : s = s' := hnames
      have hn : next s m.count (.wait s node) = m.count - 1 := if_pos rfl
      rw [hn] at hrange ⊢
      have hw := (h.counts.wait_iff (by omega) h.range.2 node).2 (hmeets rfl)
      obtain rfl := Option.some.inj (hw.symm.trans hk)
      exact ⟨h.counts.takeOne, hrange⟩
    | signal s' =>
      obtain rfl : s = s' := hnames
      have hn : next s m.count (.signal s) = m.count + 1 := if_pos rfl
      rw [hn] at hrange ⊢
      cases h.counts.signal_iff h.range.1 h.range.2 with
      | inl hs =>
        obtain rfl := Option.some.inj (hs.1.symm.trans hk)
        exact ⟨h.counts.giveOne, hrange⟩
      | inr hs => exact absurd (hmeets rfl) (by omega)
    | semOpen p init =>
      obtain rfl : p = some s := hnames
      exact absurd rfl (hopen init)
    | semClose s' =>
      obtain rfl : s = s' := hnames
      exact absurd rfl hclose
    | createThread | startThread | dispatch | exit | timer | sleep | threadDestroy =>
      exact hnames.elim
  · have hs := Kernel.step_sem hk hnames
    have hn : next s m.count e = m.count := by
      cases e with
      | wait s' node => exact if_neg fun heq => hnames heq.symm
      | signal s' => exact if_neg fun heq => hnames heq.symm
      | _ => rfl
    rw [hn]
    exact ⟨⟨hs ▸ h.counts.val, hs ▸ h.counts.head, hs ▸ h.counts.tail⟩, h.range⟩

/-- **The range of the counts.** Take a semaphore with any initial count, and any run in which its
count stays an `unsigned` and every call on it met the condition: waits at most `2 ^ 31` counts,
signals fewer. Then nobody waits on it, a `wait` with counts left does not block iff it meets the
condition, and a `signal` does not put a null thread into the ready queue iff it does. -/
theorem any_count_iff {k₀ : Kernel} {init : Nat} (hinit : init < 2 ^ 32)
    (hopen : KernelSem.createSem k₀ (some s) init = some k)
    (hrun : Run (Ok s) (Metered.step s) ⟨k, init⟩ es m) :
    (m.kernel.sem s).head = none ∧
      (∀ node, 1 ≤ m.count → (KernelSem.wait m.kernel s node =
        some (KernelSem.takeOne m.kernel s) ↔ m.Meets s (.wait s node))) ∧
      (KernelSem.signal m.kernel s ≠ none ↔ m.Meets s (.signal s)) := by
  have hinv : Inv s ⟨k, init⟩ := by
    obtain rfl := Option.some.inj hopen
    refine ⟨⟨?_, ?_, ?_⟩, by constructor <;> simp only <;> omega⟩ <;> rw [Kernel.modSem_self]
  have h := hrun.inv (Inv s) (fun m e m' hm hok he => hm.step hok he) hinv
  refine ⟨h.counts.head, fun node hpos => ?_, ?_⟩
  · rw [h.counts.wait_iff hpos h.range.2]
    exact ⟨fun hle _ => hle, fun hm => hm rfl⟩
  · cases h.counts.signal_iff h.range.1 h.range.2 with
    | inl hs => exact iff_of_true (by rw [hs.1]; simp) fun _ => hs.2
    | inr hs => exact iff_of_false (by rw [hs.1]; simp) fun hm => absurd (hm rfl) (by omega)

theorem any_count_iff_max : ∃ k m, KernelSem.createSem .reset (some 7) (2 ^ 31 - 1) = some k ∧
    Run (Ok 7) (Metered.step 7) ⟨k, 2 ^ 31 - 1⟩ [.wait 7 none, .signal 7] m ∧
    KernelSem.wait m.kernel 7 none = some (KernelSem.takeOne m.kernel 7) := by
  obtain ⟨k, hk⟩ : ∃ k, KernelSem.createSem .reset (some 7) (2 ^ 31 - 1) = some k := ⟨_, rfl⟩
  have hcounts : KernelSem.Counts k 7 (2 ^ 31 - 1) := by
    obtain rfl := Option.some.inj hk
    exact ⟨rfl, rfl, rfl⟩
  have h₁ := (hcounts.wait_iff (by decide) (by decide) none).2 (by decide)
  have h₂ := hcounts.takeOne.signal_iff (by decide) (by decide)
  have hw : Metered.step 7 ⟨k, 2 ^ 31 - 1⟩ (.wait 7 none) =
      some ⟨KernelSem.takeOne k 7, 2 ^ 31 - 2⟩ := congrArg _ h₁
  have hs : Metered.step 7 ⟨KernelSem.takeOne k 7, 2 ^ 31 - 2⟩ (.signal 7) =
      some ⟨KernelSem.giveOne (KernelSem.takeOne k 7) 7, 2 ^ 31 - 1⟩ :=
    congrArg _ (h₂.resolve_right fun hn => absurd hn.2 (by decide)).1
  have hok₁ : Ok 7 ⟨k, 2 ^ 31 - 1⟩ (.wait 7 none) := by
    refine ⟨⟨(fun _ he => nomatch he), (fun he => nomatch he), ?_, ?_⟩, fun _ => ?_⟩
    all_goals simp [next]
  have hok₂ : Ok 7 ⟨KernelSem.takeOne k 7, 2 ^ 31 - 2⟩ (.signal 7) := by
    refine ⟨⟨(fun _ he => nomatch he), (fun he => nomatch he), ?_, ?_⟩, fun _ => ?_⟩
    all_goals simp [next]
  have hrun : Run (Ok 7) (Metered.step 7) ⟨k, 2 ^ 31 - 1⟩ [.wait 7 none, .signal 7] _ :=
    .cons hok₁ hw (.cons hok₂ hs .nil)
  have h := (any_count_iff (by decide) hk hrun).2.1 none (by simp)
  exact ⟨k, _, hk, hrun, h.2 fun _ => by simp⟩

/-- The greatest count is -1 as an `int`: the first `wait` blocks the main thread, and the first
`signal` finds no thread. -/
theorem any_count_fails : ∃ k₀ k k', boot128.kernel = some k₀ ∧
    KernelSem.createSem k₀ (some 7) (2 ^ 32 - 1) = some k ∧
    KernelSem.wait k 7 (some 0x87009000) = some k' ∧ k.running = some boot128.mainThread ∧
    k'.running ≠ k.running ∧ (k'.tcb boot128.mainThread).blocked = true ∧
    (k.sem 7).head = none ∧ KernelSem.signal k 7 = none :=
  ⟨_, _, _, rfl, rfl, rfl, rfl, by decide +kernel⟩

end Metered

end SlabKernel
