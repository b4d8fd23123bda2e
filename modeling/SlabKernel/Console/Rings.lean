import SlabKernel.Console.Model
import SlabKernel.Lib.Ring
import SlabKernel.Threads.Counting

/-!
# The console's rings

`Output` and `Input` are the invariants of the two rings: what has been written and not yet moved
out is in the ring, the values of the two semaphores count the filled and the free slots less the
slots that are claimed, and only the ring's own threads wait on them. A claimed slot shows in no
value: a producer that was released and has not run yet is in `puts`, and not in the queue.
`Inv.step`: every admitted event returns and keeps both. So the rings are lossless (`console_fifo`).
-/

namespace SlabKernel

open Function (update update_self update_of_ne)
open PtrList Runs Rings

/-- The console's semaphores are different. -/
structure Boot.SemsNe (e : Boot) : Prop where
  full_buff : e.txFull ≠ e.txBuff
  full_rxBuff : e.txFull ≠ e.rxBuff
  full_empty : e.txFull ≠ e.rxEmpty
  full_receive : e.txFull ≠ e.uartReceive
  full_transmit : e.txFull ≠ e.uartTransmit
  buff_rxBuff : e.txBuff ≠ e.rxBuff
  buff_empty : e.txBuff ≠ e.rxEmpty
  buff_receive : e.txBuff ≠ e.uartReceive
  buff_transmit : e.txBuff ≠ e.uartTransmit
  rxBuff_empty : e.rxBuff ≠ e.rxEmpty
  rxBuff_receive : e.rxBuff ≠ e.uartReceive
  rxBuff_transmit : e.rxBuff ≠ e.uartTransmit
  empty_receive : e.rxEmpty ≠ e.uartReceive
  empty_transmit : e.rxEmpty ≠ e.uartTransmit
  receive_transmit : e.uartReceive ≠ e.uartTransmit

theorem Boot.Ok.sems_ne {e : Boot} (h : e.Ok) : e.SemsNe := by
  have hs := h.sems
  simp only [List.nodup_cons, List.mem_cons, List.not_mem_nil, not_or, or_false] at hs
  constructor <;> tauto

/-! ## Entries -/

/-- An entry that does not name `s` leaves its value and its queue. -/
theorem Sys.Stable.step_frame {k : Kernel} {A : Sys} {s : Nat} {en : Entry} (h : A.Stable)
    (hr : Rep k A) (hok : k.Ok en) (hst : (A.step en).Stable) (hs : s ∈ A.sems)
    (hne : ¬ en.Names s) : s ∈ (A.step en).sems ∧ (A.step en).val s = A.val s ∧
      (A.step en).waiting s = A.waiting s := by
  have hsame : ∀ B : Sys, B.semState = A.semState →
      s ∈ B.sems ∧ B.val s = A.val s ∧ B.waiting s = A.waiting s := fun B hB => by
    simp only [Sys.semState, Prod.mk.injEq] at hB
    obtain ⟨h1, h2, h3⟩ := hB
    rw [h1, h2, h3]
    exact ⟨hs, rfl, rfl⟩
  cases en with
  | createThread | startThread | dispatch | exit | timer | sleep =>
    exact hsame _ (A.step_semState trivial)
  | semOpen semaphore init =>
    obtain ⟨-, -, s', rfl, -⟩ := hok
    have hss : s ≠ s' := fun he => hne (congrArg some he.symm)
    refine ⟨List.mem_cons_of_mem _ hs, ?_, ?_⟩
    · exact update_of_ne hss _ _
    · exact update_of_ne hss _ _
  | wait s' node =>
    obtain ⟨-, hs', -⟩ := hok
    obtain ⟨t, hrun, -⟩ := id h
    have hss : s ≠ s' := hne
    obtain ⟨hsem, -⟩ := h.wait_spec hst hrun (hr.sems ▸ hs')
    simp only [Sys.semState, Prod.mk.injEq] at hsem
    obtain ⟨h1, h2, h3⟩ := hsem
    change s ∈ (A.wait s').sems ∧ (A.wait s').val s = _ ∧ (A.wait s').waiting s = _
    rw [h1, h2, h3]
    refine ⟨hs, update_of_ne hss _ _, ?_⟩
    split
    · exact update_of_ne hss _ _
    · rfl
  | signal s' =>
    obtain ⟨hs', hmax⟩ := hok
    obtain ⟨t, -, hinv⟩ := h
    have hss : s ≠ s' := hne
    obtain ⟨hsem, -⟩ := hinv.signal_spec (hr.sems ▸ hs') (hr.val s' ▸ hmax)
    simp only [Sys.semState, Prod.mk.injEq] at hsem
    obtain ⟨h1, h2, h3⟩ := hsem
    change s ∈ (A.signal s').sems ∧ (A.signal s').val s = _ ∧ (A.signal s').waiting s = _
    rw [h1, h2, h3]
    exact ⟨hs, update_of_ne hss _ _, update_of_ne hss _ _⟩
  | semClose s' =>
    have hss : s ≠ s' := hne
    refine ⟨(List.mem_erase_of_ne hss).2 hs, ?_, ?_⟩
    · exact update_of_ne hss _ _
    · exact update_of_ne hss _ _
  | threadDestroy t => exact hsame _ rfl

/-- One semaphore's value and queue have changed. -/
structure Sys.Acted (A A' : Sys) (s : Nat) (v : Int) (w : List Nat) : Prop where
  sems : A'.sems = A.sems
  val : A'.val = update A.val s v
  waiting : A'.waiting = update A.waiting s w

theorem Sys.Acted.val_of_ne {A A' : Sys} {s u : Nat} {v : Int} {w : List Nat}
    (h : A.Acted A' s v w) (hu : u ≠ s) : A'.val u = A.val u ∧ A'.waiting u = A.waiting u := by
  rw [h.val, h.waiting, update_of_ne hu, update_of_ne hu]
  exact ⟨rfl, rfl⟩

theorem Sys.Acted.val_self {A A' : Sys} {s : Nat} {v : Int} {w : List Nat}
    (h : A.Acted A' s v w) : A'.val s = v ∧ A'.waiting s = w := by
  rw [h.val, h.waiting, update_self, update_self]
  exact ⟨rfl, rfl⟩

/-- An admitted `wait` returns; the caller keeps the processor iff the count lets it pass. -/
theorem wait_acted {k : Kernel} {A : Sys} {s : Nat} {node : Ptr} (hr : Rep k A) (hst : A.Stable)
    (hok : k.Ok (.wait s node)) : ∃ t k', k.running = some t ∧ A.Inv [t] ∧
      KernelSem.wait k s node = some k' ∧ Rep k' (A.wait s) ∧ (A.wait s).Stable ∧
      A.Acted (A.wait s) s (A.val s - 1)
        (if A.val s - 1 < 0 then A.waiting s ++ [t] else A.waiting s) ∧
      (k'.running = some t ↔ 0 ≤ A.val s - 1) := by
  obtain ⟨k', hk, hr', hst'⟩ := step_rep hr hst hok
  obtain ⟨t, hrun, hinv⟩ := id hst
  obtain ⟨-, hs, -⟩ := hok
  obtain ⟨hsem, hkeep⟩ := hst.wait_spec hst' hrun (hr.sems ▸ hs)
  simp only [Sys.semState, Prod.mk.injEq] at hsem
  obtain ⟨h1, h2, h3⟩ := hsem
  refine ⟨t, k', hr.running.trans hrun, hinv, hk, hr', hst', ⟨h1, h2, ?_⟩, hr'.running ▸ hkeep⟩
  rw [h3]
  split
  · rfl
  · rw [Function.update_eq_self]

/-- An admitted `signal` returns, and the same thread runs. -/
theorem signal_acted {k : Kernel} {A : Sys} {s : Nat} (hr : Rep k A) (hst : A.Stable)
    (hs : s ∈ A.sems) (hmax : A.val s < 2 ^ 31 - 1) : ∃ k', KernelSem.signal k s = some k' ∧
      Rep k' (A.signal s) ∧ (A.signal s).Stable ∧
      A.Acted (A.signal s) s (A.val s + 1) (A.waiting s).tail ∧ k'.running = k.running := by
  obtain ⟨k', hk, hr', hst'⟩ := step_rep (e := .signal s) hr hst
    ⟨hr.sems ▸ hs, by rw [hr.val]; exact hmax⟩
  obtain ⟨t, -, hinv⟩ := hst
  obtain ⟨hsem, hrun⟩ := hinv.signal_spec hs hmax
  simp only [Sys.semState, Prod.mk.injEq] at hsem
  obtain ⟨h1, h2, h3⟩ := hsem
  exact ⟨k', hk, hr', hst', ⟨h1, h2, h3⟩, by rw [hr'.running, hr.running]; exact hrun⟩

/-! ## Claims -/

/-- `consoleput` has passed `txFull` and not moved the head: it claims a filled slot. -/
def PutPc.claims : PutPc → Nat
  | .load => 1
  | .write _ => 1
  | .advance => 1
  | _ => 0

/-- `consoleput` has moved the head and not signalled `txBuff`. -/
def PutPc.frees : PutPc → Nat
  | .signal => 1
  | _ => 0

/-- `consoleget` has passed `rxEmpty` and not moved the tail: it claims a free slot. -/
def GetPc.claims : GetPc → Nat
  | .load => 1
  | .store _ => 1
  | .advance => 1
  | _ => 0

/-- `consoleget` has moved the tail and not signalled `rxBuff`. -/
def GetPc.fills : GetPc → Nat
  | .signal => 1
  | _ => 0

namespace Console

/-- The character that has been read and is not in the ring yet. -/
def arriving (x : Console) : List UInt8 :=
  match x.getPc with
  | .store c => [c]
  | .advance => [x.cons.input_buff x.cons.inpTail]
  | _ => []

/-! ## The invariants -/

/-- The output ring: `taken` has left it, `unread` is in it, and `n` callers of `put` have passed
`txBuff` and not written yet, besides those in `puts`. -/
structure Output (e : Boot) (x : Console) (A : Sys) (taken unread : List UInt8) (n : Nat) : Prop where
  written : x.written = taken ++ unread
  ring : Ring maxSize x.cons.output_buff x.cons.outpHead x.cons.outpTail unread
  sent : x.sent = taken ++ if x.putPc = .advance then unread.take 1 else []
  load : ∀ c, x.putPc = .write c → unread.head? = some c
  full : A.val e.txFull = (unread.length : Int) - x.putPc.claims
  buff : A.val e.txBuff = (maxSize : Int) - unread.length - x.putPc.frees - x.puts.length - n
  waitsFull : ∀ t ∈ A.waiting e.txFull, t = e.putcThread ∧ x.putPc = .load
  waitsBuff : A.waiting e.txBuff ⊆ x.puts.map Prod.fst
  nodup : (x.puts.map Prod.fst).Nodup

/-- The input ring: `l` is in it, and `n` callers of `get` have passed `rxBuff` and not read yet,
besides those in `gets`. -/
structure Input (e : Boot) (x : Console) (A : Sys) (l : List UInt8) (n : Nat) : Prop where
  read : x.read = x.got ++ l ++ x.arriving
  ring : Ring maxSize x.cons.input_buff x.cons.inpHead x.cons.inpTail l
  empty : A.val e.rxEmpty = (maxSize : Int) - l.length - x.getPc.claims
  buff : A.val e.rxBuff = (l.length : Int) - x.getPc.fills - x.gets.length - n
  waitsEmpty : ∀ t ∈ A.waiting e.rxEmpty, t = e.getcThread ∧ x.getPc = .load
  waitsBuff : A.waiting e.rxBuff ⊆ x.gets
  nodup : x.gets.Nodup

/-- The scheduler, and both rings. -/
structure Inv (e : Boot) (x : Console) (A : Sys) (taken unread l : List UInt8) (n m : Nat) : Prop where
  rep : Rep x.kernel A
  stable : A.Stable
  sems : [e.txFull, e.txBuff, e.rxBuff, e.rxEmpty, e.uartReceive, e.uartTransmit] ⊆ A.sems
  out : Output e x A taken unread n
  inp : Input e x A l m

variable {e : Boot} {x x' : Console} {A A' : Sys} {k' : Kernel} {taken unread l : List UInt8}
  {n m t s : Nat} {r : List Nat}

/-- What changes on other semaphores does not matter. -/
theorem Output.frame (h : Output e x A taken unread n)
    (hf : A'.val e.txFull = A.val e.txFull ∧ A'.waiting e.txFull = A.waiting e.txFull)
    (hb : A'.val e.txBuff = A.val e.txBuff ∧ A'.waiting e.txBuff = A.waiting e.txBuff) :
    Output e x A' taken unread n :=
  { h with
    full := hf.1.trans h.full
    buff := hb.1.trans h.buff
    waitsFull := by rw [hf.2]; exact h.waitsFull
    waitsBuff := by rw [hb.2]; exact h.waitsBuff }

theorem Input.frame (h : Input e x A l m)
    (he : A'.val e.rxEmpty = A.val e.rxEmpty ∧ A'.waiting e.rxEmpty = A.waiting e.rxEmpty)
    (hb : A'.val e.rxBuff = A.val e.rxBuff ∧ A'.waiting e.rxBuff = A.waiting e.rxBuff) :
    Input e x A' l m :=
  { h with
    empty := he.1.trans h.empty
    buff := hb.1.trans h.buff
    waitsEmpty := by rw [he.2]; exact h.waitsEmpty
    waitsBuff := by rw [hb.2]; exact h.waitsBuff }

/-- With no thread waiting on `txFull`, the ring holds what `consoleput` claims. -/
theorem Output.claimed (h : Output e x A taken unread n) (hinv : A.Inv r)
    (hs : e.txFull ∈ A.sems) (hw : A.waiting e.txFull = []) :
    x.putPc.claims ≤ unread.length := by
  have hv := hinv.val e.txFull hs
  rw [hw, h.full, List.length_nil] at hv
  omega

theorem Input.claimed (h : Input e x A l m) (hinv : A.Inv r) (hs : e.rxEmpty ∈ A.sems)
    (hw : A.waiting e.rxEmpty = []) : l.length + x.getPc.claims ≤ maxSize := by
  have hv := hinv.val e.rxEmpty hs
  rw [hw, h.empty, List.length_nil] at hv
  unfold maxSize at hv ⊢
  omega

/-- A producer that does not wait any more has a free slot. -/
theorem Output.room (h : Output e x A taken unread n) (hinv : A.Inv r) (hs : e.txBuff ∈ A.sems)
    (ht : t ∈ x.puts.map Prod.fst) (hw : t ∉ A.waiting e.txBuff) : unread.length < maxSize := by
  have hv := hinv.val e.txBuff hs
  have hlen : (t :: A.waiting e.txBuff).length ≤ (x.puts.map Prod.fst).length := by
    refine (List.subperm_of_subset (List.nodup_cons.2 ⟨hw, hinv.waiting_nodup hs⟩) ?_).length_le
    intro u hu
    cases hu with
    | head => exact ht
    | tail _ hu => exact h.waitsBuff hu
  rw [List.length_cons, List.length_map] at hlen
  rw [h.buff] at hv
  unfold maxSize at hv ⊢
  omega

/-- A consumer that does not wait any more has a filled slot. -/
theorem Input.filled (h : Input e x A l m) (hinv : A.Inv r) (hs : e.rxBuff ∈ A.sems)
    (ht : t ∈ x.gets) (hw : t ∉ A.waiting e.rxBuff) : l ≠ [] := by
  have hv := hinv.val e.rxBuff hs
  have hlen : (t :: A.waiting e.rxBuff).length ≤ x.gets.length := by
    refine (List.subperm_of_subset (List.nodup_cons.2 ⟨hw, hinv.waiting_nodup hs⟩) ?_).length_le
    intro u hu
    cases hu with
    | head => exact ht
    | tail _ hu => exact h.waitsBuff hu
  rw [List.length_cons] at hlen
  rw [h.buff] at hv
  intro hl
  rw [hl, List.length_nil] at hv
  omega

/-- `consoleput` has sent a character that is in the ring. -/
theorem Inv.unread_ne (h : Inv e x A taken unread l n m) (hpc : x.putPc = .advance) :
    unread ≠ [] := by
  intro hnil
  obtain ⟨t, -, hinv⟩ := h.stable
  have hnone : A.waiting e.txFull = [] := List.eq_nil_iff_forall_not_mem.2 fun u hu => by
    have := (h.out.waitsFull u hu).2
    rw [hpc] at this
    cases this
  have := h.out.claimed hinv (h.sems (by simp)) hnone
  rw [hpc, hnil] at this
  exact absurd this (by decide)

/-! ## Calls of `put` -/

/-- The rest of a `put`: the character joins the ring. -/
theorem Inv.putRest (h : Inv e x A taken unread l 1 m) (he : e.Ok) (hroom : unread.length < maxSize)
    (c : UInt8) : ∃ x', x.putRest e c = some x' ∧
      Inv e x' (A.signal e.txFull) taken (unread ++ [c]) l 0 m := by
  obtain ⟨t, -, hinv⟩ := h.stable
  have hs : e.txFull ∈ A.sems := h.sems (by simp)
  have hne := he.sems_ne
  have ho := h.out
  have hmax : A.val e.txFull < 2 ^ 31 - 1 := by
    rw [ho.full]
    unfold maxSize at hroom
    omega
  obtain ⟨k', hk, hr, hst, hact, -⟩ := signal_acted h.rep h.stable hs hmax
  refine ⟨_, by unfold Console.putRest; simp only [hk, Option.bind_eq_bind, Option.bind_some]; rfl,
    hr, hst, hact.sems ▸ h.sems, ?_, ?_⟩
  · obtain ⟨hfv, hfw⟩ := hact.val_self
    obtain ⟨hbv, hbw⟩ := hact.val_of_ne hne.full_buff.symm
    refine ⟨?_, ho.ring.push hroom c, ?_, fun d hd => ?_, ?_, ?_, ?_, ?_, ho.nodup⟩
    · simp only [ho.written, List.append_assoc]
    · rw [ho.sent]
      split
      · rename_i hpc
        rw [List.take_append_of_le_length (List.length_pos_iff.2 (h.unread_ne hpc))]
      · rfl
    · rw [List.head?_append, ho.load d hd, Option.some_or]
    · simp only [hfv, ho.full, List.length_append, List.length_singleton]
      omega
    · simp only [hbv, ho.buff, List.length_append, List.length_singleton]
      omega
    · rw [hfw]
      exact fun u hu => ho.waitsFull u (List.mem_of_mem_tail hu)
    · rw [hbw]
      exact ho.waitsBuff
  · exact { h.inp.frame (hact.val_of_ne hne.full_empty.symm)
      (hact.val_of_ne hne.full_rxBuff.symm) with }

/-- A call of `put`. -/
theorem Inv.put {node : Ptr} (h : Inv e x A taken unread l 0 0) (he : e.Ok) (hc : x.Calls e)
    (hok : x.kernel.Ok (.wait e.txBuff node)) (c : UInt8) : ∃ x' A' unread',
      x.put e c node = some x' ∧ Inv e x' A' taken unread' l 0 0 := by
  obtain ⟨t, k', hrun, hinv, hk, hr, hst, hact, hkeep⟩ := wait_acted h.rep h.stable hok
  obtain ⟨u, hu, hfree, -⟩ := hc
  rw [hrun, Option.some.injEq] at hu
  subst hu
  have hne := he.sems_ne
  have ho := h.out
  obtain ⟨hbv, hbw⟩ := hact.val_self
  obtain ⟨hfv, hfw⟩ := hact.val_of_ne hne.full_buff
  have hinp := h.inp.frame (hact.val_of_ne hne.buff_empty.symm)
    (hact.val_of_ne hne.buff_rxBuff.symm)
  unfold Console.put
  simp only [hrun, hk, Option.bind_eq_bind, Option.bind_some]
  by_cases hlt : A.val e.txBuff - 1 < 0
  · rw [if_neg fun hk => absurd (hkeep.1 hk) (by omega)]
    rw [if_pos hlt] at hbw
    refine ⟨_, _, unread, rfl, hr, hst, hact.sems ▸ h.sems, ?_, { hinp with }⟩
    refine { ho with full := hfv.trans ho.full, buff := ?_, waitsFull := ?_, waitsBuff := ?_, nodup := ?_ }
    · simp only [hbv, ho.buff, List.length_cons]
      omega
    · rw [hfw]
      exact ho.waitsFull
    · rw [hbw, List.map_cons]
      intro v hv
      cases List.mem_append.1 hv with
      | inl hv => exact .tail _ (ho.waitsBuff hv)
      | inr hv => exact List.mem_singleton.1 hv ▸ .head _
    · rw [List.map_cons, List.nodup_cons]
      exact ⟨fun hm => hfree (.inl hm), ho.nodup⟩
  · rw [if_pos (hkeep.2 (by omega))]
    rw [if_neg hlt] at hbw
    have hclaim : Inv e { x with kernel := k' } (A.wait e.txBuff) taken unread l 1 0 := by
      refine ⟨hr, hst, hact.sems ▸ h.sems, ?_, { hinp with }⟩
      refine { ho with full := hfv.trans ho.full, buff := ?_, waitsFull := ?_, waitsBuff := ?_ }
      · simp only [hbv, ho.buff]
        omega
      · rw [hfw]
        exact ho.waitsFull
      · rw [hbw]
        exact ho.waitsBuff
    have hroom : unread.length < maxSize := by
      have := ho.buff
      unfold maxSize at this ⊢
      omega
    obtain ⟨x', hx', hinv'⟩ := hclaim.putRest he hroom c
    exact ⟨x', _, _, hx', hinv'⟩

/-! ## Calls of `get` -/

/-- The rest of a `get`: the first character leaves the ring. -/
theorem Inv.getRest (h : Inv e x A taken unread l n 1) (he : e.Ok) (hl : l ≠ []) : ∃ x' l',
    x.getRest e = some x' ∧ Inv e x' (A.signal e.rxEmpty) taken unread l' n 0 := by
  have hs : e.rxEmpty ∈ A.sems := h.sems (by simp)
  have hne := he.sems_ne
  have hi := h.inp
  have hmax : A.val e.rxEmpty < 2 ^ 31 - 1 := by
    rw [hi.empty]
    unfold maxSize
    omega
  obtain ⟨k', hk, hr, hst, hact, -⟩ := signal_acted h.rep h.stable hs hmax
  cases l with
  | nil => exact absurd rfl hl
  | cons c l =>
    refine ⟨_, l, by unfold Console.getRest; simp only [hk, Option.bind_eq_bind, Option.bind_some]; rfl,
      hr, hst, hact.sems ▸ h.sems, ?_, ?_⟩
    · exact { h.out.frame (hact.val_of_ne hne.full_empty)
        (hact.val_of_ne hne.buff_empty) with }
    · obtain ⟨hev, hew⟩ := hact.val_self
      obtain ⟨hbv, hbw⟩ := hact.val_of_ne hne.rxBuff_empty
      refine ⟨?_, hi.ring.pop, ?_, ?_, ?_, ?_, hi.nodup⟩
      · rw [hi.read, hi.ring.front]
        simp [arriving]
      · simp only [hev, hi.empty, List.length_cons]
        omega
      · simp only [hbv, hi.buff, List.length_cons]
        omega
      · rw [hew]
        exact fun u hu => hi.waitsEmpty u (List.mem_of_mem_tail hu)
      · rw [hbw]
        exact hi.waitsBuff

/-- A call of `get`. -/
theorem Inv.get {node : Ptr} (h : Inv e x A taken unread l 0 0) (he : e.Ok) (hc : x.Calls e)
    (hok : x.kernel.Ok (.wait e.rxBuff node)) : ∃ x' A' l',
      x.get e node = some x' ∧ Inv e x' A' taken unread l' 0 0 := by
  obtain ⟨t, k', hrun, hinv, hk, hr, hst, hact, hkeep⟩ := wait_acted h.rep h.stable hok
  obtain ⟨u, hu, hfree, -⟩ := hc
  rw [hrun, Option.some.injEq] at hu
  subst hu
  have hne := he.sems_ne
  have hi := h.inp
  obtain ⟨hbv, hbw⟩ := hact.val_self
  obtain ⟨hev, hew⟩ := hact.val_of_ne hne.rxBuff_empty.symm
  have hout := h.out.frame (hact.val_of_ne hne.full_rxBuff) (hact.val_of_ne hne.buff_rxBuff)
  unfold Console.get
  simp only [hrun, hk, Option.bind_eq_bind, Option.bind_some]
  by_cases hlt : A.val e.rxBuff - 1 < 0
  · rw [if_neg fun hk => absurd (hkeep.1 hk) (by omega)]
    rw [if_pos hlt] at hbw
    refine ⟨_, _, l, rfl, hr, hst, hact.sems ▸ h.sems, { hout with }, ?_⟩
    refine { hi with
      empty := hev.trans hi.empty, buff := ?_, waitsEmpty := ?_, waitsBuff := ?_, nodup := ?_ }
    · simp only [hbv, hi.buff, List.length_cons]
      omega
    · rw [hew]
      exact hi.waitsEmpty
    · rw [hbw]
      intro v hv
      cases List.mem_append.1 hv with
      | inl hv => exact .tail _ (hi.waitsBuff hv)
      | inr hv => exact List.mem_singleton.1 hv ▸ .head _
    · exact List.nodup_cons.2 ⟨fun hm => hfree (.inr hm), hi.nodup⟩
  · rw [if_pos (hkeep.2 (by omega))]
    rw [if_neg hlt] at hbw
    have hclaim : Inv e { x with kernel := k' } (A.wait e.rxBuff) taken unread l 0 1 := by
      refine ⟨hr, hst, hact.sems ▸ h.sems, { hout with }, ?_⟩
      refine { hi with empty := hev.trans hi.empty, buff := ?_, waitsEmpty := ?_, waitsBuff := ?_ }
      · simp only [hbv, hi.buff]
        omega
      · rw [hew]
        exact hi.waitsEmpty
      · rw [hbw]
        exact hi.waitsBuff
    have hl : l ≠ [] := by
      intro hl
      have := hi.buff
      rw [hl, List.length_nil] at this
      omega
    obtain ⟨x', l', hx', hinv'⟩ := hclaim.getRest he hl
    exact ⟨x', _, l', hx', hinv'⟩

/-! ## Calls that go on -/

theorem mem_of_lookup {α β : Type} [BEq α] [LawfulBEq α] {a : α} {b : β} {L : List (α × β)}
    (h : L.lookup a = some b) : (a, b) ∈ L := by
  obtain ⟨l₁, l₂, rfl, -⟩ := List.lookup_eq_some_iff.1 h
  simp

/-- The running thread goes on with its `put`. -/
theorem Inv.resume_put {c : UInt8} (h : Inv e x A taken unread l 0 0) (he : e.Ok)
    (hrun : A.running = some t) (hc : x.puts.lookup t = some c) : ∃ x' A' unread',
      x.resume e = some x' ∧ Inv e x' A' taken unread' l 0 0 := by
  obtain ⟨u, hu, hinv⟩ := id h.stable
  rw [hrun, Option.some.injEq] at hu
  subst hu
  have ho := h.out
  have hs : e.txBuff ∈ A.sems := h.sems (by simp)
  have hmem : t ∈ x.puts.map Prod.fst := List.mem_map.2 ⟨_, mem_of_lookup hc, rfl⟩
  have hw : t ∉ A.waiting e.txBuff := fun hm =>
    hinv.not_mem (Sys.mem_queued.2 (.inr (.inl ⟨_, hs, hm⟩)))
  have hmap : (x.puts.filter fun y => y.1 ≠ t).map Prod.fst = (x.puts.map Prod.fst).erase t := by
    rw [ho.nodup.erase_eq_filter, List.filter_map]
    congr 1
    refine List.filter_congr fun y _ => ?_
    by_cases hy : y.1 = t
    · simp [hy]
    · simp [hy]
  have hlen : (x.puts.filter fun y => y.1 ≠ t).length + 1 = x.puts.length := by
    have h1 := congrArg List.length hmap
    rw [List.length_map, List.length_erase_of_mem hmem, List.length_map] at h1
    have h2 := List.length_pos_of_mem hmem
    rw [List.length_map] at h2
    omega
  have hclaim : Inv e { x with puts := x.puts.filter fun y => y.1 ≠ t } A taken unread l 1 0 := by
    refine ⟨h.rep, h.stable, h.sems, ?_, { h.inp with }⟩
    refine { ho with buff := ?_, waitsBuff := ?_, nodup := ?_ }
    · simp only [ho.buff]
      omega
    · rw [hmap]
      intro v hv
      exact (List.mem_erase_of_ne fun hvt : v = t => hw (hvt ▸ hv)).2 (ho.waitsBuff hv)
    · rw [hmap]
      exact ho.nodup.erase t
  obtain ⟨x', hx', hinv'⟩ := hclaim.putRest he (ho.room hinv hs hmem hw) c
  refine ⟨x', _, _, ?_, hinv'⟩
  unfold Console.resume
  simp only [h.rep.running, hrun, hc, Option.bind_eq_bind, Option.bind_some]
  exact hx'

/-- The running thread goes on with its `get`. -/
theorem Inv.resume_get (h : Inv e x A taken unread l 0 0) (he : e.Ok) (hrun : A.running = some t)
    (hc : x.puts.lookup t = none) (hmem : t ∈ x.gets) : ∃ x' A' l',
      x.resume e = some x' ∧ Inv e x' A' taken unread l' 0 0 := by
  obtain ⟨u, hu, hinv⟩ := id h.stable
  rw [hrun, Option.some.injEq] at hu
  subst hu
  have hi := h.inp
  have hs : e.rxBuff ∈ A.sems := h.sems (by simp)
  have hw : t ∉ A.waiting e.rxBuff := fun hm =>
    hinv.not_mem (Sys.mem_queued.2 (.inr (.inl ⟨_, hs, hm⟩)))
  have hclaim : Inv e { x with gets := x.gets.erase t } A taken unread l 0 1 := by
    refine ⟨h.rep, h.stable, h.sems, { h.out with }, ?_⟩
    refine { hi with buff := ?_, waitsBuff := ?_, nodup := hi.nodup.erase t }
    · have := List.length_pos_of_mem hmem
      simp only [hi.buff, List.length_erase_of_mem hmem]
      omega
    · intro v hv
      exact (List.mem_erase_of_ne fun hvt : v = t => hw (hvt ▸ hv)).2 (hi.waitsBuff hv)
  obtain ⟨x', l', hx', hinv'⟩ := hclaim.getRest he (hi.filled hinv hs hmem hw)
  refine ⟨x', _, l', ?_, hinv'⟩
  unfold Console.resume
  simp only [h.rep.running, hrun, hc, Option.bind_eq_bind, Option.bind_some, if_pos hmem]
  exact hx'

theorem Inv.resume (h : Inv e x A taken unread l 0 0) (he : e.Ok)
    (hok : ∃ t, x.kernel.running = some t ∧ x.Pending t) : ∃ x' A' unread' l',
      x.resume e = some x' ∧ Inv e x' A' taken unread' l' 0 0 := by
  obtain ⟨t, hrun, hp⟩ := hok
  rw [h.rep.running] at hrun
  cases hc : x.puts.lookup t with
  | some c =>
    obtain ⟨x', A', unread', hx', h'⟩ := h.resume_put he hrun hc
    exact ⟨x', A', unread', l, hx', h'⟩
  | none =>
    have hmem : t ∈ x.gets := by
      refine hp.resolve_left fun hm => ?_
      obtain ⟨y, hy, hyt⟩ := List.mem_map.1 hm
      have := List.lookup_eq_none_iff.1 hc y hy
      simp [hyt] at this
    obtain ⟨x', A', l', hx', h'⟩ := h.resume_get he hrun hc hmem
    exact ⟨x', A', unread, l', hx', h'⟩

/-! ## The console's threads -/

/-- The running thread is in no queue. -/
theorem Inv.not_waiting (h : Inv e x A taken unread l n m) (hrun : x.kernel.running = some t)
    (hs : s ∈ A.sems) : t ∉ A.waiting s := by
  obtain ⟨u, hu, hinv⟩ := h.stable
  rw [h.rep.running, hu, Option.some.injEq] at hrun
  subst hrun
  exact fun hm => hinv.not_mem (Sys.mem_queued.2 (.inr (.inl ⟨s, hs, hm⟩)))

/-- Only `consoleput` waits on `txFull`: when it runs, nobody does. -/
theorem Inv.full_nil (h : Inv e x A taken unread l n m)
    (hrun : x.kernel.running = some e.putcThread) : A.waiting e.txFull = [] := by
  refine List.eq_nil_iff_forall_not_mem.2 fun u hu => ?_
  exact h.not_waiting hrun (h.sems (by simp)) ((h.out.waitsFull u hu).1 ▸ hu)

theorem Inv.empty_nil (h : Inv e x A taken unread l n m)
    (hrun : x.kernel.running = some e.getcThread) : A.waiting e.rxEmpty = [] := by
  refine List.eq_nil_iff_forall_not_mem.2 fun u hu => ?_
  exact h.not_waiting hrun (h.sems (by simp)) ((h.inp.waitsEmpty u hu).1 ▸ hu)

/-- What `consoleput` claims is in the ring. -/
theorem Inv.front (h : Inv e x A taken unread l n m)
    (hrun : x.kernel.running = some e.putcThread) (hpc : x.putPc.claims = 1) :
    ∃ c rest, unread = c :: rest := by
  obtain ⟨u, -, hinv⟩ := h.stable
  have := h.out.claimed hinv (h.sems (by simp)) (h.full_nil hrun)
  rw [hpc] at this
  exact List.exists_cons_of_length_pos this

/-- `consoleput` goes on, and the ring stays. -/
theorem Output.goto {k : Kernel} {pc : PutPc} (h : Output e x A taken unread n)
    (hnil : A.waiting e.txFull = []) (hclaims : pc.claims = x.putPc.claims)
    (hfrees : pc.frees = x.putPc.frees) (hadv : pc = .advance ↔ x.putPc = .advance)
    (hload : ∀ c, pc = .write c → unread.head? = some c) :
    Output e { x with kernel := k, putPc := pc } A taken unread n := by
  refine { h with sent := ?_, load := hload, full := ?_, buff := ?_, waitsFull := ?_ }
  · simp only [hadv]
    exact h.sent
  · simp only [hclaims]
    exact h.full
  · simp only [hfrees]
    exact h.buff
  · rw [hnil]
    intro t ht
    cases ht

theorem Input.goto {k : Kernel} {pc : GetPc} (h : Input e x A l m)
    (hnil : A.waiting e.rxEmpty = []) (hclaims : pc.claims = x.getPc.claims)
    (hfills : pc.fills = x.getPc.fills)
    (harriving : ({ x with kernel := k, getPc := pc } : Console).arriving = x.arriving) :
    Input e { x with kernel := k, getPc := pc } A l m := by
  refine { h with read := ?_, empty := ?_, buff := ?_, waitsEmpty := ?_ }
  · rw [harriving]
    exact h.read
  · simp only [hclaims]
    exact h.empty
  · simp only [hfills]
    exact h.buff
  · rw [hnil]
    intro t ht
    cases ht

theorem Inv.consoleput {ready : Bool} {node : Ptr} (h : Inv e x A taken unread l 0 0) (he : e.Ok)
    (hok : x.Ok e (.consoleput ready node)) : ∃ x' A' taken' unread',
      x.consoleput e ready node = some x' ∧ Inv e x' A' taken' unread' l 0 0 := by
  obtain ⟨hrun, hokt, hokf⟩ := hok
  have hne := he.sems_ne
  have ho := h.out
  have hnil := h.full_nil hrun
  have hwaits : ∀ {pc : PutPc} {u : Nat}, u ∈ A.waiting e.txFull →
      u = e.putcThread ∧ pc = .load := fun hu => by
    rw [hnil] at hu
    cases hu
  unfold Console.consoleput
  cases hpc : x.putPc with
  | transmit =>
    obtain ⟨t, k', -, -, hk, hr, hst, hact, -⟩ := wait_acted h.rep h.stable (hokt hpc)
    have hout := ho.frame (hact.val_of_ne hne.full_transmit) (hact.val_of_ne hne.buff_transmit)
    have hinp := h.inp.frame (hact.val_of_ne hne.empty_transmit)
      (hact.val_of_ne hne.rxBuff_transmit)
    refine ⟨{ x with kernel := k', putPc := .check }, _, taken, unread,
      by simp only [hk, Option.map_some], hr, hst, hact.sems ▸ h.sems, ?_, { hinp with }⟩
    have hfw := (hact.val_of_ne hne.full_transmit).2
    apply hout.goto (hfw.trans hnil)
    · rw [hpc]; rfl
    · rw [hpc]; rfl
    · simp [hpc]
    · simp
  | check =>
    refine ⟨_, A, taken, unread, rfl, h.rep, h.stable, h.sems, ?_, { h.inp with }⟩
    apply ho.goto hnil
    · rw [hpc]; cases ready <;> rfl
    · rw [hpc]; cases ready <;> rfl
    · cases ready <;> simp [hpc]
    · cases ready <;> simp
  | take =>
    obtain ⟨t, k', hrun', -, hk, hr, hst, hact, -⟩ := wait_acted h.rep h.stable (hokf hpc)
    rw [hrun, Option.some.injEq] at hrun'
    have hinp := h.inp.frame (hact.val_of_ne hne.full_empty.symm)
      (hact.val_of_ne hne.full_rxBuff.symm)
    obtain ⟨hfv, hfw⟩ := hact.val_self
    obtain ⟨hbv, hbw⟩ := hact.val_of_ne hne.full_buff.symm
    refine ⟨{ x with kernel := k', putPc := .load }, _, taken, unread,
      by simp only [hk, Option.map_some], hr, hst, hact.sems ▸ h.sems, ?_, { hinp with }⟩
    refine { ho with
      sent := ?_, load := ?_, full := ?_, buff := ?_, waitsFull := ?_, waitsBuff := ?_ }
    · simpa [hpc] using ho.sent
    · exact fun c hc => nomatch hc
    · have := ho.full
      simp only [hpc, PutPc.claims] at this
      simp only [hfv, PutPc.claims]
      omega
    · rw [hbv]
      simpa [hpc, PutPc.frees] using ho.buff
    · rw [hfw, hnil, ← hrun']
      intro u hu
      split at hu
      · exact ⟨List.mem_singleton.1 hu, rfl⟩
      · cases hu
    · rw [hbw]
      exact ho.waitsBuff
  | load =>
    obtain ⟨c, rest, rfl⟩ := h.front hrun (by rw [hpc]; rfl)
    refine ⟨_, A, taken, c :: rest, rfl, h.rep, h.stable, h.sems, ?_, { h.inp with }⟩
    apply ho.goto hnil
    · rw [hpc]; rfl
    · rw [hpc]; rfl
    · simp [hpc]
    · intro d hd
      rw [List.head?_cons, ← ho.ring.front]
      exact congrArg some (PutPc.write.inj hd)
  | write c =>
    obtain ⟨d, rest, rfl⟩ := h.front hrun (by rw [hpc]; rfl)
    obtain rfl : d = c := by simpa using ho.load c hpc
    refine ⟨_, A, taken, d :: rest, rfl, h.rep, h.stable, h.sems, ?_, { h.inp with }⟩
    refine { ho with sent := ?_, load := ?_, full := ?_, buff := ?_, waitsFull := ?_ }
    · have hsent := ho.sent
      simp only [hpc] at hsent
      simp [hsent]
    · exact fun c hc => nomatch hc
    · simpa [hpc, PutPc.claims] using ho.full
    · simpa [hpc, PutPc.frees] using ho.buff
    · exact fun u hu => hwaits hu
  | advance =>
    obtain ⟨c, rest, rfl⟩ := h.front hrun (by rw [hpc]; rfl)
    refine ⟨_, A, taken ++ [c], rest, rfl, h.rep, h.stable, h.sems, ?_, { h.inp with }⟩
    refine { ho with
      written := ?_, ring := ho.ring.pop, sent := ?_, load := ?_, full := ?_, buff := ?_,
      waitsFull := ?_ }
    · simp [ho.written]
    · simpa [hpc] using ho.sent
    · exact fun c hc => nomatch hc
    · have := ho.full
      simp only [hpc, PutPc.claims, List.length_cons] at this
      simp only [PutPc.claims]
      omega
    · have := ho.buff
      simp only [hpc, PutPc.frees, List.length_cons] at this
      simp only [PutPc.frees]
      omega
    · exact fun u hu => hwaits hu
  | signal =>
    have hb := ho.buff
    simp only [hpc, PutPc.frees] at hb
    have hmax : A.val e.txBuff < 2 ^ 31 - 1 := by
      unfold maxSize at hb
      omega
    obtain ⟨k', hk, hr, hst, hact, -⟩ := signal_acted h.rep h.stable (h.sems (by simp)) hmax
    have hinp := h.inp.frame (hact.val_of_ne hne.buff_empty.symm)
      (hact.val_of_ne hne.buff_rxBuff.symm)
    obtain ⟨hbv, hbw⟩ := hact.val_self
    obtain ⟨hfv, hfw⟩ := hact.val_of_ne hne.full_buff
    refine ⟨{ x with kernel := k', putPc := .check }, _, taken, unread,
      by simp only [hk, Option.map_some], hr, hst, hact.sems ▸ h.sems, ?_, { hinp with }⟩
    refine { ho with
      sent := ?_, load := ?_, full := ?_, buff := ?_, waitsFull := ?_, waitsBuff := ?_ }
    · simpa [hpc] using ho.sent
    · exact fun c hc => nomatch hc
    · rw [hfv]
      simpa [hpc, PutPc.claims] using ho.full
    · simp only [hbv, PutPc.frees]
      omega
    · rw [hfw]
      exact fun u hu => hwaits hu
    · rw [hbw]
      exact fun u hu => ho.waitsBuff (List.mem_of_mem_tail hu)

theorem Inv.consoleget {ready : Bool} {c : UInt8} {node : Ptr} (h : Inv e x A taken unread l 0 0)
    (he : e.Ok) (hok : x.Ok e (.consoleget ready c node)) : ∃ x' A' l',
      x.consoleget e ready c node = some x' ∧ Inv e x' A' taken unread l' 0 0 := by
  obtain ⟨hrun, hokr, hoke⟩ := hok
  have hne := he.sems_ne
  have hi := h.inp
  have hnil := h.empty_nil hrun
  have hwaits : ∀ {pc : GetPc} {u : Nat}, u ∈ A.waiting e.rxEmpty →
      u = e.getcThread ∧ pc = .load := fun hu => by
    rw [hnil] at hu
    cases hu
  obtain ⟨u, -, hinv⟩ := id h.stable
  have hclaim := hi.claimed hinv (h.sems (by simp)) hnil
  unfold Console.consoleget
  cases hpc : x.getPc with
  | receive =>
    obtain ⟨t, k', -, -, hk, hr, hst, hact, -⟩ := wait_acted h.rep h.stable (hokr hpc)
    have hinp := hi.frame (hact.val_of_ne hne.empty_receive) (hact.val_of_ne hne.rxBuff_receive)
    have hout := h.out.frame (hact.val_of_ne hne.full_receive) (hact.val_of_ne hne.buff_receive)
    refine ⟨{ x with kernel := k', getPc := .check }, _, l, by simp only [hk, Option.map_some], hr,
      hst, hact.sems ▸ h.sems, { hout with }, ?_⟩
    have hew := (hact.val_of_ne hne.empty_receive).2
    apply hinp.goto (hew.trans hnil)
    · rw [hpc]; rfl
    · rw [hpc]; rfl
    · simp [hpc, arriving]
  | check =>
    refine ⟨_, A, l, rfl, h.rep, h.stable, h.sems, { h.out with }, ?_⟩
    apply hi.goto hnil
    · rw [hpc]; cases ready <;> rfl
    · rw [hpc]; cases ready <;> rfl
    · cases ready <;> simp [hpc, arriving]
  | take =>
    obtain ⟨t, k', hrun', -, hk, hr, hst, hact, -⟩ := wait_acted h.rep h.stable (hoke hpc)
    rw [hrun, Option.some.injEq] at hrun'
    have hout := h.out.frame (hact.val_of_ne hne.full_empty) (hact.val_of_ne hne.buff_empty)
    obtain ⟨hev, hew⟩ := hact.val_self
    obtain ⟨hbv, hbw⟩ := hact.val_of_ne hne.rxBuff_empty
    refine ⟨{ x with kernel := k', getPc := .load }, _, l, by simp only [hk, Option.map_some], hr,
      hst, hact.sems ▸ h.sems, { hout with }, ?_⟩
    refine { hi with read := ?_, empty := ?_, buff := ?_, waitsEmpty := ?_, waitsBuff := ?_ }
    · simpa [hpc, arriving] using hi.read
    · have := hi.empty
      simp only [hpc, GetPc.claims] at this
      simp only [hev, GetPc.claims]
      omega
    · rw [hbv]
      simpa [hpc, GetPc.fills] using hi.buff
    · rw [hew, hnil, ← hrun']
      intro u hu
      split at hu
      · exact ⟨List.mem_singleton.1 hu, rfl⟩
      · cases hu
    · rw [hbw]
      exact hi.waitsBuff
  | load =>
    refine ⟨_, A, l, rfl, h.rep, h.stable, h.sems, { h.out with }, ?_⟩
    refine { hi with read := ?_, empty := ?_, buff := ?_, waitsEmpty := ?_ }
    · have hread := hi.read
      simp only [arriving, hpc, List.append_nil] at hread
      simp only [arriving, hread]
    · simpa [hpc, GetPc.claims] using hi.empty
    · simpa [hpc, GetPc.fills] using hi.buff
    · exact fun u hu => hwaits hu
  | store d =>
    rw [hpc] at hclaim
    refine ⟨_, A, l, rfl, h.rep, h.stable, h.sems, { h.out with }, ?_⟩
    refine { hi with
      read := ?_, ring := hi.ring.write hclaim d, empty := ?_, buff := ?_, waitsEmpty := ?_ }
    · simpa [hpc, arriving] using hi.read
    · simpa [hpc, GetPc.claims] using hi.empty
    · simpa [hpc, GetPc.fills] using hi.buff
    · exact fun u hu => hwaits hu
  | advance =>
    rw [hpc] at hclaim
    refine ⟨_, A, l ++ [x.cons.input_buff x.cons.inpTail], rfl, h.rep, h.stable, h.sems,
      { h.out with }, ?_⟩
    refine { hi with
      read := ?_, ring := hi.ring.grow hclaim rfl, empty := ?_, buff := ?_, waitsEmpty := ?_ }
    · simpa [hpc, arriving] using hi.read
    · have := hi.empty
      simp only [hpc, GetPc.claims] at this
      simp only [GetPc.claims, List.length_append, List.length_singleton]
      omega
    · have := hi.buff
      simp only [hpc, GetPc.fills] at this
      simp only [GetPc.fills, List.length_append, List.length_singleton]
      omega
    · exact fun u hu => hwaits hu
  | signal =>
    have hb := hi.buff
    simp only [hpc, GetPc.fills] at hb
    have hmax : A.val e.rxBuff < 2 ^ 31 - 1 := by
      have := hi.ring.length_le
      unfold maxSize at this
      omega
    obtain ⟨k', hk, hr, hst, hact, -⟩ := signal_acted h.rep h.stable (h.sems (by simp)) hmax
    have hout := h.out.frame (hact.val_of_ne hne.full_rxBuff) (hact.val_of_ne hne.buff_rxBuff)
    obtain ⟨hbv, hbw⟩ := hact.val_self
    obtain ⟨hev, hew⟩ := hact.val_of_ne hne.rxBuff_empty.symm
    refine ⟨{ x with kernel := k', getPc := .receive }, _, l, by simp only [hk, Option.map_some],
      hr, hst, hact.sems ▸ h.sems, { hout with }, ?_⟩
    refine { hi with read := ?_, empty := ?_, buff := ?_, waitsEmpty := ?_, waitsBuff := ?_ }
    · simpa [hpc, arriving] using hi.read
    · rw [hev]
      simpa [hpc, GetPc.claims] using hi.empty
    · simp only [hbv, GetPc.fills]
      omega
    · rw [hew]
      exact fun u hu => hwaits hu
    · rw [hbw]
      exact fun u hu => hi.waitsBuff (List.mem_of_mem_tail hu)

/-! ## Runs -/

/-- A signal on a semaphore of the device leaves the rings. -/
theorem Inv.signal_device {k' : Kernel} (h : Inv e x A taken unread l n m)
    (hr : Rep k' A') (hst : A'.Stable) {v : Int} {w : List Nat} (hact : A.Acted A' s v w)
    (hs : e.txFull ≠ s ∧ e.txBuff ≠ s ∧ e.rxEmpty ≠ s ∧ e.rxBuff ≠ s) :
    Inv e { x with kernel := k' } A' taken unread l n m :=
  ⟨hr, hst, hact.sems ▸ h.sems,
    { h.out.frame (hact.val_of_ne hs.1) (hact.val_of_ne hs.2.1) with },
    { h.inp.frame (hact.val_of_ne hs.2.2.1) (hact.val_of_ne hs.2.2.2) with }⟩

theorem Inv.interrupt (h : Inv e x A taken unread l 0 0) (he : e.Ok) (hok : x.Ok e .interrupt) :
    ∃ x' A', x.interrupt e = some x' ∧ Inv e x' A' taken unread l 0 0 := by
  obtain ⟨-, ⟨hs₁, hmax₁⟩, hs₂, hmax₂⟩ := hok
  rw [h.rep.sems] at hs₁ hs₂
  rw [h.rep.val] at hmax₁ hmax₂
  have hne := he.sems_ne
  obtain ⟨k₁, hk₁, hr₁, hst₁, hact₁, -⟩ := signal_acted h.rep h.stable hs₁ hmax₁
  have h₁ := h.signal_device hr₁ hst₁ hact₁
    ⟨hne.full_receive, hne.buff_receive, hne.empty_receive, hne.rxBuff_receive⟩
  have hmax₂' : (A.signal e.uartReceive).val e.uartTransmit < 2 ^ 31 - 1 := by
    rw [(hact₁.val_of_ne hne.receive_transmit.symm).1]
    exact hmax₂
  obtain ⟨k₂, hk₂, hr₂, hst₂, hact₂, -⟩ :=
    signal_acted hr₁ hst₁ (h₁.sems (by simp)) hmax₂'
  refine ⟨{ x with kernel := k₂ }, _, ?_, h₁.signal_device hr₂ hst₂ hact₂
    ⟨hne.full_transmit, hne.buff_transmit, hne.empty_transmit, hne.rxBuff_transmit⟩⟩
  unfold Console.interrupt
  simp only [hk₁, hk₂, Option.bind_eq_bind, Option.bind_some]
  rfl

theorem Inv.entry {en : Entry} (h : Inv e x A taken unread l 0 0) (hok : x.Ok e (.entry en)) :
    ∃ x' A', x.step e (.entry en) = some x' ∧ Inv e x' A' taken unread l 0 0 := by
  obtain ⟨hok, hnames, -⟩ := hok
  obtain ⟨k', hk, hr, hst⟩ := step_rep h.rep h.stable hok
  have hframe : ∀ s ∈ [e.txFull, e.txBuff, e.rxBuff, e.rxEmpty, e.uartReceive, e.uartTransmit],
      s ∈ (A.step en).sems ∧ (A.step en).val s = A.val s ∧ (A.step en).waiting s = A.waiting s :=
    fun s hs => h.stable.step_frame h.rep hok hst (h.sems hs) (hnames s hs)
  refine ⟨{ x with kernel := k' }, _, ?_, hr, hst, fun s hs => (hframe s hs).1, ?_, ?_⟩
  · unfold Console.step
    simp only [hk, Option.map_some]
  · exact { h.out.frame (hframe _ (by simp)).2 (hframe _ (by simp)).2 with }
  · exact { h.inp.frame (hframe _ (by simp)).2 (hframe _ (by simp)).2 with }

/-- Every admitted event returns and keeps the rings. -/
theorem Inv.step {ev : Event} (h : Inv e x A taken unread l 0 0) (he : e.Ok) (hok : x.Ok e ev) :
    ∃ x' A' taken' unread' l', x.step e ev = some x' ∧ Inv e x' A' taken' unread' l' 0 0 := by
  cases ev with
  | entry en =>
    obtain ⟨x', A', hx', h'⟩ := h.entry hok
    exact ⟨x', A', _, _, _, hx', h'⟩
  | interrupt =>
    obtain ⟨x', A', hx', h'⟩ := h.interrupt he hok
    exact ⟨x', A', _, _, _, hx', h'⟩
  | put c node =>
    obtain ⟨x', A', unread', hx', h'⟩ := h.put he hok.1 hok.2 c
    exact ⟨x', A', _, _, _, hx', h'⟩
  | get node =>
    obtain ⟨x', A', l', hx', h'⟩ := h.get he hok.1 hok.2
    exact ⟨x', A', _, _, _, hx', h'⟩
  | resume =>
    obtain ⟨x', A', unread', l', hx', h'⟩ := h.resume he hok
    exact ⟨x', A', _, _, _, hx', h'⟩
  | consoleput ready node =>
    obtain ⟨x', A', taken', unread', hx', h'⟩ := h.consoleput he hok
    exact ⟨x', A', _, _, _, hx', h'⟩
  | consoleget ready c node =>
    obtain ⟨x', A', l', hx', h'⟩ := h.consoleget he hok
    exact ⟨x', A', _, _, _, hx', h'⟩

/-- The rings of a reachable state. -/
def Kept (e : Boot) (x : Console) : Prop := ∃ A taken unread l, Inv e x A taken unread l 0 0

theorem Kept.step {ev : Event} (h : Kept e x) (he : e.Ok) (hok : x.Ok e ev) :
    ∃ x', x.step e ev = some x' ∧ Kept e x' := by
  obtain ⟨A, taken, unread, l, h⟩ := h
  obtain ⟨x', A', taken', unread', l', hx', h'⟩ := h.step he hok
  exact ⟨x', hx', A', taken', unread', l', h'⟩

theorem Kept.run {evs : List Event} (h : Kept e x) (he : e.Ok)
    (hrun : Run (Ok e) (Console.step e) x evs x') : Kept e x' := by
  refine hrun.inv (Kept e) (fun x ev x' h hok hx => ?_) h
  obtain ⟨x'', hx'', h'⟩ := h.step he hok
  rw [hx] at hx''
  exact Option.some.inj hx'' ▸ h'

theorem Kept.boot {k₀ : Kernel} (he : e.Ok) (hboot : e.kernel = some k₀)
    (input_buff output_buff : Nat → UInt8) : Kept e (.boot k₀ input_buff output_buff) := by
  obtain ⟨k₀', hk, hr⟩ := Boot.rep he
  rw [hboot, Option.some.injEq] at hk
  subst hk
  have hne := he.sems_ne
  have hval := Boot.sys_val he
  have hwait := e.sys_waiting
  refine ⟨e.sys, [], [], [], hr, Boot.stable he, ?_, ?_, ?_⟩
  · rw [e.sys_sems]
    intro s hs
    simp only [List.mem_cons, List.not_mem_nil, or_false] at hs ⊢
    tauto
  · refine ⟨rfl, Ring.empty _ (show 0 < maxSize by decide), rfl, ?_, ?_, ?_, ?_, ?_, .nil⟩
    · exact fun c hc => absurd hc (by simp [Console.boot])
    · rw [hval _ (by rw [e.sys_sems]; simp)]
      simp [Boot.calls, Queues.History.value, hne.full_buff, hne.full_empty, Console.boot,
        PutPc.claims]
    · rw [hval _ (by rw [e.sys_sems]; simp)]
      simp [Boot.calls, Queues.History.value, Console.boot, PutPc.frees]
    · rw [hwait]
      exact fun t ht => absurd ht List.not_mem_nil
    · rw [hwait]
      exact fun t ht => absurd ht List.not_mem_nil
  · refine ⟨rfl, Ring.empty _ (show 0 < maxSize by decide), ?_, ?_, ?_, ?_, .nil⟩
    · rw [hval _ (by rw [e.sys_sems]; simp)]
      simp [Boot.calls, Queues.History.value, Console.boot, GetPc.claims]
    · rw [hval _ (by rw [e.sys_sems]; simp)]
      simp [Boot.calls, Queues.History.value, hne.buff_rxBuff.symm, hne.rxBuff_empty, Console.boot,
        GetPc.fills]
    · rw [hwait]
      exact fun t ht => absurd ht List.not_mem_nil
    · rw [hwait]
      exact fun t ht => absurd ht List.not_mem_nil

/-! ## The result -/

/-- The values of the semaphores account for the slots of the two rings, `W` the queues, `unread` and
`l` what is in the rings. A caller in `puts` or `gets` that is in no queue has been released and
has not run yet: it claims a slot. So does `consoleput` or `consoleget` between its wait and the move
of the index, if it does not wait. -/
structure Accounts (e : Boot) (x : Console) (W : Nat → List Nat) (unread l : List UInt8) : Prop where
  producers : (W e.txBuff).Nodup ∧ W e.txBuff ⊆ x.puts.map Prod.fst
  consumers : (W e.rxBuff).Nodup ∧ W e.rxBuff ⊆ x.gets
  free : (x.kernel.sem e.txBuff).val.toNat + (x.puts.length - (W e.txBuff).length) +
    x.putPc.frees + unread.length = maxSize
  filled : (x.kernel.sem e.txFull).val.toNat + (x.putPc.claims - (W e.txFull).length) =
    unread.length
  rxFree : (x.kernel.sem e.rxEmpty).val.toNat + (x.getPc.claims - (W e.rxEmpty).length) +
    l.length = maxSize
  rxFilled : (x.kernel.sem e.rxBuff).val.toNat + (x.gets.length - (W e.rxBuff).length) +
    x.getPc.fills = l.length

theorem Inv.accounts (h : Inv e x A taken unread l 0 0) : Accounts e x A.waiting unread l := by
  obtain ⟨t, -, hinv⟩ := h.stable
  have hb : e.txBuff ∈ A.sems := h.sems (by simp)
  have hrb : e.rxBuff ∈ A.sems := h.sems (by simp)
  have hvb := (hinv.val e.txBuff hb).2
  have hvf := (hinv.val e.txFull (h.sems (by simp))).2
  have hve := (hinv.val e.rxEmpty (h.sems (by simp))).2
  have hvr := (hinv.val e.rxBuff hrb).2
  have hob := h.out.buff
  have hof := h.out.full
  have hie := h.inp.empty
  have hir := h.inp.buff
  have hulen := h.out.ring.length_le
  have hllen := h.inp.ring.length_le
  have hprod : (A.waiting e.txBuff).length ≤ x.puts.length := by
    have hmap : (x.puts.map Prod.fst).length = x.puts.length := List.length_map _
    rw [← hmap]
    exact (List.subperm_of_subset (hinv.waiting_nodup hb) h.out.waitsBuff).length_le
  have hcons : (A.waiting e.rxBuff).length ≤ x.gets.length :=
    (List.subperm_of_subset (hinv.waiting_nodup hrb) h.inp.waitsBuff).length_le
  refine ⟨⟨hinv.waiting_nodup hb, h.out.waitsBuff⟩, ⟨hinv.waiting_nodup hrb, h.inp.waitsBuff⟩,
    ?_, ?_, ?_, ?_⟩
  all_goals
    rw [h.rep.val]
    omega

theorem Inv.sent_prefix (h : Inv e x A taken unread l n m) : x.sent <+: x.written := by
  rw [h.out.sent, h.out.written, List.prefix_append_right_inj]
  split
  · exact List.take_prefix 1 unread
  · exact List.nil_prefix

/-- **The console's rings are lossless.** In every state of a run with any number of threads in `put`
and `get`: the characters written to the device are a prefix of those put, in order, and the ring
holds the others, at most `MAX_SIZE`; the characters that `get` returned are a prefix of those read
from the device, and the ring holds the others but the one that `consoleget` is storing; the
semaphores account for the slots. Every admitted event returns. -/
theorem console_fifo {k₀ : Kernel} {evs : List Event} {input_buff output_buff : Nat → UInt8}
    (he : e.Ok) (hboot : e.kernel = some k₀)
    (hrun : Run (Ok e) (step e) (.boot k₀ input_buff output_buff) evs x) :
    x.sent <+: x.written ∧ x.got <+: x.read ∧
    (∃ R W S taken unread l, Lists x.kernel R W S ∧ x.written = taken ++ unread ∧
      x.sent = taken ++ (if x.putPc = .advance then unread.take 1 else []) ∧
      Ring maxSize x.cons.output_buff x.cons.outpHead x.cons.outpTail unread ∧
      x.read = x.got ++ l ++ x.arriving ∧
      Ring maxSize x.cons.input_buff x.cons.inpHead x.cons.inpTail l ∧ Accounts e x W unread l) ∧
    ∀ ev, x.Ok e ev → ∃ x', x.step e ev = some x' := by
  have hkept := (Kept.boot he hboot input_buff output_buff).run he hrun
  obtain ⟨A, taken, unread, l, h⟩ := id hkept
  refine ⟨h.sent_prefix, ?_, ⟨_, _, _, taken, unread, l, h.rep.lists, h.out.written, h.out.sent,
    h.out.ring, h.inp.read, h.inp.ring, h.accounts⟩, fun ev hok => ?_⟩
  · rw [h.inp.read, List.append_assoc]
    exact List.prefix_append _ _
  · obtain ⟨x', hx', -⟩ := hkept.step he hok
    exact ⟨x', hx'⟩

end Console

/-- The main thread puts two characters, of which `consoleput` sends one; `consoleget` reads a
character, and the main thread gets it. -/
theorem console_fifo_boot128 : ∃ k₀ x, boot128.kernel = some k₀ ∧
    Run (Console.Ok boot128) (Console.step boot128) (.boot k₀ (fun _ => 0) fun _ => 0)
      [.put 65 (some 0x87009000), .put 66 (some 0x87009000), .interrupt, .entry .dispatch,
        .consoleput false (some 0x8700a000), .consoleput true none,
        .consoleput false (some 0x8700a000), .consoleput false none, .consoleput false none,
        .consoleput false none, .consoleput false none, .consoleput false none,
        .consoleput false (some 0x8700a000), .consoleget false 0 (some 0x8700b000),
        .consoleget true 0 none, .consoleget false 0 (some 0x8700b000), .consoleget false 67 none,
        .consoleget false 0 none, .consoleget false 0 none, .consoleget false 0 none,
        .consoleget false 0 (some 0x8700b000), .entry .dispatch, .get (some 0x8700c000)] x ∧
    (x.written = [65, 66] ∧ x.sent = [65] ∧ x.sent <+: x.written) ∧
    x.read = [67] ∧ x.got = [67] ∧ x.got <+: x.read := by
  obtain ⟨k₀, x, hboot, hrun, hout, hin⟩ : ∃ k₀ x, boot128.kernel = some k₀ ∧
      Run (Console.Ok boot128) (Console.step boot128) (.boot k₀ (fun _ => 0) fun _ => 0)
      [.put 65 (some 0x87009000), .put 66 (some 0x87009000), .interrupt, .entry .dispatch,
        .consoleput false (some 0x8700a000), .consoleput true none,
        .consoleput false (some 0x8700a000), .consoleput false none, .consoleput false none,
        .consoleput false none, .consoleput false none, .consoleput false none,
        .consoleput false (some 0x8700a000), .consoleget false 0 (some 0x8700b000),
        .consoleget true 0 none, .consoleget false 0 (some 0x8700b000), .consoleget false 67 none,
        .consoleget false 0 none, .consoleget false 0 none, .consoleget false 0 none,
        .consoleget false 0 (some 0x8700b000), .entry .dispatch, .get (some 0x8700c000)] x ∧
      (x.written = [65, 66] ∧ x.sent = [65]) ∧ x.read = [67] ∧ x.got = [67] := by
    refine ⟨_, _, rfl, .cons ?_ rfl (.cons ?_ rfl (.cons ?_ rfl (.cons ?_ rfl (.cons ?_ rfl
      (.cons ?_ rfl (.cons ?_ rfl (.cons ?_ rfl (.cons ?_ rfl (.cons ?_ rfl (.cons ?_ rfl
      (.cons ?_ rfl (.cons ?_ rfl (.cons ?_ rfl (.cons ?_ rfl (.cons ?_ rfl (.cons ?_ rfl
      (.cons ?_ rfl (.cons ?_ rfl (.cons ?_ rfl (.cons ?_ rfl (.cons ?_ rfl (.cons ?_ rfl
      .nil)))))))))))))))))))))), ⟨rfl, rfl⟩, rfl, rfl⟩
    · exact ⟨⟨_, rfl, by decide, by decide, by decide⟩, by decide, by decide, _, rfl, by decide⟩
    · exact ⟨⟨_, rfl, by decide, by decide, by decide⟩, by decide, by decide, _, rfl, by decide⟩
    · exact ⟨fun t ht => by cases ht; decide, ⟨by decide, by decide⟩, by decide, by decide⟩
    · exact ⟨trivial, fun _ _ hn => hn, fun t ht => by
        cases ht
        exact ⟨by decide, fun hn => absurd hn (by decide)⟩⟩
    -- `consoleput` waits at the test of the device and for a character
    · exact ⟨rfl, fun _ => ⟨by decide, by decide, _, rfl, by decide⟩, fun hn => nomatch hn⟩
    · exact ⟨rfl, (fun hn => nomatch hn), fun hn => nomatch hn⟩
    · exact ⟨rfl, (fun hn => nomatch hn), fun _ => ⟨by decide, by decide, _, rfl, by decide⟩⟩
    · exact ⟨rfl, (fun hn => nomatch hn), fun hn => nomatch hn⟩
    · exact ⟨rfl, (fun hn => nomatch hn), fun hn => nomatch hn⟩
    · exact ⟨rfl, (fun hn => nomatch hn), fun hn => nomatch hn⟩
    · exact ⟨rfl, (fun hn => nomatch hn), fun hn => nomatch hn⟩
    · exact ⟨rfl, (fun hn => nomatch hn), fun hn => nomatch hn⟩
    · exact ⟨rfl, fun _ => ⟨by decide, by decide, _, rfl, by decide⟩, fun hn => nomatch hn⟩
    -- so does `consoleget`
    · exact ⟨rfl, fun _ => ⟨by decide, by decide, _, rfl, by decide⟩, fun hn => nomatch hn⟩
    · exact ⟨rfl, (fun hn => nomatch hn), fun hn => nomatch hn⟩
    · exact ⟨rfl, (fun hn => nomatch hn), fun _ => ⟨by decide, by decide, _, rfl, by decide⟩⟩
    · exact ⟨rfl, (fun hn => nomatch hn), fun hn => nomatch hn⟩
    · exact ⟨rfl, (fun hn => nomatch hn), fun hn => nomatch hn⟩
    · exact ⟨rfl, (fun hn => nomatch hn), fun hn => nomatch hn⟩
    · exact ⟨rfl, (fun hn => nomatch hn), fun hn => nomatch hn⟩
    · exact ⟨rfl, fun _ => ⟨by decide, by decide, _, rfl, by decide⟩, fun hn => nomatch hn⟩
    · exact ⟨trivial, fun _ _ hn => hn, fun t ht => by
        cases ht
        exact ⟨by decide, fun hn => absurd hn (by decide)⟩⟩
    · exact ⟨⟨_, rfl, by decide, by decide, by decide⟩, by decide, by decide, _, rfl, by decide⟩
  obtain ⟨hsent, hgot, -⟩ := Console.console_fifo boot128_ok hboot hrun
  exact ⟨k₀, x, hboot, hrun, ⟨hout.1, hout.2, hsent⟩, hin.1, hin.2, hgot⟩

end SlabKernel
