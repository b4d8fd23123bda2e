import SlabKernel.Console.Rings

/-!
# `KernelConsole::flush`

`flush` tests whether the indices of the output ring are equal. The number of characters that have
left the ring gives the head, and the number put gives the tail, both modulo `MAX_SIZE`
(`Kept.head`, `Kept.tail`). So equal indices say that nothing is pending unless `MAX_SIZE` characters
are, which the semaphore `txBuff` admits; `flush_iff` is the condition, and after `flush_loses` the
main thread would shut down with `MAX_SIZE` characters unsent.
-/

namespace SlabKernel

open Function (update update_self update_of_ne)
open PtrList Runs Rings

namespace Console

variable {e : Boot} {x x' x'' : Console} {ev : Event} {A : Sys} {taken unread l : List UInt8}

/-! ## What a step moves -/

/-- The number of characters that have left the ring gives the head. -/
structure Counted (x : Console) : Prop where
  head : x.cons.outpHead = x.taken % maxSize
  pos : x.putPc = .advance → 0 < x.sent.length

/-- Characters are put and sent, none is taken back. -/
structure Grows (x x' : Console) : Prop where
  written : x.written <+: x'.written
  sent : x.sent <+: x'.sent
  taken : x.Counted → x'.Counted ∧ x.taken ≤ x'.taken

/-- `consoleput` does not move. -/
structure Idles (x x' : Console) : Prop where
  written : x.written <+: x'.written
  sent : x'.sent = x.sent
  putPc : x'.putPc = x.putPc
  head : x'.cons.outpHead = x.cons.outpHead

theorem Idles.grows (h : Idles x x') : Grows x x' := by
  have ht : x'.taken = x.taken := by
    unfold Console.taken
    rw [h.sent, h.putPc]
  refine ⟨h.written, h.sent ▸ List.prefix_rfl, fun hc => ⟨⟨?_, ?_⟩, Nat.le_of_eq ht.symm⟩⟩
  · rw [h.head, ht]
    exact hc.head
  · rw [h.putPc, h.sent]
    exact hc.pos

theorem idles_putRest {c : UInt8} (h : x.putRest e c = some x') : Idles x x' := by
  obtain ⟨k, -, h⟩ := Option.bind_eq_some_iff.1 h
  cases h
  exact ⟨List.prefix_append _ _, rfl, rfl, rfl⟩

theorem idles_getRest (h : x.getRest e = some x') : Idles x x' := by
  obtain ⟨k, -, h⟩ := Option.bind_eq_some_iff.1 h
  cases h
  exact ⟨List.prefix_rfl, rfl, rfl, rfl⟩

theorem idles_put {c : UInt8} {node : Ptr} (h : x.put e c node = some x') : Idles x x' := by
  obtain ⟨t, -, h⟩ := Option.bind_eq_some_iff.1 h
  obtain ⟨k, -, h⟩ := Option.bind_eq_some_iff.1 h
  split at h
  · exact { idles_putRest h with }
  · cases h
    exact ⟨List.prefix_rfl, rfl, rfl, rfl⟩

theorem idles_get {node : Ptr} (h : x.get e node = some x') : Idles x x' := by
  obtain ⟨t, -, h⟩ := Option.bind_eq_some_iff.1 h
  obtain ⟨k, -, h⟩ := Option.bind_eq_some_iff.1 h
  split at h
  · exact { idles_getRest h with }
  · cases h
    exact ⟨List.prefix_rfl, rfl, rfl, rfl⟩

theorem idles_resume (h : x.resume e = some x') : Idles x x' := by
  obtain ⟨t, -, h⟩ := Option.bind_eq_some_iff.1 h
  split at h
  · exact { idles_putRest h with }
  · split at h
    · exact { idles_getRest h with }
    · cases h

theorem idles_interrupt (h : x.interrupt e = some x') : Idles x x' := by
  obtain ⟨k, -, h⟩ := Option.bind_eq_some_iff.1 h
  obtain ⟨k', -, h⟩ := Option.bind_eq_some_iff.1 h
  cases h
  exact ⟨List.prefix_rfl, rfl, rfl, rfl⟩

theorem idles_consoleget {ready : Bool} {c : UInt8} {node : Ptr}
    (h : x.consoleget e ready c node = some x') : Idles x x' := by
  unfold consoleget at h
  split at h
  all_goals
    first
    | obtain ⟨k, -, h⟩ := Option.map_eq_some_iff.1 h
      cases h
      exact ⟨List.prefix_rfl, rfl, rfl, rfl⟩
    | cases h
      exact ⟨List.prefix_rfl, rfl, rfl, rfl⟩

/-- `consoleput` sends the character, and moves the head later. -/
theorem grows_consoleput {ready : Bool} {node : Ptr} (h : x.consoleput e ready node = some x') :
    Grows x x' := by
  -- the steps at which nothing is sent and the head stays
  have hstay : ∀ k pc, x.putPc ≠ .advance → pc ≠ .advance →
      Grows x { x with kernel := k, putPc := pc } := fun k pc hx hpc => by
    have ht : ({ x with kernel := k, putPc := pc } : Console).taken = x.taken := by
      unfold Console.taken
      rw [if_neg hx, if_neg hpc]
    exact ⟨List.prefix_rfl, List.prefix_rfl, fun hc =>
      ⟨⟨ht ▸ hc.head, fun ha => absurd ha hpc⟩, Nat.le_of_eq ht.symm⟩⟩
  unfold consoleput at h
  cases hpc : x.putPc with
  | transmit =>
    rw [hpc] at h
    obtain ⟨k, -, h⟩ := Option.map_eq_some_iff.1 h
    cases h
    exact hstay _ _ (by simp [hpc]) (by simp)
  | check =>
    rw [hpc] at h
    cases h
    exact hstay _ _ (by simp [hpc]) (by split <;> simp)
  | take =>
    rw [hpc] at h
    obtain ⟨k, -, h⟩ := Option.map_eq_some_iff.1 h
    cases h
    exact hstay _ _ (by simp [hpc]) (by simp)
  | load =>
    rw [hpc] at h
    cases h
    exact hstay _ _ (by simp [hpc]) (by simp)
  | write c =>
    rw [hpc] at h
    cases h
    have ht : x.taken = x.sent.length := by
      unfold Console.taken
      rw [hpc, if_neg (by simp), Nat.sub_zero]
    have ht' : ({ x with sent := x.sent ++ [c], putPc := .advance } : Console).taken = x.taken := by
      rw [ht]
      unfold Console.taken
      rw [if_pos rfl, List.length_append, List.length_singleton, Nat.add_sub_cancel]
    refine ⟨List.prefix_rfl, List.prefix_append _ _, fun hc => ⟨⟨?_, fun _ => ?_⟩, ?_⟩⟩
    · rw [ht']
      exact hc.head
    · rw [List.length_append]
      exact Nat.succ_pos _
    · exact Nat.le_of_eq ht'.symm
  | advance =>
    rw [hpc] at h
    cases h
    refine ⟨List.prefix_rfl, List.prefix_rfl, fun hc => ?_⟩
    have hpos := hc.pos hpc
    have hhead := hc.head
    unfold Console.taken at hhead ⊢
    rw [hpc, if_pos rfl] at hhead
    rw [hpc, if_pos rfl, if_neg (by simp), Nat.sub_zero]
    refine ⟨⟨?_, fun hn => absurd hn (by simp)⟩, Nat.sub_le _ _⟩
    change (x.cons.outpHead + 1) % maxSize = x.sent.length % maxSize
    rw [hhead, Nat.mod_add_mod, Nat.sub_add_cancel hpos]
  | signal =>
    rw [hpc] at h
    obtain ⟨k, -, h⟩ := Option.map_eq_some_iff.1 h
    cases h
    exact hstay _ _ (by simp [hpc]) (by simp)

theorem step_grows (h : x.step e ev = some x') : Grows x x' := by
  cases ev with
  | entry en =>
    obtain ⟨k, -, h⟩ := Option.map_eq_some_iff.1 h
    cases h
    exact Idles.grows ⟨List.prefix_rfl, rfl, rfl, rfl⟩
  | interrupt => exact (idles_interrupt h).grows
  | put c node => exact (idles_put h).grows
  | get node => exact (idles_get h).grows
  | resume => exact (idles_resume h).grows
  | consoleput ready node => exact grows_consoleput h
  | consoleget ready c node => exact (idles_consoleget h).grows

theorem Kept.counted_run {evs : List Event} (h : x.Counted)
    (hrun : Run (Ok e) (Console.step e) x evs x') : x'.Counted :=
  hrun.inv Counted (fun _ _ _ hc _ hs => ((step_grows hs).taken hc).1) h

/-! ## The indices -/

theorem Inv.taken_eq (h : Inv e x A taken unread l 0 0) : x.taken = taken.length := by
  unfold Console.taken
  rw [h.out.sent]
  split
  · rename_i hpc
    have hpos := List.length_pos_iff.2 (h.unread_ne hpc)
    rw [List.length_append, List.length_take]
    omega
  · rw [List.append_nil, Nat.sub_zero]

/-- The ring holds `written.length - taken` characters. -/
theorem Inv.unread_length (h : Inv e x A taken unread l 0 0) :
    x.written.length = x.taken + unread.length := by
  rw [h.taken_eq, h.out.written, List.length_append]

theorem Inv.tail (h : Inv e x A taken unread l 0 0) (hc : x.Counted) :
    x.cons.outpTail = x.written.length % maxSize := by
  rw [h.out.ring.tail_eq, hc.head, Nat.mod_add_mod, h.unread_length]

theorem Inv.taken_le (h : Inv e x A taken unread l 0 0) : x.taken ≤ x.written.length := by
  rw [h.unread_length]
  exact Nat.le_add_right _ _

/-- Equal indices say that nothing is pending, or that the ring is full. -/
theorem Inv.equal_iff (h : Inv e x A taken unread l 0 0) :
    (x.cons.outpHead = x.cons.outpTail → x.sent = x.written) ↔
      x.written.length < x.taken + maxSize := by
  rw [h.out.ring.head_eq_tail_iff, h.unread_length, Nat.add_lt_add_iff_left]
  have hlen := h.out.ring.length_le
  constructor
  · intro hsent
    by_contra hfull
    have hn : unread.length = maxSize := by omega
    have hs := congrArg List.length (hsent (.inr hn))
    rw [h.out.sent, h.out.written, List.length_append, List.length_append] at hs
    split at hs
    · rw [List.length_take] at hs
      unfold maxSize at *
      omega
    · rw [List.length_nil] at hs
      unfold maxSize at *
      omega
  · intro hlt hor
    cases hor with
    | inl hnil =>
      rw [h.out.sent, h.out.written, hnil]
      split <;> rfl
    | inr hn => omega

end Console

/-! ## Runs of `flush` -/

namespace Flushing

open Console

variable {e : Boot} {x : Console} {f f' : Flushing} {ev : Event}

/-- What `flush`, called in the state `x`, has read. -/
structure Reads (x : Console) (f : Flushing) : Prop where
  put : x.written <+: f.console.written
  head : ∀ i count, f.pc = .head i count → i = count % maxSize ∧ count ≤ f.console.taken
  tail : ∀ i count, f.pc = .tail i count → i = count % maxSize ∧ x.written.length ≤ count
  done : f.pc = .done → x.written.length ≤ f.console.sent.length

/-- The state of a run of `flush`. -/
structure Inv (e : Boot) (x : Console) (f : Flushing) : Prop where
  kept : Kept e f.console
  counted : f.console.Counted
  reads : Reads x f

/-- An event of the console. -/
theorem Inv.other {x' : Console} (h : Inv e x f) (he : e.Ok) {ev : Console.Event}
    (hok : f.console.Ok e ev) (hs : f.console.step e ev = some x') :
    Inv e x { f with console := x' } := by
  obtain ⟨x'', hx'', hkept⟩ := h.kept.step he hok
  rw [hs] at hx''
  cases hx''
  have hg := step_grows hs
  obtain ⟨hcounted, hle⟩ := hg.taken h.counted
  refine ⟨hkept, hcounted, h.reads.put.trans hg.written, fun i count hpc => ?_, h.reads.tail,
    fun hpc => ?_⟩
  · obtain ⟨hi, hc⟩ := h.reads.head i count hpc
    exact ⟨hi, Nat.le_trans hc hle⟩
  · exact Nat.le_trans (h.reads.done hpc) hg.sent.length_le

/-- `flush` returns when it has read equal indices: everything put before it is sent. -/
theorem Inv.step (h : Inv e x f) (he : e.Ok) (hok : f.Ok e ev) (hshort : f.Short ev)
    (hs : f.step e ev = some f') : Inv e x f' := by
  obtain ⟨A, taken, unread, l, hinv⟩ := id h.kept
  have hput := h.reads.put.length_le
  have hsent : f.console.taken ≤ f.console.sent.length := Nat.sub_le _ _
  have hle := hinv.taken_le
  have hhead := h.counted.head
  have htail := hinv.tail h.counted
  -- reading moves only `pc`
  have hreads : ∀ pc : FlushPc,
      (∀ i count, pc = .head i count → i = count % maxSize ∧ count ≤ f.console.taken) →
      (∀ i count, pc = .tail i count → i = count % maxSize ∧ x.written.length ≤ count) →
      (pc = .done → x.written.length ≤ f.console.sent.length) →
      Inv e x { f with pc } := fun pc h1 h2 h3 =>
    ⟨h.kept, h.counted, ⟨h.reads.put, h1, h2, h3⟩⟩
  -- equal indices end the loop
  have hcompare : ∀ (p : Prop) [Decidable p], (p → x.written.length ≤ f.console.sent.length) →
      Inv e x { f with pc := if p then .done else .test } := fun p _ hp => by
    refine hreads _ (fun i count hr => ?_) (fun i count hr => ?_) fun hd => ?_
    · split at hr <;> cases hr
    · split at hr <;> cases hr
    · split at hd
      · rename_i heq
        exact hp heq
      · cases hd
  cases ev with
  | outputHead =>
    unfold step at hs
    cases hpc : f.pc with
    | test =>
      rw [hpc] at hs
      cases hs
      refine hreads _ (fun i count hr => ?_) nofun nofun
      cases hr
      exact ⟨hhead, Nat.le_refl _⟩
    | head i count => rw [hpc] at hs; cases hs
    | tail i count =>
      rw [hpc] at hs
      cases hs
      obtain ⟨hi, hcount⟩ := h.reads.tail i count hpc
      have hlt := hshort i count hpc
      refine hcompare _ fun heq => ?_
      rw [hhead, hi] at heq
      unfold maxSize at heq hlt
      omega
    | done => rw [hpc] at hs; cases hs
  | outputTail =>
    unfold step at hs
    cases hpc : f.pc with
    | test =>
      rw [hpc] at hs
      cases hs
      refine hreads _ nofun (fun i count hr => ?_) nofun
      cases hr
      exact ⟨htail, hput⟩
    | head i count =>
      rw [hpc] at hs
      cases hs
      obtain ⟨hi, hcount⟩ := h.reads.head i count hpc
      have hlt := hshort i count hpc
      refine hcompare _ fun heq => ?_
      rw [htail, hi] at heq
      unfold maxSize at heq hlt
      omega
    | tail i count => rw [hpc] at hs; cases hs
    | done => rw [hpc] at hs; cases hs
  | other ev =>
    obtain ⟨x', hx', hs⟩ := Option.map_eq_some_iff.1 hs
    cases hs
    exact h.other he hok.1 hx'

theorem Inv.run {evs : List Event} (h : Inv e x f) (he : e.Ok)
    (hrun : Run (fun f ev => f.Ok e ev ∧ f.Short ev) (Flushing.step e) f evs f') : Inv e x f' :=
  hrun.inv (Inv e x) (fun _ _ _ hi hok hs => hi.step he hok.1 hok.2 hs) h

/-- What has been put is a prefix of what is sent, if `flush` has returned. -/
theorem Inv.flushed (h : Inv e x f) (hd : f.pc = .done) : x.written <+: f.console.sent := by
  obtain ⟨A, taken, unread, l, hinv⟩ := h.kept
  exact List.prefix_of_prefix_length_le h.reads.put hinv.sent_prefix (h.reads.done hd)

end Flushing

namespace Console

variable {e : Boot} {x : Console}

/-- **What `flush` waits for.** In a reachable state equal indices of the output ring mean that no
character is pending iff fewer than `MAX_SIZE` characters are in the ring. If fewer than `MAX_SIZE`
characters are put behind the head that `flush` reads, up to its reading of the tail, then everything
that was put before `flush` was called is sent when it returns. -/
theorem flush_iff {k₀ : Kernel} {evs : List Event} {input_buff output_buff : Nat → UInt8}
    (he : e.Ok) (hboot : e.kernel = some k₀)
    (hrun : Run (Ok e) (step e) (.boot k₀ input_buff output_buff) evs x) :
    ((x.cons.outpHead = x.cons.outpTail → x.sent = x.written) ↔
      x.written.length < x.taken + maxSize) ∧
    ∀ fevs f, Run (fun f ev => Flushing.Ok e f ev ∧ f.Short ev) (Flushing.step e) ⟨x, .test⟩ fevs f →
      f.pc = .done → x.written <+: f.console.sent := by
  have hkept := (Kept.boot he hboot input_buff output_buff).run he hrun
  have hcounted : x.Counted := Kept.counted_run ⟨rfl, fun hpc => by cases hpc⟩ hrun
  obtain ⟨A, taken, unread, l, h⟩ := id hkept
  refine ⟨h.equal_iff, fun fevs f hf hd => ?_⟩
  have h₀ : Flushing.Inv e x ⟨x, .test⟩ := by
    refine ⟨hkept, hcounted, List.prefix_rfl, fun i count hpc => ?_, fun i count hpc => ?_,
      fun hpc => ?_⟩
    all_goals cases hpc
  exact (h₀.run he hf).flushed hd

end Console

/-- The main thread puts a character, `consoleput` sends it and moves the head, and `flush` returns. -/
theorem flush_iff_boot128 : ∃ k₀ x f, boot128.kernel = some k₀ ∧
    Run (Console.Ok boot128) (Console.step boot128) (.boot k₀ (fun _ => 0) fun _ => 0)
      [.put 65 (some 0x87009000), .interrupt, .entry .dispatch,
        .consoleput false (some 0x8700a000), .consoleput true none,
        .consoleput false (some 0x8700a000), .consoleput false none, .consoleput false none,
        .consoleput false none, .entry .timer, .entry .timer, .entry .timer, .entry .timer,
        .entry .dispatch] x ∧
    Run (fun f ev => Flushing.Ok boot128 f ev ∧ f.Short ev) (Flushing.step boot128) ⟨x, .test⟩
      [.outputHead, .outputTail] f ∧
    x.written = [65] ∧ x.written <+: f.console.sent := by
  obtain ⟨k₀, x, f, hboot, hrun, hf, hd, hput⟩ : ∃ k₀ x f, boot128.kernel = some k₀ ∧
      Run (Console.Ok boot128) (Console.step boot128) (.boot k₀ (fun _ => 0) fun _ => 0)
        [.put 65 (some 0x87009000), .interrupt, .entry .dispatch,
          .consoleput false (some 0x8700a000), .consoleput true none,
          .consoleput false (some 0x8700a000), .consoleput false none, .consoleput false none,
          .consoleput false none, .entry .timer, .entry .timer, .entry .timer, .entry .timer,
          .entry .dispatch] x ∧
      Run (fun f ev => Flushing.Ok boot128 f ev ∧ f.Short ev) (Flushing.step boot128) ⟨x, .test⟩
        [.outputHead, .outputTail] f ∧ f.pc = .done ∧ x.written = [65] := by
    refine ⟨_, _, _, rfl, .cons ?_ rfl (.cons ?_ rfl (.cons ?_ rfl (.cons ?_ rfl (.cons ?_ rfl
      (.cons ?_ rfl (.cons ?_ rfl (.cons ?_ rfl (.cons ?_ rfl (.cons ?_ rfl (.cons ?_ rfl
      (.cons ?_ rfl (.cons ?_ rfl (.cons ?_ rfl .nil))))))))))))), .cons ?_ rfl (.cons ?_ rfl .nil),
      rfl, rfl⟩
    · exact ⟨⟨_, rfl, by decide, by decide, by decide⟩, by decide, by decide, _, rfl, by decide⟩
    · exact ⟨fun t ht => by cases ht; decide, ⟨by decide, by decide⟩, by decide, by decide⟩
    · exact ⟨trivial, fun _ _ hn => hn, fun t ht => by
        cases ht
        exact ⟨by decide, fun hn => absurd hn (by decide)⟩⟩
    · exact ⟨rfl, fun _ => ⟨by decide, by decide, _, rfl, by decide⟩, fun hn => nomatch hn⟩
    · exact ⟨rfl, (fun hn => nomatch hn), fun hn => nomatch hn⟩
    · exact ⟨rfl, (fun hn => nomatch hn), fun _ => ⟨by decide, by decide, _, rfl, by decide⟩⟩
    · exact ⟨rfl, (fun hn => nomatch hn), fun hn => nomatch hn⟩
    · exact ⟨rfl, (fun hn => nomatch hn), fun hn => nomatch hn⟩
    · exact ⟨rfl, (fun hn => nomatch hn), fun hn => nomatch hn⟩
    · exact ⟨trivial, fun _ _ hn => hn, fun t ht => by cases ht; exact ⟨by decide, fun _ => rfl⟩⟩
    · exact ⟨trivial, fun _ _ hn => hn, fun t ht => by cases ht; exact ⟨by decide, fun _ => rfl⟩⟩
    · exact ⟨trivial, fun _ _ hn => hn, fun t ht => by cases ht; exact ⟨by decide, fun _ => rfl⟩⟩
    · exact ⟨trivial, fun _ _ hn => hn, fun t ht => by cases ht; exact ⟨by decide, fun _ => rfl⟩⟩
    · exact ⟨trivial, fun _ _ hn => hn, fun t ht => by
        cases ht
        exact ⟨by decide, fun hn => absurd hn (by decide)⟩⟩
    · exact ⟨rfl, nofun⟩
    · exact ⟨rfl, fun i count hc => by cases hc; decide⟩
  exact ⟨k₀, x, f, hboot, hrun, hf, hput, (Console.flush_iff boot128_ok hboot hrun).2 _ f hf hd⟩

/-! ## A full ring -/

namespace Console

variable {e : Boot} {x : Console} {node n : Nat}

/-- The main thread has put `n` characters, and `consoleput` has not run. -/
structure Filling (e : Boot) (node n : Nat) (x : Console) : Prop where
  running : x.kernel.running = some e.mainThread
  free : ¬ x.Pending e.mainThread
  idle : x.kernel.running ≠ x.kernel.idleThread
  sems : e.txBuff ∈ x.kernel.sems
  node : node ∉ x.kernel.nodes
  buff : (x.kernel.sem e.txBuff).val = (maxSize : Int) - n
  full : (x.kernel.sem e.txFull).val = n
  head : x.cons.outpHead = 0
  tail : x.cons.outpTail = n % maxSize
  written : x.written.length = n
  sent : x.sent = []

/-- With a free slot the next character is put at once. -/
theorem Filling.put (h : Filling e node n x) (he : e.Ok) (hn : n < maxSize) (c : UInt8) :
    ∃ x', x.Ok e (.put c (some node)) ∧ x.step e (.put c (some node)) = some x' ∧
      Filling e node (n + 1) x' := by
  have hne := he.sems_ne.full_buff
  unfold maxSize at hn
  have hbuff : toInt32 ((x.kernel.sem e.txBuff).val - 1) = (maxSize : Int) - (n + 1 : Nat) := by
    rw [h.buff]
    unfold maxSize
    rw [toInt32_of_range (by omega) (by omega)]
    omega
  have hfull : toInt32 ((x.kernel.sem e.txFull).val + 1) = (n + 1 : Nat) := by
    rw [h.full, ← Int.natCast_succ]
    exact toInt32_of_range (by omega) (by omega)
  let k₁ := x.kernel.modSem e.txBuff fun s => { s with val := toInt32 (s.val - 1) }
  let k₂ := k₁.modSem e.txFull fun s => { s with val := toInt32 (s.val + 1) }
  have hwait : KernelSem.wait x.kernel e.txBuff (some node) = some k₁ := by
    unfold KernelSem.wait
    simp only [Kernel.modSem_self, hbuff]
    unfold maxSize
    rw [if_neg (by omega)]
  have hval : (k₁.sem e.txFull).val = n := by
    rw [Kernel.modSem_ne hne, h.full]
  have hsignal : KernelSem.signal k₁ e.txFull = some k₂ := by
    unfold KernelSem.signal
    simp only [hval]
    rw [if_neg (by omega)]
  have htcbs := he.tcbs
  simp only [List.nodup_cons, List.mem_cons, List.not_mem_nil, not_or, or_false] at htcbs
  obtain ⟨⟨-, hputc, -⟩, ⟨hgetc, -⟩, -⟩ := htcbs
  refine ⟨{ x with
      kernel := k₂
      cons := { x.cons with
        output_buff := update x.cons.output_buff x.cons.outpTail c
        outpTail := (x.cons.outpTail + 1) % maxSize }
      written := x.written ++ [c] }, ?_, ?_, ?_⟩
  · exact ⟨⟨_, h.running, h.free, Ne.symm hputc, Ne.symm hgetc⟩, h.idle, h.sems, node, rfl, h.node⟩
  · have hrun : k₁.running = some e.mainThread := h.running
    unfold Console.step Console.put putRest
    simp only [h.running, hwait, hrun, hsignal, Option.bind_eq_bind, Option.bind_some, if_true]
    rfl
  · refine ⟨h.running, h.free, h.idle, h.sems, h.node, ?_, ?_, h.head, ?_, ?_, h.sent⟩
    · change (k₂.sem e.txBuff).val = _
      rw [Kernel.modSem_ne hne.symm, Kernel.modSem_self]
      exact hbuff
    · change (k₂.sem e.txFull).val = _
      rw [Kernel.modSem_self]
      change toInt32 ((k₁.sem e.txFull).val + 1) = _
      rw [hval, ← h.full]
      exact hfull
    · change (x.cons.outpTail + 1) % maxSize = _
      rw [h.tail, Nat.mod_add_mod]
    · rw [List.length_append, h.written, List.length_singleton]

/-- The ring fills up to `MAX_SIZE` characters. -/
theorem Filling.puts (h : Filling e node n x) (he : e.Ok) (c : UInt8) (m : Nat)
    (hm : n + m ≤ maxSize) : ∃ x', Run (Ok e) (step e) x (List.replicate m (.put c (some node))) x' ∧
      Filling e node (n + m) x' := by
  induction m generalizing n x with
  | zero => exact ⟨x, .nil, h⟩
  | succ m ih =>
    obtain ⟨x₁, hok, hs, h₁⟩ := h.put he (by omega) c
    obtain ⟨x', hrun, h'⟩ := ih h₁ (by omega)
    refine ⟨x', ?_, ?_⟩
    · rw [List.replicate_succ]
      exact .cons hok hs hrun
    · rw [Nat.add_assoc, Nat.add_comm 1 m] at h'
      exact h'

end Console

/-- While `consoleput` does not run, the main thread puts `MAX_SIZE` characters. The indices are
equal, `flush` returns, and nothing has been sent. -/
theorem flush_loses : ∃ k₀ x, boot128.kernel = some k₀ ∧
    Run (Console.Ok boot128) (Console.step boot128) (.boot k₀ (fun _ => 0) fun _ => 0)
      (List.replicate 4096 (.put 65 (some 0x87009000))) x ∧
    x.cons.outpHead = x.cons.outpTail ∧ x.written.length = 4096 ∧ x.sent = [] ∧
    Run (Flushing.Ok boot128) (Flushing.step boot128) ⟨x, .test⟩ [.outputHead, .outputTail]
      ⟨x, .done⟩ ∧ ¬ x.written <+: x.sent := by
  obtain ⟨k₀, hboot, h₀⟩ : ∃ k₀, boot128.kernel = some k₀ ∧
      Console.Filling boot128 0x87009000 0 (.boot k₀ (fun _ => 0) fun _ => 0) := by
    exact ⟨_, rfl, rfl, by decide, by decide, by decide, by decide, by decide, by decide, rfl, rfl, rfl,
      rfl⟩
  obtain ⟨x, hrun, h⟩ := h₀.puts boot128_ok 65 4096 (by decide)
  have heq : x.cons.outpHead = x.cons.outpTail := by rw [h.head, h.tail]; rfl
  refine ⟨k₀, x, hboot, hrun, heq, h.written, h.sent, .cons h.running rfl (.cons h.running ?_ .nil), ?_⟩
  · unfold Flushing.step
    simp only [heq, if_pos]
  · rw [h.sent, List.prefix_nil]
    intro hnil
    have := h.written
    rw [hnil] at this
    cases this

end SlabKernel
