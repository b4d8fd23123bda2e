import SlabKernel.Mmu.Init

/-!
# Page faults of user code

`trapHandler` answers a page fault of user code by mapping the page for it, unless the address is in
`kspace` or, for a fetch, not in `ufetch`. Both are checks of one address against the bounds of a few
sections. The memory to be kept from user code (`Guarded`) is more than that: the kernel's code, the
arrays that `buddyInit` puts in front of the region, the rest of a page at the end of the kernel's
data, and every address from `2 ^ 39` on that has the indices of such a page.

As long as no fault that is answered with a mapping is at such a page (`Trap.Spares`), no guarded
page changes (`faults_spare_kernel`); a fault at one gives it to user code.
-/

namespace SlabKernel

open EntryBits Runs

/-- What `trapHandler` reads at a page fault; `spp` tells whether the kernel was running. -/
structure Trap where
  cause : Nat
  sepc : Nat
  stval : Nat
  spp : Bool

namespace MMU

/-- The page faults in `trapHandler`: whether the running thread is suspended, and the table. -/
def trapHandler (s : MMU) (f : Trap) : Option (Bool × MMU) :=
  if f.cause = 12 then
    let vaddr := f.sepc
    if f.spp then (s.map vaddr ReadWriteExecute).map (false, ·)
    else if s.ufetch vaddr then (s.map vaddr UserReadWriteExecute).map (false, ·)
    else some (true, s)
  else if f.cause = 13 ∨ f.cause = 15 then
    let vaddr := f.stval
    if f.spp then (s.map vaddr ReadWriteExecute).map (false, ·)
    else if s.kspace vaddr then some (true, s)
    else (s.map vaddr UserReadWriteExecute).map (false, ·)
  else some (false, s)

/-- The entry is for user code. -/
def user (e : Nat) : Prop := e &&& User ≠ 0

end MMU

/-! ## What is to be kept from user code -/

/-- The kernel's code and data, and what `buddyInit` reserves from `space` on. -/
def KernelAddr (ld : Linker) (space : Nat) (b : Buddy) (x : Nat) : Prop :=
  ld.KCODE_BEGIN ≤ x ∧ x < ld.KCODE_END ∨ ld.KDATA_BEGIN ≤ x ∧ x < ld.KDATA_END ∨
    space ≤ x ∧ x < b.kernelEndAddr

/-- The wrapper of the threads, which user code executes. -/
def WrapAddr (ld : Linker) (x : Nat) : Prop := ld.WRAP_START ≤ x ∧ x < ld.WRAP_END

/-- The slot is that of a page with kernel memory, and not with the wrapper. -/
def Guarded (ld : Linker) (space : Nat) (b : Buddy) (q : Nat) : Prop :=
  (∃ x, KernelAddr ld space b x ∧ slot x = q) ∧ ¬ ∃ x, WrapAddr ld x ∧ slot x = q

/-- A page fault of user code. -/
def Trap.User (f : Trap) : Prop := f.spp = false ∧ (f.cause = 12 ∨ f.cause = 13 ∨ f.cause = 15)

/-- The fault is not at a guarded page, or is not answered with a mapping. -/
def Trap.Spares (f : Trap) (s : MMU) (ld : Linker) (space : Nat) : Prop :=
  (f.cause = 12 → s.ufetch f.sepc → ¬ Guarded ld space s.buddy (slot f.sepc)) ∧
  (f.cause ≠ 12 → ¬ s.kspace f.stval → ¬ Guarded ld space s.buddy (slot f.stval))

namespace MMU

variable {s s' s₀ t : MMU} {ld : Linker} {space : Nat} {f : Trap} {extra live : List (Nat × Nat)}

/-- A fault is executed. -/
def fault (s : MMU) (f : Trap) : Option MMU := (s.trapHandler f).map Prod.snd

/-- The page that the handler maps for user code. -/
def mapped (s : MMU) (f : Trap) : Option Nat :=
  if f.cause = 12 then if s.ufetch f.sepc then some f.sepc else none
  else if s.kspace f.stval then none else some f.stval

theorem fault_eq (hf : f.User) :
    s.fault f = (s.mapped f).elim (some s) fun vaddr => s.map vaddr UserReadWriteExecute := by
  obtain ⟨hspp, hcause⟩ := hf
  unfold fault trapHandler mapped
  by_cases h12 : f.cause = 12
  · simp only [if_pos h12, hspp, Bool.false_eq_true, if_false]
    by_cases hu : s.ufetch f.sepc
    · rw [if_pos hu, if_pos hu, Option.map_map]
      exact Option.map_id'
    · rw [if_neg hu, if_neg hu]
      rfl
  · simp only [if_neg h12, hspp, Bool.false_eq_true, if_false,
      if_pos (hcause.resolve_left h12)]
    by_cases hk : s.kspace f.stval
    · rw [if_pos hk, if_pos hk]
      rfl
    · rw [if_neg hk, if_neg hk, Option.map_map]
      exact Option.map_id'

theorem spares_iff : f.Spares s ld space ↔
    ∀ vaddr, s.mapped f = some vaddr → ¬ Guarded ld space s.buddy (slot vaddr) := by
  unfold Trap.Spares mapped
  by_cases h12 : f.cause = 12
  · simp only [h12, if_true, forall_const, ne_eq, not_true_eq_false, false_implies, and_true]
    by_cases hu : s.ufetch f.sepc
    · simp only [hu, if_true, forall_const, Option.some.injEq, forall_eq']
    · simp only [hu, if_false, false_implies, reduceCtorEq, implies_true]
  · simp only [h12, if_false, false_implies, true_and, ne_eq, not_false_eq_true, forall_const]
    by_cases hk : s.kspace f.stval
    · simp only [hk, not_true_eq_false, false_implies, if_true, reduceCtorEq, implies_true]
    · simp only [hk, not_false_eq_true, forall_const, if_false, Option.some.injEq, forall_eq']

/-- One fault maps at most one page. -/
theorem Inv.fault_spec (h : s.Inv extra) (hf : f.User) (hs : s.fault f = some s') :
    s'.Inv extra ∧ Same s s' ∧ ∀ w, s'.walk w =
      if (s.mapped f).map slot = some (slot w) then pgDesc ((s.mapped f).getD 0) UserReadWriteExecute
      else s.walk w := by
  rw [fault_eq hf] at hs
  cases hm : s.mapped f with
  | none =>
    rw [hm] at hs
    obtain rfl := Option.some.inj hs
    exact ⟨h, .rfl, fun w => rfl⟩
  | some vaddr =>
    rw [hm] at hs
    rcases h.map vaddr UserReadWriteExecute with ⟨-, hn⟩ | ⟨s₁, he, -, h₁, hsame, hwalk, -⟩
    · rw [Option.elim_some, hn] at hs
      cases hs
    · rw [Option.elim_some, he, Option.some.injEq] at hs
      subst hs
      refine ⟨h₁, hsame, fun w => ?_⟩
      rw [hwalk, Option.map_some, Option.getD_some]
      exact if_congr (by rw [Option.some.injEq, eq_comm]) rfl rfl

/-- The bits of an entry decide. -/
theorem user_pgDesc (vaddr bits : Nat) : user (pgDesc vaddr bits) ↔ bits.testBit 4 = true := by
  have hbit : (pgDesc vaddr bits).testBit 4 = bits.testBit 4 := by
    have hpage : pageOf vaddr / 2 ^ 2 = vaddr / pageSize * 2 ^ 10 := by
      unfold pageOf pageSize
      omega
    unfold pgDesc
    rw [Nat.testBit_or, Nat.testBit_or, hpage, Nat.testBit_mul_two_pow,
      show Valid.testBit 4 = false by decide, show decide (10 ≤ 4) = false by decide,
      Bool.false_and, Bool.or_false, Bool.false_or]
  have huser : ∀ e : Nat, e &&& User = if e.testBit 4 then User else 0 := fun e => by
    apply Nat.eq_of_testBit_eq
    intro i
    rw [Nat.testBit_and, show User = 2 ^ 4 from rfl, Nat.testBit_two_pow]
    by_cases hi : 4 = i
    · subst hi
      cases e.testBit 4 <;> decide
    · rw [decide_eq_false hi, Bool.and_false]
      split
      · rw [Nat.testBit_two_pow, decide_eq_false hi]
      · exact (Nat.zero_testBit i).symm
  unfold user
  rw [huser, hbit]
  cases bits.testBit 4 <;> decide

/-! ## What `MMUInit` leaves -/

/-- The page of the slot `q` is one of a section. -/
def Meets (r : Nat × Nat × Nat) (q : Nat) : Prop := r.1 / pageSize ≤ q ∧ q ≤ r.2.1 / pageSize

instance (r : Nat × Nat × Nat) (q : Nat) : Decidable (Meets r q) :=
  inferInstanceAs (Decidable (_ ∧ _))

/-- The entry of a page after a section is mapped. -/
def entryIn (q e : Nat) (r : Nat × Nat × Nat) : Nat :=
  if Meets r q then pgDesc (q * pageSize) r.2.2 else e

theorem Inv.pmapAll_walk {l : List (Nat × Nat × Nat)} (h : s.Inv extra) (hfit : Fits l)
    (hs : s.pmapAll l = some s') (w : Nat) :
    s'.walk w = l.foldl (entryIn (slot w)) (s.walk w) := by
  induction l generalizing s with
  | nil =>
    obtain rfl := Option.some.inj hs
    rfl
  | cons r l ih =>
    obtain ⟨hle, hlt⟩ := hfit r (.head _)
    unfold pmapAll at hs
    rw [List.foldlM_cons] at hs
    obtain ⟨s₁, h₁, hs⟩ := Option.bind_eq_some_iff.1 hs
    rcases h.pmap hle hlt with ⟨-, -, -, -, -, hn⟩ | ⟨s₂, he, hinv, -, hwalk⟩
    · rw [hn] at h₁
      cases h₁
    · rw [he, Option.some.injEq] at h₁
      subst h₁
      rw [ih hinv (fun r' hr => hfit r' (.tail _ hr)) hs, hwalk]
      rfl

/-- Sections without the bit take it from every page of theirs. -/
theorem user_foldl {l : List (Nat × Nat × Nat)} {q e : Nat}
    (hl : ∀ r ∈ l, r.2.2.testBit 4 = false) (hu : user (l.foldl (entryIn q) e)) :
    user e ∧ ∀ r ∈ l, ¬ Meets r q := by
  induction l generalizing e with
  | nil => exact ⟨hu, fun r hr => absurd hr List.not_mem_nil⟩
  | cons r l ih =>
    obtain ⟨he, hrest⟩ := ih (fun r' hr => hl r' (.tail _ hr)) hu
    unfold entryIn at he
    by_cases hm : Meets r q
    · rw [if_pos hm, user_pgDesc, hl r (.head _)] at he
      cases he
    · rw [if_neg hm] at he
      refine ⟨he, fun r' hr => ?_⟩
      cases hr with
      | head => exact hm
      | tail _ hr => exact hrest r' hr

/-- The user's sections share no page with the arrays in front of the region, and all addresses
are below `2 ^ 39`. -/
structure Separate (ld : Linker) (space : Nat) (b : Buddy) : Prop where
  fits : Fits (initRanges ld b)
  low : b.kernelEndAddr ≤ 2 ^ 39
  code : ∀ x, space ≤ x → x < b.kernelStartAddr →
    ¬ Meets (ld.USER_CODE_START, ld.USER_CODE_END, UserReadWriteExecute) (slot x)
  data : ∀ x, space ≤ x → x < b.kernelStartAddr →
    ¬ Meets (ld.UDATA_BEGIN, ld.UDATA_END, UserReadWriteExecute) (slot x)

/-- In such a layout `MMUInit` opens no guarded page to user code. -/
theorem MMUInit_guarded (hb : Buddy.Inv s.buddy live)
    (hstart : blockSize ∣ s.buddy.kernelStartAddr) (hsep : Separate ld space s.buddy)
    (h : s.MMUInit ld = some s') :
    ∀ w, Guarded ld space s.buddy (slot w) → ¬ user (s'.walk w) := by
  intro w hg hu
  rw [MMUInit_eq hb hstart] at h
  obtain ⟨s₁, h₁, h⟩ := Option.bind_eq_some_iff.1 h
  obtain ⟨hinv, -, hzero⟩ := allocRoot_inv hb hstart h₁
  rw [hinv.pmapAll_walk hsep.fits h, hzero] at hu
  change user (List.foldl (entryIn (slot w)) (entryIn (slot w) (entryIn (slot w) 0 _) _)
    ((initRanges ld s.buddy).drop 2)) at hu
  have hrwx : ReadWriteExecute.testBit 4 = false := by decide
  obtain ⟨hu, hnot⟩ := user_foldl (fun r hr => by
    simp only [initRanges, List.drop_succ_cons, List.drop_zero, List.mem_cons, List.not_mem_nil,
      or_false] at hr
    rcases hr with rfl | rfl | rfl | rfl | rfl | rfl <;> exact hrwx) hu
  have hmeets : ∀ {a c x : Nat}, a ≤ x → x ≤ c → c < 2 ^ 39 → ∀ bits, Meets (a, c, bits) (slot x) := by
    intro a c x hax hxc hc bits
    change a / 4096 ≤ x / 4096 % 2 ^ 27 ∧ x / 4096 % 2 ^ 27 ≤ c / 4096
    omega
  have hfit := hsep.fits
  obtain ⟨⟨x, hx, hslot⟩, -⟩ := hg
  rw [← hslot] at hu hnot
  rcases hx with ⟨hx, hx'⟩ | ⟨hx, hx'⟩ | ⟨hx, hx'⟩
  · apply hnot (ld.KCODE_BEGIN, ld.KCODE_END, ReadWriteExecute) (.tail _ (.head _))
    exact hmeets hx hx'.le (hfit _ (.tail _ (.tail _ (.tail _ (.head _))))).2 _
  · apply hnot (ld.KDATA_BEGIN, ld.KDATA_END, ReadWriteExecute) (.tail _ (.tail _ (.head _)))
    exact hmeets hx hx'.le (hfit _ (.tail _ (.tail _ (.tail _ (.tail _ (.head _)))))).2 _
  · by_cases hxs : x < s.buddy.kernelStartAddr
    · unfold entryIn at hu
      rw [if_neg (hsep.code x hx hxs), if_neg (hsep.data x hx hxs)] at hu
      exact hu rfl
    · have hend : sub64 s.buddy.kernelEndAddr 1 = s.buddy.kernelEndAddr - 1 :=
        sub64_of_le (by omega) (by have := hsep.low; omega)
      refine hnot (s.buddy.kernelStartAddr, sub64 s.buddy.kernelEndAddr 1, ReadWriteExecute)
        (.head _) ?_
      rw [hend]
      exact hmeets (by omega) (by omega) (by have := hsep.low; omega) _

/-! ## Faults -/

/-- A fault leaves the guarded pages alone iff it spares them. -/
theorem Inv.fault_iff (h : s.Inv extra) (hf : f.User) (hs : s.fault f = some s')
    (hkernel : ∀ w, Guarded ld space s.buddy (slot w) → ¬ user (s.walk w)) :
    (∀ w, Guarded ld space s.buddy (slot w) → s'.walk w = s.walk w) ↔ f.Spares s ld space := by
  obtain ⟨-, -, hwalk⟩ := h.fault_spec hf hs
  rw [spares_iff]
  constructor
  · intro hkeep vaddr hm hg
    have hw := hwalk vaddr
    rw [hm, Option.map_some, if_pos rfl, Option.getD_some] at hw
    apply hkernel vaddr hg
    rw [← hkeep vaddr hg, hw]
    exact (user_pgDesc vaddr _).2 rfl
  · intro hspare w hg
    rw [hwalk, if_neg fun hc => ?_]
    obtain ⟨vaddr, hm, hslot⟩ := Option.map_eq_some_iff.1 hc
    exact hspare vaddr hm (hslot ▸ hg)

theorem guarded_congr {b b' : Buddy} (hg : Buddy.SameGeom b b') (q : Nat) :
    Guarded ld space b' q ↔ Guarded ld space b q := by
  unfold Guarded KernelAddr
  rw [hg.finish]

/-- The faults of user code that spare the guarded pages. -/
def FaultOk (ld : Linker) (space : Nat) (s : MMU) (f : Trap) : Prop := f.User ∧ f.Spares s ld space

/-- Faults that spare the guarded pages do not change them. -/
theorem Inv.faults_spec {faults : List Trap} (h : s.Inv extra)
    (hrun : Run (FaultOk ld space) fault s faults t) :
    t.Inv extra ∧ Same s t ∧
      ∀ w, Guarded ld space s.buddy (slot w) → t.walk w = s.walk w := by
  apply hrun.inv (fun t => t.Inv extra ∧ Same s t ∧
    ∀ w, Guarded ld space s.buddy (slot w) → t.walk w = s.walk w) _ ⟨h, .rfl, fun _ _ => rfl⟩
  intro s₁ f s₂ h₁ hok hs
  obtain ⟨hinv, hsame, hkeep⟩ := h₁
  obtain ⟨hinv', hsame', hwalk⟩ := hinv.fault_spec hok.1 hs
  refine ⟨hinv', hsame.trans hsame', fun w hg => ?_⟩
  rw [hwalk, if_neg fun hc => ?_, hkeep w hg]
  obtain ⟨vaddr, hm, hslot⟩ := Option.map_eq_some_iff.1 hc
  apply spares_iff.1 hok.2 vaddr hm
  rw [hslot]
  exact (guarded_congr hsame.geom _).2 hg

/-- **Faults of user code.** For every layout and heap, in every run of faults after `MMUInit` that
spare the guarded pages, the entries of the guarded pages are those of `MMUInit`. If none of these is
open to user code, as in every layout that keeps the user's sections `Separate`, then the next fault
leaves them alone iff it spares them. -/
theorem faults_spare_kernel {heap heap' : HeapBounds} {blockNum : Int} {b₀ : Buddy}
    {before : List Buddy.Call} {faults : List Trap}
    (hinit : Buddy.buddyInit heap 12 space blockNum = some (b₀, heap'))
    (hbefore : Run Buddy.Client.Ok Buddy.Client.step ⟨b₀, []⟩ before ⟨s.buddy, live⟩)
    (hmmu : s.MMUInit ld = some s₀) (hrun : Run (FaultOk ld space) fault s₀ faults t) :
    (∀ w, Guarded ld space b₀ (slot w) → t.walk w = s₀.walk w) ∧
    (Separate ld space b₀ → ∀ w, Guarded ld space b₀ (slot w) → ¬ user (t.walk w)) ∧
    ((∀ w, Guarded ld space b₀ (slot w) → ¬ user (s₀.walk w)) → ∀ f t', f.User →
      t.fault f = some t' → ((∀ w, Guarded ld space b₀ (slot w) → t'.walk w = t.walk w) ↔ f.Spares t ld space)) := by
  obtain ⟨hb, hstart⟩ : Buddy.Inv s.buddy live ∧ blockSize ∣ s.buddy.kernelStartAddr :=
    Buddy.InUse.inv ⟨_, _, _, _, b₀, before, hinit, hbefore⟩
  obtain ⟨hg, -⟩ := Buddy.Client.run_inv (.init hinit) hbefore
  obtain ⟨h₀, hg₀, -⟩ := MMUInit_inv hb hstart hmmu
  obtain ⟨h, hsame, hkeep⟩ := h₀.faults_spec hrun
  have hguard₀ : ∀ q, Guarded ld space s₀.buddy q ↔ Guarded ld space b₀ q :=
    fun q => (guarded_congr hg₀ q).trans (guarded_congr hg q)
  have hguard : ∀ q, Guarded ld space t.buddy q ↔ Guarded ld space b₀ q :=
    fun q => (guarded_congr hsame.geom q).trans (hguard₀ q)
  refine ⟨fun w hw => hkeep w ((hguard₀ _).2 hw), fun hsep w hw => ?_,
    fun hkernel f t' hf ht => ?_⟩
  · rw [hkeep w ((hguard₀ _).2 hw)]
    have hsep' : Separate ld space s.buddy := by
      obtain ⟨h1, h2, h3, h4⟩ := hsep
      refine ⟨?_, hg.finish ▸ h2, ?_, ?_⟩
      · unfold initRanges at h1 ⊢
        rwa [hg.start, hg.finish]
      · rwa [hg.start]
      · rwa [hg.start]
    exact MMUInit_guarded hb hstart hsep' hmmu w ((guarded_congr hg _).2 hw)
  have hiff : _ ↔ f.Spares t ld space := h.fault_iff hf ht fun w hw => by
    rw [hkeep w ((hguard₀ _).2 ((hguard _).1 hw))]
    exact hkernel w ((hguard _).1 hw)
  simpa only [hguard] using hiff

open PageClient (linker128)

/-- `MMUInit` on the small kernel returns, with memory to spare. -/
theorem init128 : ∃ b₀ heap' s₀,
    Buddy.buddyInit Buddy.heap128 12 Buddy.heap128.startAddr 4096 = some (b₀, heap') ∧
    (unset b₀).MMUInit linker128 = some s₀ ∧ s₀.buddy.Supplies 2 ∧
    Fits (initRanges linker128 b₀) ∧
    b₀.kernelStartAddr = 0x80011000 ∧ b₀.kernelEndAddr = 0x81011000 := by
  have h : ((Buddy.buddyInit Buddy.heap128 12 Buddy.heap128.startAddr 4096).bind fun r =>
      if Fits (initRanges linker128 r.1) ∧
        r.1.Supplies (1 + (pagesFor (initRanges linker128 r.1) + 2)) ∧
        r.1.kernelStartAddr = 0x80011000 ∧ r.1.kernelEndAddr = 0x81011000
      then some () else none) = some () := by
    decide +kernel
  obtain ⟨⟨b₀, heap'⟩, hb, h⟩ := Option.bind_eq_some_iff.1 h
  obtain ⟨⟨hfit, hsup, hstart, hend⟩, -⟩ := Option.ite_none_right_eq_some.1 h
  obtain ⟨s₀, he, hs⟩ : ∃ s₀, (unset b₀).MMUInit linker128 = some s₀ ∧ s₀.buddy.Supplies 2 :=
    MMUInit_returns (.init hb) (Buddy.buddyInit_start hb) hfit hsup
  exact ⟨b₀, heap', s₀, hb, he, hs, hfit, hstart, hend⟩

/-- User code writes to the heap behind the region. -/
theorem faults_spare_kernel_heap128 : ∃ (b₀ : Buddy) (heap' : HeapBounds) (s₀ t : MMU),
    Buddy.buddyInit Buddy.heap128 12 Buddy.heap128.startAddr 4096 = some (b₀, heap') ∧
    (unset b₀).MMUInit linker128 = some s₀ ∧
    Run (FaultOk linker128 Buddy.heap128.startAddr) fault s₀ [⟨15, 0, 0x84000000, false⟩] t ∧
    user (t.walk 0x84000000) ∧
    ∀ w, Guarded linker128 Buddy.heap128.startAddr b₀ (slot w) → t.walk w = s₀.walk w := by
  obtain ⟨b₀, heap', s₀, hb, he, hsup, -, hstart, hend⟩ := init128
  obtain ⟨h₀, hg, hsec⟩ := MMUInit_inv (.init hb) (Buddy.buddyInit_start hb) he
  have hk : ¬ s₀.kspace 0x84000000 := by
    intro hk
    rcases hk with ⟨-, hk⟩ | ⟨-, hk⟩
    · rw [hg.finish, unset, hend] at hk
      exact absurd hk (by decide)
    · rw [hsec] at hk
      exact absurd (show 0x84000000 < 0x8000a300 from hk) (by decide)
  obtain hn | ⟨t, ht, -, -, -, hwalk, -⟩ := h₀.map 0x84000000 UserReadWriteExecute
  · exact absurd (hsup.mono (missing_le _ _)) hn.1
  · have hrun : Run (FaultOk linker128 Buddy.heap128.startAddr) fault s₀
        [⟨15, 0, 0x84000000, false⟩] t := by
      refine .cons ⟨⟨rfl, .inr (.inr rfl)⟩, nofun, fun _ _ hguard => ?_⟩ ?_ .nil
      · obtain ⟨⟨x, hx, hs⟩, -⟩ := hguard
        have hs : x / 4096 % 2 ^ 27 = 0x84000000 / 4096 % 2 ^ 27 := hs
        rcases hx with ⟨-, hx⟩ | ⟨-, hx⟩ | ⟨-, hx⟩
        · have hx : x < 0x80006200 := hx
          omega
        · have hx : x < 0x8000a300 := hx
          omega
        · rw [hg.finish, unset, hend] at hx
          omega
      · unfold fault trapHandler
        simp only [hk, ht, if_false, Bool.false_eq_true, Nat.reduceEqDiff, or_true, if_true,
          Option.map_some]
    refine ⟨b₀, heap', s₀, t, hb, he, hrun, ?_, (faults_spare_kernel hb .nil he hrun).1⟩
    rw [hwalk, if_pos rfl]
    exact (user_pgDesc _ _).2 rfl

/-- A load from the kernel's code opens its page to user code. -/
theorem faults_spare_kernel_fails : ∃ (b₀ : Buddy) (heap' : HeapBounds) (s₀ t : MMU),
    Buddy.buddyInit Buddy.heap128 12 Buddy.heap128.startAddr 4096 = some (b₀, heap') ∧
    (unset b₀).MMUInit linker128 = some s₀ ∧
    Run (fun _ f => Trap.User f) fault s₀ [⟨13, 0, 0x80003000, false⟩] t ∧
    Guarded linker128 Buddy.heap128.startAddr b₀ (slot 0x80003000) ∧
    ¬ user (s₀.walk 0x80003000) ∧ user (t.walk 0x80003000) := by
  obtain ⟨b₀, heap', s₀, hb, he, hsup, hfit, hstart, hend⟩ := init128
  obtain ⟨h₀, hg, hsec⟩ := MMUInit_inv (.init hb) (Buddy.buddyInit_start hb) he
  have hguard : Guarded linker128 Buddy.heap128.startAddr b₀ (slot 0x80003000) := by
    refine ⟨⟨0x80003000, .inl (by decide), rfl⟩, fun hw => ?_⟩
    obtain ⟨x, hx, hs⟩ := hw
    have h1 : 0x80001000 ≤ x ∧ x < 0x80001400 := hx
    have h2 : x / 4096 % 2 ^ 27 = 0x80003000 / 4096 % 2 ^ 27 := hs
    omega
  have hsep : Separate linker128 Buddy.heap128.startAddr b₀ := by
    refine ⟨hfit, by rw [hend]; decide, fun x hx hx' hm => ?_, fun x hx hx' hm => ?_⟩
    all_goals
      rw [hstart] at hx'
      have hx : 0x80010000 ≤ x := hx
    · have hm : 0x8000b000 / 4096 ≤ x / 4096 % 2 ^ 27 ∧ x / 4096 % 2 ^ 27 ≤ 0x8000c100 / 4096 := hm
      omega
    · have hm : 0x8000d000 / 4096 ≤ x / 4096 % 2 ^ 27 ∧ x / 4096 % 2 ^ 27 ≤ 0x8000e080 / 4096 := hm
      omega
  have hk : ¬ s₀.kspace 0x80003000 := by
    intro hk
    rcases hk with ⟨hk, -⟩ | ⟨hk, -⟩
    · rw [hg.start, unset, hstart] at hk
      exact absurd hk (by decide)
    · rw [hsec] at hk
      exact absurd (show 0x80003000 ≥ 0x80007000 from hk) (by decide)
  obtain hn | ⟨t, ht, -, -, -, hwalk, -⟩ := h₀.map 0x80003000 UserReadWriteExecute
  · exact absurd (hsup.mono (missing_le _ _)) hn.1
  · refine ⟨b₀, heap', s₀, t, hb, he, .cons ⟨rfl, .inr (.inl rfl)⟩ ?_ .nil, hguard,
      MMUInit_guarded (.init hb) (Buddy.buddyInit_start hb) hsep he _ hguard, ?_⟩
    · unfold fault trapHandler
      simp only [hk, ht, if_false, Bool.false_eq_true, Nat.reduceEqDiff, true_or, if_true,
        Option.map_some]
    · rw [hwalk, if_pos rfl]
      exact (user_pgDesc _ _).2 rfl

end MMU

end SlabKernel
