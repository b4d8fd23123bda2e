import Mathlib.Data.List.Basic
import Mathlib.Data.List.Chain

/-!
# Tilings of an interval by blocks

`Tiling hdr lo l hi`: the blocks of `l`, each a header of `hdr` bytes and its payload, follow one
another from `lo` to `hi`. `Coalesced l`: no two free blocks follow one another.

* `tiling_append`: a tiling is cut at any block, so a block can be replaced by blocks of the same
  extent (`cut_tiling`, `merge_tiling`).
* `Tiling.apart`: the blocks of a tiling follow one another without overlap.
* `merge_iff`: two free blocks touch exactly if no block lies between them.
-/

namespace Tiles

/-- A block: its address, the size of its payload, and whether it is free. -/
structure Tile where
  addr : Nat
  size : Nat
  free : Bool

variable (hdr : Nat)

/-- The end of the block. -/
def Tile.stop (b : Tile) : Nat := b.addr + hdr + b.size

/-- The blocks of `l` fill the space from `lo` to `hi`. -/
def Tiling : Nat → List Tile → Nat → Prop
  | lo, [], hi => lo = hi
  | lo, b :: l, hi => b.addr = lo ∧ Tiling (b.stop hdr) l hi

/-- No two free blocks follow one another. -/
def Coalesced (l : List Tile) : Prop := l.IsChain fun a b => ¬ (a.free = true ∧ b.free = true)

/-- The addresses of the free blocks. -/
def frees (l : List Tile) : List Nat := (l.filter (·.free)).map Tile.addr

variable {hdr} {lo hi : Nat} {l l₁ l₂ : List Tile} {a b c : Tile}

@[simp] theorem tiling_nil : Tiling hdr lo [] hi ↔ lo = hi := Iff.rfl

@[simp] theorem tiling_cons : Tiling hdr lo (b :: l) hi ↔ b.addr = lo ∧ Tiling hdr (b.stop hdr) l hi :=
  Iff.rfl

theorem tiling_append :
    Tiling hdr lo (l₁ ++ l₂) hi ↔ ∃ mid, Tiling hdr lo l₁ mid ∧ Tiling hdr mid l₂ hi := by
  induction l₁ generalizing lo with
  | nil => simp
  | cons b l ih => simp [ih, and_assoc]

/-- The live blocks. -/
def lives (l : List Tile) : List Tile := l.filter (!·.free)

@[simp] theorem lives_append : lives (l₁ ++ l₂) = lives l₁ ++ lives l₂ := by
  simp [lives]

theorem lives_cons_free (hb : b.free = true) : lives (b :: l) = lives l := by
  simp [lives, hb]

theorem lives_cons_live (hb : b.free = false) : lives (b :: l) = b :: lives l := by
  simp [lives, hb]

theorem mem_lives : b ∈ lives l ↔ b ∈ l ∧ b.free = false := by
  simp [lives]

@[simp] theorem frees_append : frees (l₁ ++ l₂) = frees l₁ ++ frees l₂ := by
  simp [frees]

@[simp] theorem frees_nil : frees [] = [] := rfl

theorem frees_cons_free (hb : b.free = true) : frees (b :: l) = b.addr :: frees l := by
  simp [frees, hb]

theorem frees_cons_live (hb : b.free = false) : frees (b :: l) = frees l := by
  simp [frees, hb]

theorem mem_frees {x : Nat} : x ∈ frees l ↔ ∃ b ∈ l, b.free = true ∧ b.addr = x := by
  simp [frees, and_assoc]

/-- The first free block of a list. -/
theorem frees_eq_cons {x : Nat} {xs : List Nat} (h : frees l = x :: xs) : ∃ l₁ c l₂,
    l = l₁ ++ c :: l₂ ∧ c.free = true ∧ c.addr = x ∧ frees l₁ = [] ∧ frees l₂ = xs := by
  induction l with
  | nil => cases h
  | cons b l ih =>
    cases hb : b.free with
    | true =>
      rw [frees_cons_free hb] at h
      obtain ⟨rfl, rfl⟩ := List.cons.inj h
      exact ⟨[], b, l, rfl, hb, rfl, rfl, rfl⟩
    | false =>
      rw [frees_cons_live hb] at h
      obtain ⟨l₁, c, l₂, rfl, hc, hx, h1, h2⟩ := ih h
      exact ⟨b :: l₁, c, l₂, rfl, hc, hx, by rw [frees_cons_live hb, h1], h2⟩

/-- The last free block of a list. -/
theorem frees_getLast {x : Nat} (h : (frees l).getLast? = some x) : ∃ l₁ c l₂,
    l = l₁ ++ c :: l₂ ∧ c.free = true ∧ c.addr = x ∧ frees l₂ = [] := by
  induction l with
  | nil => cases h
  | cons b l ih =>
    cases hl : frees l with
    | nil =>
      cases hb : b.free with
      | true =>
        rw [frees_cons_free hb, hl] at h
        exact ⟨[], b, l, rfl, hb, Option.some.inj h, hl⟩
      | false =>
        rw [frees_cons_live hb, hl] at h
        cases h
    | cons y ys =>
      have h' : (frees l).getLast? = some x := by
        cases hb : b.free with
        | true =>
          rw [frees_cons_free hb, hl, List.getLast?_cons_cons] at h
          rw [hl, h]
        | false => rwa [frees_cons_live hb] at h
      obtain ⟨l₁, c, l₂, rfl, hc, hx, h2⟩ := ih h'
      exact ⟨b :: l₁, c, l₂, rfl, hc, hx, h2⟩

/-- A list of blocks is cut where its free blocks are. -/
theorem frees_eq_append {x : Nat} {xs ys : List Nat} (h : frees l = xs ++ x :: ys) : ∃ l₁ c l₂,
    l = l₁ ++ c :: l₂ ∧ c.free = true ∧ c.addr = x ∧ frees l₁ = xs ∧ frees l₂ = ys := by
  induction xs generalizing l with
  | nil =>
    obtain ⟨l₁, c, l₂, rfl, hc, hx, h1, h2⟩ := frees_eq_cons h
    exact ⟨l₁, c, l₂, rfl, hc, hx, h1, h2⟩
  | cons y xs ih =>
    obtain ⟨l₃, d, l₄, rfl, hd, hy, h3, h4⟩ := frees_eq_cons h
    obtain ⟨l₁, c, l₂, rfl, hc, hx, h1, h2⟩ := ih h4
    refine ⟨l₃ ++ d :: l₁, c, l₂, by simp, hc, hx, ?_, h2⟩
    rw [frees_append, frees_cons_free hd, h3, h1, hy, List.nil_append]

/-- A free block stands in any order of the free blocks for itself. -/
theorem frees_perm_cons {xs ys : List Nat} (hb : b.free = true) :
    (xs ++ b.addr :: ys).Perm (frees (l₁ ++ b :: l₂)) ↔ (xs ++ ys).Perm (frees (l₁ ++ l₂)) := by
  rw [frees_append, frees_cons_free hb, frees_append]
  constructor
  · intro h
    have hcons := (List.perm_middle.symm.trans h).trans List.perm_middle
    exact hcons.cons_inv
  · intro h
    exact (List.perm_middle.trans (h.cons b.addr)).trans List.perm_middle.symm

theorem live_of_frees (h : frees l = []) (hb : b ∈ l) : b.free = false := by
  cases hf : b.free with
  | true =>
    have : b.addr ∈ frees l := mem_frees.2 ⟨b, hb, hf, rfl⟩
    rw [h] at this
    cases this
  | false => rfl

/-! ## Order -/

theorem Tiling.le (h : Tiling hdr lo l hi) : lo ≤ hi := by
  induction l generalizing lo with
  | nil => exact Nat.le_of_eq h
  | cons b l ih =>
    have := ih h.2
    have hb := h.1
    unfold Tile.stop at this
    omega

theorem Tiling.bounds (h : Tiling hdr lo l hi) (hb : b ∈ l) : lo ≤ b.addr ∧ b.stop hdr ≤ hi := by
  induction l generalizing lo with
  | nil => cases hb
  | cons c l ih =>
    obtain ⟨hc, hl⟩ := h
    rcases List.mem_cons.1 hb with rfl | hb
    · exact ⟨Nat.le_of_eq hc.symm, hl.le⟩
    · obtain ⟨h1, h2⟩ := ih hl hb
      unfold Tile.stop at h1
      exact ⟨by omega, h2⟩

/-- The blocks follow one another. -/
theorem Tiling.apart (h : Tiling hdr lo l hi) : l.Pairwise fun a b => a.stop hdr ≤ b.addr := by
  induction l generalizing lo with
  | nil => exact .nil
  | cons b l ih => exact .cons (fun c hc => (h.2.bounds hc).1) (ih h.2)

/-- The blocks in front of `b` end before it, those behind start after it. -/
theorem Tiling.around (h : Tiling hdr lo (l₁ ++ b :: l₂) hi) :
    (∀ a ∈ l₁, a.stop hdr ≤ b.addr) ∧ ∀ c ∈ l₂, b.stop hdr ≤ c.addr := by
  have hap := h.apart
  rw [List.pairwise_append, List.pairwise_cons] at hap
  exact ⟨fun a ha => hap.2.2 a ha b (.head _), hap.2.1.1⟩

/-- Two blocks share no byte. -/
theorem Tiling.separate (h : Tiling hdr lo l hi) (ha : a ∈ l) (hb : b ∈ l) (hne : a ≠ b) :
    a.stop hdr ≤ b.addr ∨ b.stop hdr ≤ a.addr := by
  induction l generalizing lo with
  | nil => cases ha
  | cons c l ih =>
    obtain ⟨-, hl⟩ := h
    cases ha with
    | head =>
      cases hb with
      | head => exact absurd rfl hne
      | tail _ hb => exact .inl (hl.bounds hb).1
    | tail _ ha =>
      cases hb with
      | head => exact .inr (hl.bounds ha).1
      | tail _ hb => exact ih hl ha hb

theorem Tiling.frees_sorted (h : Tiling hdr lo l hi) (hpos : 0 < hdr) :
    (frees l).Pairwise (· < ·) := by
  refine List.Pairwise.map _ (fun a b (hab : a.stop hdr ≤ b.addr) => ?_) (h.apart.filter _)
  unfold Tile.stop at hab
  omega

/-- A block is determined by its address. -/
theorem Tiling.inj (h : Tiling hdr lo l hi) (hpos : 0 < hdr) (ha : a ∈ l) (hb : b ∈ l)
    (hab : a.addr = b.addr) : a = b := by
  induction l generalizing lo with
  | nil => cases ha
  | cons c l ih =>
    have hc : ∀ d ∈ l, c.addr ≠ d.addr := fun d hd hcd => by
      have := (h.2.bounds hd).1
      unfold Tile.stop at this
      omega
    rcases List.mem_cons.1 ha with rfl | ha'
    · rcases List.mem_cons.1 hb with rfl | hb'
      · rfl
      · exact absurd hab (hc b hb')
    · rcases List.mem_cons.1 hb with rfl | hb'
      · exact absurd hab.symm (hc a ha')
      · exact ih h.2 ha' hb'

theorem Tiling.length_le (h : Tiling hdr lo l hi) (hpos : 0 < hdr) : l.length ≤ hi - lo := by
  induction l generalizing lo with
  | nil => exact Nat.zero_le _
  | cons b l ih =>
    have h1 := ih h.2
    have h2 := h.2.le
    have h3 := h.1
    rw [List.length_cons]
    unfold Tile.stop at h1 h2
    omega

/-! ## Cutting and merging -/

/-- A free block gives a live block of size `s`, and the rest if it is larger than a header. -/
def Tile.cut (hdr s : Nat) (b : Tile) : List Tile :=
  if b.size - s > hdr then
    [⟨b.addr, s, false⟩, ⟨b.addr + (hdr + s), b.size - s - hdr, true⟩]
  else [{ b with free := false }]

/-- The block that two blocks following one another make. -/
def Tile.merge (hdr : Nat) (b c : Tile) : Tile := { b with size := b.size + (c.size + hdr) }

theorem cut_tiling (s : Nat) (h : Tiling hdr lo (l₁ ++ b :: l₂) hi) (hs : s ≤ b.size) :
    Tiling hdr lo (l₁ ++ (b.cut hdr s ++ l₂)) hi := by
  obtain ⟨mid, h1, rfl, h2⟩ := tiling_append.1 h
  refine tiling_append.2 ⟨_, h1, ?_⟩
  unfold Tile.cut
  split
  · refine ⟨rfl, ?_, ?_⟩
    · simp only [Tile.stop, Nat.add_assoc]
    · have : (⟨b.addr + (hdr + s), b.size - s - hdr, true⟩ : Tile).stop hdr = b.stop hdr := by
        simp only [Tile.stop]
        omega
      rw [this]
      exact h2
  · exact ⟨rfl, h2⟩

theorem merge_tiling (h : Tiling hdr lo (l₁ ++ b :: c :: l₂) hi) :
    Tiling hdr lo (l₁ ++ b.merge hdr c :: l₂) hi := by
  obtain ⟨mid, h1, rfl, h2, h3⟩ := tiling_append.1 h
  refine tiling_append.2 ⟨_, h1, rfl, ?_⟩
  have : (b.merge hdr c).stop hdr = c.stop hdr := by
    simp only [Tile.stop, Tile.merge] at h2 ⊢
    omega
  rwa [this]

theorem set_tiling (f : Bool) (h : Tiling hdr lo (l₁ ++ b :: l₂) hi) :
    Tiling hdr lo (l₁ ++ { b with free := f } :: l₂) hi := by
  obtain ⟨mid, h1, h2, h3⟩ := tiling_append.1 h
  exact tiling_append.2 ⟨_, h1, h2, h3⟩

/-- Two free blocks touch exactly if no block lies between them. -/
theorem stop_eq_iff (hpos : 0 < hdr) (h : Tiling hdr lo (l₁ ++ b :: (l ++ c :: l₂)) hi) :
    b.stop hdr = c.addr ↔ l = [] := by
  obtain ⟨mid, -, -, h⟩ := tiling_append.1 h
  cases l with
  | nil => exact ⟨fun _ => rfl, fun _ => h.1.symm⟩
  | cons d l =>
    obtain ⟨hd, h⟩ := h
    have := (h.bounds (b := c) (by simp)).1
    unfold Tile.stop at this hd ⊢
    refine ⟨fun he => ?_, fun he => by cases he⟩
    omega

/-- Two blocks that touch follow one another. -/
theorem Tiling.adjacent (h : Tiling hdr lo l hi) (hpos : 0 < hdr) (hb : b ∈ l) (hc : c ∈ l)
    (he : b.stop hdr = c.addr) : ∃ l₁ l₂, l = l₁ ++ b :: c :: l₂ := by
  obtain ⟨l₁, l₂, rfl⟩ := List.append_of_mem hb
  have hc₂ : c ∈ l₂ := by
    obtain ⟨h1, -⟩ := h.around
    unfold Tile.stop at h1 he
    cases List.mem_append.1 hc with
    | inl hc =>
      have := h1 c hc
      omega
    | inr hc =>
      cases List.mem_cons.1 hc with
      | inl hcb =>
        rw [hcb] at he
        omega
      | inr hc => exact hc
  obtain ⟨l, l₃, rfl⟩ := List.append_of_mem hc₂
  obtain rfl := (stop_eq_iff hpos h).1 he
  exact ⟨l₁, l₃, rfl⟩

/-! ## Coalesced tilings -/

theorem coalesced_append : Coalesced (l₁ ++ l₂) ↔ Coalesced l₁ ∧ Coalesced l₂ ∧
    ∀ a ∈ l₁.getLast?, ∀ b ∈ l₂.head?, ¬ (a.free = true ∧ b.free = true) :=
  List.isChain_append

theorem coalesced_cons : Coalesced (b :: l) ↔
    (∀ c ∈ l.head?, ¬ (b.free = true ∧ c.free = true)) ∧ Coalesced l :=
  List.isChain_cons

/-- What stands around a free block is live. -/
theorem Coalesced.around (h : Coalesced (l₁ ++ b :: l₂)) (hb : b.free = true) :
    (∀ a ∈ l₁.getLast?, a.free = false) ∧ ∀ c ∈ l₂.head?, c.free = false := by
  obtain ⟨-, h2, h3⟩ := coalesced_append.1 h
  refine ⟨fun a ha => ?_, fun c hc => ?_⟩
  · have := h3 a ha b rfl
    simpa [hb] using this
  · have := (coalesced_cons.1 h2).1 c hc
    simpa [hb] using this

/-- The pieces of a free block keep the tiling coalesced. -/
theorem Coalesced.cut {s : Nat} (h : Coalesced (l₁ ++ b :: l₂)) (hb : b.free = true) :
    Coalesced (l₁ ++ (b.cut hdr s ++ l₂)) := by
  obtain ⟨h1, h2, -⟩ := coalesced_append.1 h
  obtain ⟨-, hright⟩ := h.around hb
  obtain ⟨-, h2⟩ := coalesced_cons.1 h2
  unfold Tile.cut
  split
  · refine coalesced_append.2 ⟨h1, ?_, ?_⟩
    · refine coalesced_cons.2 ⟨by simp, coalesced_cons.2 ⟨fun c hc => ?_, h2⟩⟩
      have := hright c hc
      simp [this]
    · simp
  · refine coalesced_append.2 ⟨h1, coalesced_cons.2 ⟨by simp, h2⟩, by simp⟩

/-- A free block between live ones. -/
theorem coalesced_insert (h₁ : Coalesced l₁) (h₂ : Coalesced l₂)
    (hl₁ : ∀ a ∈ l₁.getLast?, a.free = false) (hl₂ : ∀ c ∈ l₂.head?, c.free = false) :
    Coalesced (l₁ ++ b :: l₂) := by
  refine coalesced_append.2 ⟨h₁, coalesced_cons.2 ⟨fun c hc => ?_, h₂⟩, fun a ha _ _ => ?_⟩
  · simp [hl₂ c hc]
  · simp [hl₁ a ha]

/-- A free block in front of a coalesced tiling reaches to the first live block, or to the end. -/
theorem Coalesced.first_live (h : Coalesced (b :: l)) (hb : b.free = true)
    (ht : Tiling hdr lo l hi) : (lives l).head?.elim hi Tile.addr = lo := by
  cases l with
  | nil => exact ht.symm
  | cons c l =>
    have hc : c.free = false := by
      have := (coalesced_cons.1 h).1 c rfl
      simpa [hb] using this
    rw [lives_cons_live hc]
    exact ht.1

/-- **A coalesced tiling is determined by its live blocks.** -/
theorem Coalesced.unique {l' : List Tile} (h : Coalesced l) (h' : Coalesced l')
    (ht : Tiling hdr lo l hi) (ht' : Tiling hdr lo l' hi) (hpos : 0 < hdr)
    (hl : lives l = lives l') : l = l' := by
  induction l generalizing lo l' with
  | nil =>
    cases l' with
    | nil => rfl
    | cons b' t' =>
      have hlt := ht'.2.le
      have h1 := ht'.1
      have h2 : lo = hi := ht
      unfold Tile.stop at hlt
      omega
  | cons b t ih =>
    cases l' with
    | nil =>
      have hlt := ht.2.le
      have h1 := ht.1
      have h2 : lo = hi := ht'
      unfold Tile.stop at hlt
      omega
    | cons b' t' =>
      obtain ⟨hb, htt⟩ := ht
      obtain ⟨hb', htt'⟩ := ht'
      have ht₂ := (coalesced_cons.1 h).2
      have ht₂' := (coalesced_cons.1 h').2
      -- the first blocks are equal, and so is what is live behind them
      have hfirst : b = b' ∧ lives t = lives t' := by
        cases hf : b.free with
        | false =>
          cases hf' : b'.free with
          | false =>
            rw [lives_cons_live hf, lives_cons_live hf'] at hl
            exact List.cons.inj hl
          | true =>
            have hnext := h'.first_live hf' htt'
            rw [lives_cons_live hf, lives_cons_free hf'] at hl
            rw [← hl] at hnext
            simp only [List.head?_cons, Option.elim, Tile.stop] at hnext
            omega
        | true =>
          cases hf' : b'.free with
          | false =>
            have hnext := h.first_live hf htt
            rw [lives_cons_free hf, lives_cons_live hf'] at hl
            rw [hl] at hnext
            simp only [List.head?_cons, Option.elim, Tile.stop] at hnext
            omega
          | true =>
            rw [lives_cons_free hf, lives_cons_free hf'] at hl
            have hnext := h.first_live hf htt
            rw [hl, h'.first_live hf' htt'] at hnext
            obtain ⟨a, s, f⟩ := b
            obtain ⟨a', s', f'⟩ := b'
            simp only [Tile.stop] at hnext hb hb' hf hf'
            subst hf hf' hb hb'
            refine ⟨?_, hl⟩
            congr 1
            omega
      obtain ⟨rfl, hlives⟩ := hfirst
      rw [ih ht₂ ht₂' htt htt' hlives]

/-- With nothing live, one free block fills the space. -/
theorem Coalesced.single (h : Coalesced l) (ht : Tiling hdr lo l hi) (hlt : lo < hi)
    (hl : lives l = []) : l = [⟨lo, hi - lo - hdr, true⟩] := by
  have hfree : ∀ b ∈ l, b.free = true := fun b hb => by
    cases hf : b.free with
    | true => rfl
    | false =>
      have : b ∈ lives l := mem_lives.2 ⟨hb, hf⟩
      rw [hl] at this
      cases this
  match l with
  | [] =>
    have : lo = hi := ht
    omega
  | [b] =>
    obtain ⟨addr, size, free⟩ := b
    have hb : free = true := hfree _ (.head _)
    obtain ⟨h1, h2⟩ := ht
    simp only [tiling_nil, Tile.stop] at h1 h2
    subst hb h1
    congr 2
    omega
  | b :: c :: l =>
    have := (coalesced_cons.1 h).1 c rfl
    exact absurd ⟨hfree b (by simp), hfree c (by simp)⟩ this

end Tiles
