import Mathlib.Data.Nat.Digits.Lemmas
import SlabKernel.Hw

/-!
# The text of numbers (`kprint.cpp`, `printing.cpp`)

`printInt` and `kprintInt` fill `buf[16]` from the lowest digit on and print it backwards;
`stringToInt` reads a numeral, `getString` a line. What is printed is the numeral of `Nat.digits`,
and it fits in `buf` exactly below a power of the base (`printInt_text`). A number that was printed
is read back from its line (`getString_printInt`). An `int` wraps around.
-/

namespace SlabKernel

/-- The array `digits`, with the zero at its end. -/
def digits : List Char :=
  ['0', '1', '2', '3', '4', '5', '6', '7', '8', '9', 'A', 'B', 'C', 'D', 'E', 'F', '\x00']

def kdigits : List Char := digits

/-- The loop `do … while` of `printInt`: what it stores in `buf`, which has room for `room`
characters more. It may access `buf` or `digits` outside of their bounds, or divide by 0. -/
def digitLoop (digits : List Char) (base : Nat) : Nat → Nat → Option (List Char)
  | 0, _ => none
  | room + 1, x => do
    let c ← if base = 0 then none else digits[x % base]?
    if x / base = 0 then return [c]
    return c :: (← digitLoop digits base room (x / base))

/-- The characters in the order in which they are printed. -/
def intText (digits : List Char) (xx base sgn : Int) : Option (List Char) := do
  let neg := sgn ≠ 0 ∧ xx < 0
  let x := ((if neg then -xx else xx) % 2 ^ 32).toNat
  let buf ← digitLoop digits (base % 2 ^ 32).toNat 16 x
  if neg then
    if buf.length < 16 then return '-' :: buf.reverse else none
  else return buf.reverse

def printInt (xx base sgn : Int) : Option (List Char) := intText digits xx base sgn

def kprintInt (xx base sgn : Int) : Option (List Char) := intText kdigits xx base sgn

/-- The loop of `stringToInt`, on the characters up to the zero. -/
def stringLoop : Int → List Char → Int
  | n, [] => n
  | n, c :: s =>
    if '0' ≤ c ∧ c ≤ '9' then stringLoop (toInt32 (n * 10 + c.toNat - '0'.toNat)) s else n

def stringToInt (s : List Char) : Int := stringLoop 0 s

/-- The loop of `getString`, with room for `room` characters more, and the input that it leaves;
without a character it waits. -/
def getLoop : Nat → List Char → Option (List Char × List Char)
  | 0, input => some ([], input)
  | _ + 1, [] => none
  | room + 1, c :: input =>
    if c.toNat < 1 then some ([], input)
    else if c = '\n' ∨ c = '\r' then some ([c], input)
    else (getLoop room input).map fun r => (c :: r.1, r.2)

/-- `getString`: the characters in `buf` before the zero, and the input that is left. -/
def getString (max : Int) (input : List Char) : Option (List Char × List Char) :=
  getLoop (max - 1).toNat input

/-! ## Printing -/

variable {b x d n k : ℕ} {s : List Char}

/-- The digits that are printed, the lowest first. -/
def numeral (b x : ℕ) : List ℕ := if x = 0 then [0] else b.digits x

/-- The character of a digit. -/
def digitChar (d : ℕ) : Char := digits.getD d '\x00'

theorem numeral_eq (hb : 2 ≤ b) (x : ℕ) :
    numeral b x = if x / b = 0 then [x % b] else x % b :: numeral b (x / b) := by
  unfold numeral
  by_cases hx : x = 0
  · rw [if_pos hx, hx, Nat.zero_div, if_pos rfl, Nat.zero_mod]
  · rw [if_neg hx, Nat.digits_def' hb (Nat.pos_of_ne_zero hx)]
    by_cases hq : x / b = 0
    · rw [if_pos hq, hq, Nat.digits_zero]
    · rw [if_neg hq, if_neg hq]

theorem numeral_lt (hb : 2 ≤ b) (hd : d ∈ numeral b x) : d < b := by
  unfold numeral at hd
  split at hd
  · rw [List.mem_singleton] at hd
    omega
  · exact Nat.digits_lt_base hb hd

theorem ofDigits_numeral (b x : ℕ) : Nat.ofDigits b (numeral b x) = x := by
  unfold numeral
  split
  · next h => rw [h, Nat.ofDigits_singleton]
  · exact Nat.ofDigits_digits b x

theorem length_numeral_le (hb : 2 ≤ b) : (numeral b x).length ≤ n + 1 ↔ x < b ^ (n + 1) := by
  unfold numeral
  split
  · next h =>
    have := Nat.pow_pos (n := n + 1) (by omega : 0 < b)
    simp only [List.length_singleton]
    omega
  · exact Nat.digits_length_le_iff hb x

theorem getElem?_digits (hd : d < 16) : digits[d]? = some (digitChar d) := by
  unfold digitChar
  rw [List.getD_eq_getElem?_getD, List.getElem?_eq_getElem (by change d < 17; omega),
    Option.getD_some]

/-- The loop stores the numeral if there is room for it. -/
theorem digitLoop_eq (hb : 2 ≤ b) (hb' : b ≤ 16) : ∀ room x, digitLoop digits b (room + 1) x =
    if x < b ^ (room + 1) then some ((numeral b x).map digitChar) else none := by
  intro room
  induction room with
  | zero =>
    intro x
    have hd : x % b < 16 := (Nat.mod_lt x (by omega)).trans_le hb'
    rw [digitLoop, if_neg (by omega), getElem?_digits hd, numeral_eq hb, Nat.zero_add, pow_one]
    by_cases hx : x < b
    · rw [if_pos hx, if_pos (Nat.div_eq_of_lt hx)]
      simp only [Option.bind_eq_bind, Option.bind_some, if_pos (Nat.div_eq_of_lt hx)]
      rfl
    · have hq : x / b ≠ 0 := fun h => hx (Nat.lt_of_div_eq_zero (by omega) h)
      simp only [Option.bind_eq_bind, Option.bind_some, if_neg hq, if_neg hx]
      rfl
  | succ room ih =>
    intro x
    have hd : x % b < 16 := (Nat.mod_lt x (by omega)).trans_le hb'
    rw [digitLoop, if_neg (by omega), getElem?_digits hd, numeral_eq hb]
    simp only [Option.bind_eq_bind, Option.bind_some]
    by_cases hq : x / b = 0
    · have hx : x < b := Nat.lt_of_div_eq_zero (by omega) hq
      rw [if_pos hq, if_pos hq, if_pos (hx.trans_le (Nat.le_self_pow (by omega) b))]
      rfl
    · have hpow : x / b < b ^ (room + 1) ↔ x < b ^ (room + 1 + 1) := by
        rw [Nat.div_lt_iff_lt_mul (by omega), ← pow_succ]
      rw [if_neg hq, if_neg hq, ih]
      by_cases hx : x < b ^ (room + 1 + 1)
      · rw [if_pos hx, if_pos (hpow.2 hx)]
        rfl
      · rw [if_neg hx, if_neg (mt hpow.1 hx)]
        rfl

theorem length_text (b x : ℕ) : ((numeral b x).map digitChar).length = (numeral b x).length :=
  List.length_map ..

/-- The number whose digits are printed: with a sign the absolute value, else the unsigned number. -/
def magnitude (xx sgn : Int) : Nat :=
  if sgn ≠ 0 ∧ xx < 0 then xx.natAbs else (xx % 2 ^ 32).toNat

theorem printInt_eq {xx base : Int} (sgn : Int) (hxx : -2 ^ 31 ≤ xx) (hxx' : xx < 2 ^ 31)
    (hb : 2 ≤ base) (hb' : base ≤ 16) :
    printInt xx base sgn =
      if magnitude xx sgn < base.toNat ^ (if sgn ≠ 0 ∧ xx < 0 then 15 else 16) then
        some ((if sgn ≠ 0 ∧ xx < 0 then ['-'] else []) ++
          (numeral base.toNat (magnitude xx sgn)).reverse.map digitChar)
      else none := by
  generalize hmag : magnitude xx sgn = x
  unfold magnitude at hmag
  have hbase : (base % 2 ^ 32).toNat = base.toNat := by rw [Int.emod_eq_of_lt (by omega) (by omega)]
  have hb2 : 2 ≤ base.toNat := by omega
  have hx : ((if sgn ≠ 0 ∧ xx < 0 then -xx else xx) % 2 ^ 32).toNat = x := by
    rw [← hmag]
    split <;> omega
  unfold printInt intText
  simp only [hx, hbase, digitLoop_eq hb2 (by omega : base.toNat ≤ 16) 15]
  by_cases hneg : sgn ≠ 0 ∧ xx < 0
  · rw [if_pos hneg, if_pos hneg]
    by_cases hroom : x < base.toNat ^ 15
    · have h16 : x < base.toNat ^ (15 + 1) :=
        hroom.trans_le (Nat.pow_le_pow_right (by omega) (by omega))
      have hlen := (length_numeral_le hb2 (x := x) (n := 14)).2 hroom
      rw [if_pos hroom, if_pos h16]
      simp only [Option.bind_eq_bind, Option.bind_some]
      rw [if_pos hneg, length_text, if_pos (by omega), List.map_reverse]
      rfl
    · rw [if_neg hroom]
      have hlen := mt (length_numeral_le hb2 (x := x) (n := 14)).1 hroom
      by_cases h16 : x < base.toNat ^ (15 + 1)
      · rw [if_pos h16]
        simp only [Option.bind_eq_bind, Option.bind_some]
        rw [if_pos hneg, length_text, if_neg (by omega)]
      · rw [if_neg h16]
        rfl
  · rw [if_neg hneg, if_neg hneg]
    by_cases h16 : x < base.toNat ^ (15 + 1)
    · rw [if_pos h16, if_pos h16]
      simp only [Option.bind_eq_bind, Option.bind_some]
      rw [if_neg hneg, List.map_reverse]
      rfl
    · rw [if_neg h16, if_neg h16]
      rfl

/-- From base 5 on `buf` is long enough. -/
theorem printInt_some {xx base : Int} (sgn : Int) (hxx : -2 ^ 31 ≤ xx) (hxx' : xx < 2 ^ 31)
    (hb : 5 ≤ base) (hb' : base ≤ 16) : (printInt xx base sgn).isSome := by
  have hsmall : magnitude xx sgn < 5 ^ 15 := by
    unfold magnitude
    split <;> omega
  have hpow : 5 ^ 15 ≤ base.toNat ^ (if sgn ≠ 0 ∧ xx < 0 then 15 else 16) :=
    (Nat.pow_le_pow_left (by omega) 15).trans
      (Nat.pow_le_pow_right (by omega) (by split <;> omega))
  rw [printInt_eq sgn hxx hxx' (by omega) hb', if_pos (hsmall.trans_le hpow)]
  rfl

/-- **What `printInt` and `kprintInt` print**: the sign, if it is asked for, and the numeral. They stay
inside of `buf` exactly when the number is below a power of the base: always, from base 5 on. -/
theorem printInt_text {xx base sgn : Int} (hxx : -2 ^ 31 ≤ xx) (hxx' : xx < 2 ^ 31)
    (hb : 2 ≤ base) (hb' : base ≤ 16) :
    printInt xx base sgn =
      (if magnitude xx sgn < base.toNat ^ (if sgn ≠ 0 ∧ xx < 0 then 15 else 16) then
        some ((if sgn ≠ 0 ∧ xx < 0 then ['-'] else []) ++
          (numeral base.toNat (magnitude xx sgn)).reverse.map digitChar)
      else none) ∧
    kprintInt xx base sgn =
      (if magnitude xx sgn < base.toNat ^ (if sgn ≠ 0 ∧ xx < 0 then 15 else 16) then
        some ((if sgn ≠ 0 ∧ xx < 0 then ['-'] else []) ++
          (numeral base.toNat (magnitude xx sgn)).reverse.map digitChar)
      else none) ∧
    (5 ≤ base → (printInt xx base sgn).isSome ∧ (kprintInt xx base sgn).isSome) := by
  have htext := printInt_eq sgn hxx hxx' hb hb'
  have hsome : 5 ≤ base → (printInt xx base sgn).isSome := fun h5 => printInt_some sgn hxx hxx' h5 hb'
  -- the two tables of digits are the same
  have hsame : kprintInt xx base sgn = printInt xx base sgn := rfl
  rw [hsame]
  exact ⟨htext, htext, fun h5 => ⟨hsome h5, hsome h5⟩⟩

theorem printInt_text_hex : printInt (-255) 16 1 = some ['-', 'F', 'F'] ∧
    kprintInt (-1) 10 0 = some ['4', '2', '9', '4', '9', '6', '7', '2', '9', '5'] :=
  ⟨(printInt_text (by decide) (by decide) (by decide) (by decide)).1.trans (by decide),
    (printInt_text (by decide) (by decide) (by decide) (by decide)).2.1.trans (by decide)⟩

/-! ## Reading -/

theorem digitChar_toNat : ∀ d < 10, (digitChar d).toNat = 48 + d ∧
    '0' ≤ digitChar d ∧ digitChar d ≤ '9' := by
  decide

theorem toInt32_step (n : Int) (d : ℕ) :
    toInt32 (toInt32 n * 10 + d) = toInt32 (n * 10 + d) := by
  unfold toInt32
  rw [← Int.bmod_add_bmod, Int.bmod_mul_bmod, Int.bmod_add_bmod]

/-- `stringToInt` on digits, the highest first. -/
theorem stringLoop_digits {ds : List ℕ} (hds : ∀ d ∈ ds, d < 10) (n : Int) (s : List Char) :
    stringLoop (toInt32 n) (ds.map digitChar ++ s) =
      stringLoop (toInt32 (ds.foldl (fun (n : Int) (d : ℕ) => n * 10 + d) n)) s := by
  induction ds generalizing n with
  | nil => rfl
  | cons d ds ih =>
    obtain ⟨hd, hle, hle'⟩ := digitChar_toNat d (hds d List.mem_cons_self)
    have hstep : toInt32 n * 10 + (digitChar d).toNat - '0'.toNat = toInt32 n * 10 + d := by
      rw [hd, show '0'.toNat = 48 from rfl]
      omega
    rw [List.map_cons, List.cons_append, stringLoop, if_pos ⟨hle, hle'⟩, hstep, toInt32_step,
      List.foldl_cons]
    exact ih (fun c hc => hds c (List.mem_cons_of_mem d hc)) _

theorem foldl_reverse_digits (ds : List ℕ) :
    ds.reverse.foldl (fun (n : Int) (d : ℕ) => n * 10 + d) 0 = (Nat.ofDigits 10 ds : ℕ) := by
  rw [List.foldl_reverse]
  induction ds with
  | nil => rfl
  | cons d ds ih =>
    rw [List.foldr_cons, ih, Nat.ofDigits_cons]
    push_cast
    omega

theorem ofDigits_drop (x j : ℕ) : Nat.ofDigits 10 ((numeral 10 x).drop j) = x / 10 ^ j := by
  have hdiv := Nat.ofDigits_div_pow_eq_ofDigits_drop j (by decide : 0 < 10) (numeral 10 x)
    fun d hd => numeral_lt (by decide) hd
  rw [← hdiv, ofDigits_numeral]

/-- `stringToInt` stops at the first character that is no digit. -/
theorem stringLoop_stop (hs : ∀ c ∈ s.head?, ¬ ('0' ≤ c ∧ c ≤ '9')) (n : Int) :
    stringLoop n s = n := by
  cases s with
  | nil => rfl
  | cons c s => rw [stringLoop, if_neg (hs c rfl)]

/-- The value of a numeral without its `j` lowest digits. -/
theorem stringToInt_numeral (x j : ℕ) (hs : ∀ c ∈ s.head?, ¬ ('0' ≤ c ∧ c ≤ '9')) :
    stringToInt (((numeral 10 x).drop j).reverse.map digitChar ++ s) = toInt32 (x / 10 ^ j : ℕ) := by
  have hlt : ∀ d ∈ ((numeral 10 x).drop j).reverse, d < 10 := fun d hd =>
    numeral_lt (by decide) (List.mem_of_mem_drop (List.mem_reverse.1 hd))
  unfold stringToInt
  rw [show (0 : Int) = toInt32 0 from rfl, stringLoop_digits hlt, foldl_reverse_digits,
    ofDigits_drop, stringLoop_stop hs]

/-- A character at which `getString` ends. -/
def EndsLine (c : Char) : Prop := c.toNat < 1 ∨ c = '\n' ∨ c = '\r'

instance (c : Char) : Decidable (EndsLine c) := inferInstanceAs (Decidable (_ ∨ _))

/-- `getString` takes what does not end a line. -/
theorem getLoop_append {text : List Char} (htext : ∀ c ∈ text, ¬ EndsLine c) :
    ∀ {room}, text.length ≤ room → ∀ s, getLoop room (text ++ s) =
      (getLoop (room - text.length) s).map fun r => (text ++ r.1, r.2) := by
  induction text with
  | nil =>
    intro room _ s
    rw [List.length_nil, Nat.sub_zero, List.nil_append]
    exact (congrFun Option.map_id_fun' _).symm
  | cons c text ih =>
    intro room hroom s
    obtain ⟨room, rfl⟩ : ∃ n, room = n + 1 := ⟨room - 1, by simp at hroom; omega⟩
    have hc := not_or.1 (htext c List.mem_cons_self)
    rw [List.length_cons, Nat.add_le_add_iff_right] at hroom
    rw [List.cons_append, getLoop, if_neg hc.1, if_neg hc.2,
      ih (fun d hd => htext d (List.mem_cons_of_mem c hd)) hroom, List.length_cons,
      Nat.add_sub_add_right, Option.map_map]
    rfl

/-- A line that is longer than the buffer stays in the input. -/
theorem getLoop_take {text : List Char} (htext : ∀ c ∈ text, ¬ EndsLine c) {room : ℕ}
    (hroom : room ≤ text.length) (s : List Char) :
    getLoop room (text ++ s) = some (text.take room, text.drop room ++ s) := by
  have hsplit : text ++ s = text.take room ++ (text.drop room ++ s) := by
    rw [← List.append_assoc, List.take_append_drop]
  have hlen : (text.take room).length = room := List.length_take_of_le hroom
  rw [hsplit, getLoop_append (fun c hc => htext c (List.mem_of_mem_take hc)) hlen.le, hlen,
    Nat.sub_self, getLoop, Option.map_some, List.append_nil]

/-- The character that ends a line is kept, but the zero. -/
def lineEnd (stop : Char) : List Char := if stop.toNat < 1 then [] else [stop]

theorem getLoop_line {text : List Char} (htext : ∀ c ∈ text, ¬ EndsLine c) {room : ℕ}
    (hroom : text.length < room) {stop : Char} (hstop : EndsLine stop) (s : List Char) :
    getLoop room (text ++ stop :: s) = some (text ++ lineEnd stop, s) := by
  obtain ⟨n, hn⟩ : ∃ n, room - text.length = n + 1 := ⟨room - text.length - 1, by omega⟩
  rw [getLoop_append htext hroom.le, hn, getLoop]
  unfold lineEnd
  by_cases h0 : stop.toNat < 1
  · rw [if_pos h0, if_pos h0, Option.map_some]
  · rw [if_neg h0, if_neg h0, if_pos (hstop.resolve_left h0), Option.map_some]

theorem digitChar_plain : ∀ d < 10, ¬ EndsLine (digitChar d) := by
  intro d hd hends
  have hd' := (digitChar_toNat d hd).1
  rcases hends with h | h | h
  · omega
  · rw [h, show '\n'.toNat = 10 from rfl] at hd'
    omega
  · rw [h, show '\r'.toNat = 13 from rfl] at hd'
    omega

theorem EndsLine.no_digit {stop : Char} (hstop : EndsLine stop) :
    ∀ c ∈ (lineEnd stop).head?, ¬ ('0' ≤ c ∧ c ≤ '9') := by
  rintro c hc ⟨h0, -⟩
  have h48 : 48 ≤ c.toNat := h0
  have hcs : c = stop := by
    unfold lineEnd at hc
    split at hc
    · cases hc
    · exact (Option.some.inj hc).symm
  rw [hcs] at h48
  rcases hstop with h | rfl | rfl
  · omega
  · exact absurd h48 (by decide)
  · exact absurd h48 (by decide)

theorem toInt32_unsigned {xx : Int} (hxx : -2 ^ 31 ≤ xx) (hxx' : xx < 2 ^ 31) :
    toInt32 ((xx % 2 ^ 32).toNat : ℕ) = xx := by
  rw [Int.toNat_of_nonneg (by omega), toInt32, show (2 : Int) ^ 32 = (2 ^ 32 : ℕ) from rfl,
    Int.emod_bmod]
  exact toInt32_of_range hxx hxx'

/-- For any input: `buf` holds the line and its zero, and no character is lost but the zero that
ends the line. -/
theorem getString_fits {max : Int} (hmax : 1 ≤ max) {input line rest : List Char}
    (h : getString max input = some (line, rest)) : line.length + 1 ≤ max ∧
      ∃ e : List Char, input = line ++ e ++ rest ∧ ∀ c ∈ e, c.toNat < 1 := by
  have hloop : ∀ room input line rest, getLoop room input = some (line, rest) →
      line.length ≤ room ∧ ∃ e : List Char, input = line ++ e ++ rest ∧ ∀ c ∈ e, c.toNat < 1 := by
    intro room
    induction room with
    | zero =>
      rintro input line rest h
      cases h
      exact ⟨le_rfl, [], rfl, by simp⟩
    | succ room ih =>
      intro input line rest h
      cases input with
      | nil => cases h
      | cons c input =>
        rw [getLoop] at h
        split at h
        case isTrue h0 =>
          cases h
          exact ⟨Nat.zero_le _, [c], rfl, by simpa using h0⟩
        case isFalse =>
          split at h
          case isTrue =>
            cases h
            exact ⟨by simp, [], rfl, by simp⟩
          case isFalse =>
            obtain ⟨⟨line', rest'⟩, hr, he⟩ := Option.map_eq_some_iff.1 h
            cases he
            obtain ⟨hlen, e, hinput, hzero⟩ := ih _ _ _ hr
            exact ⟨Nat.add_le_add_right hlen 1, e, by rw [hinput]; rfl, hzero⟩
  obtain ⟨hlen, he⟩ := hloop _ _ _ _ h
  exact ⟨by omega, he⟩

theorem getString_line {text : List Char} (htext : ∀ c ∈ text, ¬ EndsLine c) {stop : Char}
    (hstop : EndsLine stop) (rest : List Char) :
    (∀ max : Int, text.length + 1 < max →
      getString max (text ++ stop :: rest) = some (text ++ lineEnd stop, rest)) ∧
    ∀ max : Int, max ≤ text.length + 1 → getString max (text ++ stop :: rest) =
      some (text.take (max - 1).toNat, text.drop (max - 1).toNat ++ stop :: rest) :=
  ⟨fun _ hmax => getLoop_line htext (by omega) hstop rest,
    fun _ hmax => getLoop_take htext (by omega) _⟩

/-- `stringToInt` does not read a sign. -/
theorem stringToInt_minus (s : List Char) : stringToInt ('-' :: s) = 0 :=
  stringLoop_stop (by simp) 0

/-- The decimal text of a number, and what `stringToInt` makes of it and of its beginnings. -/
theorem printInt_ten {xx : Int} (sgn : Int) (hxx : -2 ^ 31 ≤ xx) (hxx' : xx < 2 ^ 31) :
    ∃ text, printInt xx 10 sgn = some text ∧ (∀ c ∈ text, ¬ EndsLine c) ∧
      (∀ e : List Char, (∀ c ∈ e.head?, ¬ ('0' ≤ c ∧ c ≤ '9')) →
        stringToInt (text ++ e) = if sgn ≠ 0 ∧ xx < 0 then 0 else xx) ∧
      ∀ k, stringToInt (text.take k) = if sgn ≠ 0 ∧ xx < 0 then 0 else
        toInt32 ((xx % 2 ^ 32).toNat / 10 ^ (text.length - k) : ℕ) := by
  have htext := printInt_eq sgn hxx hxx' (by decide : (2 : Int) ≤ 10) (by decide)
  obtain ⟨text, hp⟩ :=
    Option.isSome_iff_exists.1 (printInt_some sgn hxx hxx' (by decide : (5 : Int) ≤ 10) (by decide))
  unfold magnitude at htext
  rw [hp, Option.some_eq_ite_none_right, Option.some.injEq] at htext
  have hplain : ∀ x, ∀ c ∈ (numeral 10 x).reverse.map digitChar, ¬ EndsLine c := by
    intro x c hc
    obtain ⟨d, hd, rfl⟩ := List.mem_map.1 hc
    exact digitChar_plain d (numeral_lt (by decide) (List.mem_reverse.1 hd))
  refine ⟨text, hp, ?_⟩
  rw [htext.2]
  by_cases hneg : sgn ≠ 0 ∧ xx < 0
  · simp only [if_pos hneg]
    refine ⟨fun c hc => ?_, fun e _ => stringToInt_minus _, fun k => ?_⟩
    · rcases List.mem_cons.1 hc with rfl | hc
      · exact (by decide : ¬ EndsLine '-')
      · exact hplain _ c hc
    · cases k with
      | zero => rfl
      | succ k => exact stringToInt_minus _
  · simp only [if_neg hneg, List.nil_append]
    refine ⟨hplain _, fun e he => ?_, fun k => ?_⟩
    · have h := stringToInt_numeral (xx % 2 ^ 32).toNat 0 he
      rw [List.drop_zero, pow_zero, Nat.div_one, toInt32_unsigned hxx hxx'] at h
      exact h
    · have h := stringToInt_numeral (s := []) (xx % 2 ^ 32).toNat
        ((numeral 10 (xx % 2 ^ 32).toNat).length - k) (by simp)
      rw [List.append_nil] at h
      rw [← List.map_take, List.take_reverse, List.length_map, List.length_reverse]
      exact h

/-- **A printed number is read back** from its line: `getString` takes the line and no more, and
`stringToInt` gives the number again; it reads a sign as 0. If the buffer is too small, the number
is cut: its leading digits are read, and the others stay in the input. -/
theorem getString_printInt {xx : Int} (sgn : Int) (hxx : -2 ^ 31 ≤ xx) (hxx' : xx < 2 ^ 31)
    {stop : Char} (hstop : EndsLine stop) (rest : List Char) :
    ∃ text, printInt xx 10 sgn = some text ∧
    (∀ max : Int, text.length + 1 < max →
      getString max (text ++ stop :: rest) = some (text ++ lineEnd stop, rest) ∧
      stringToInt (text ++ lineEnd stop) = if sgn ≠ 0 ∧ xx < 0 then 0 else xx) ∧
    ∀ max : Int, max ≤ text.length + 1 → ∃ line cut, text = line ++ cut ∧
      getString max (text ++ stop :: rest) = some (line, cut ++ stop :: rest) ∧
      line.length = (max - 1).toNat ∧
      stringToInt line = if sgn ≠ 0 ∧ xx < 0 then 0 else
        toInt32 ((xx % 2 ^ 32).toNat / 10 ^ cut.length : ℕ) := by
  obtain ⟨text, hp, hplain, hwhole, hpart⟩ := printInt_ten sgn hxx hxx'
  obtain ⟨hlong, hshort⟩ := getString_line hplain hstop rest
  refine ⟨text, hp, fun max hmax => ?_, fun max hmax => ?_⟩
  · exact ⟨hlong max hmax, hwhole _ hstop.no_digit⟩
  · refine ⟨_, _, (List.take_append_drop (max - 1).toNat text).symm, hshort max hmax,
      List.length_take_of_le (by omega), ?_⟩
    rw [hpart, List.length_drop]

theorem getString_printInt_1234 : ∃ text, printInt 1234 10 0 = some text ∧
    (getString 80 (text ++ '\n' :: ['5']) = some (text ++ ['\n'], ['5']) ∧
      stringToInt (text ++ ['\n']) = 1234) ∧
    ∃ line cut, text = line ++ cut ∧
      getString 3 (text ++ '\n' :: ['5']) = some (line, cut ++ '\n' :: ['5']) ∧
      line.length = 2 ∧ stringToInt line = 12 := by
  have hstop : EndsLine '\n' := by decide
  obtain ⟨text, hp, hlong, hshort⟩ :=
    getString_printInt 0 (by decide : -2 ^ 31 ≤ (1234 : Int)) (by decide) hstop ['5']
  obtain rfl : ['1', '2', '3', '4'] = text := Option.some.inj ((by decide : some _ = _).trans hp)
  refine ⟨_, hp, hlong 80 (by decide), ?_⟩
  obtain ⟨line, cut, htext, hget, hlen, hval⟩ := hshort 3 (by decide)
  have hcut : cut.length = 2 := by
    have := congrArg List.length htext
    rw [List.length_append, hlen] at this
    exact (Nat.add_left_cancel this).symm
  rw [hcut] at hval
  exact ⟨line, cut, htext, hget, hlen, hval⟩

end SlabKernel
