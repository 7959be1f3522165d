/-
  Lib/Decimal.lean --- numbers in decimal, as C prints and reads them.

  WHAT THIS FILE IS FOR.  Records that are written with `printf` and read back with
  `scanf` or `atoi` come back right when reading undoes printing, and when reading
  stops where the printed number ends.  Both are said here once:

      natOf_showNat      the digits of a number stand for the number
      scanULong_show     `%lu` reads a printed number and nothing behind it
      atoi_showInt       `atoi` reads a printed `%ld`

  A `long` has 32 bits.
-/
import Mathlib.Data.Nat.Digits.Lemmas
import Mathlib.Data.List.TakeWhile

namespace FreeAmp.Lib

/-! ## Characters -/

def isDigit (c : UInt8) : Bool := decide (48 ≤ c) && decide (c ≤ 57)

/-- `isspace` in the C locale. -/
def isSpace (c : UInt8) : Bool := c == 32 || (decide (9 ≤ c) && decide (c ≤ 13))

def digitChar (d : Nat) : UInt8 := UInt8.ofNat (48 + d)

/-- The digit of a character. -/
def digitVal (c : UInt8) : Nat := c.toNat - 48

theorem toNat_digitChar {d : Nat} (h : d < 10) : (digitChar d).toNat = 48 + d := by
  unfold digitChar
  rw [UInt8.toNat_ofNat_of_lt']
  show 48 + d < 256
  omega

theorem digitVal_digitChar {d : Nat} (h : d < 10) : digitVal (digitChar d) = d := by
  unfold digitVal
  rw [toNat_digitChar h, Nat.add_sub_cancel_left]

theorem isDigit_digitChar {d : Nat} (h : d < 10) : isDigit (digitChar d) = true := by
  have hval := toNat_digitChar h
  simp only [isDigit, Bool.and_eq_true, decide_eq_true_eq, UInt8.le_iff_toNat_le, hval]
  constructor
  · exact Nat.le_add_right 48 d
  · show 48 + d ≤ 57
    omega

theorem isSpace_of_isDigit {c : UInt8} (h : isDigit c = true) : isSpace c = false := by
  simp only [isDigit, Bool.and_eq_true, decide_eq_true_eq, UInt8.le_iff_toNat_le] at h
  have hlow : 48 ≤ c.toNat := h.1
  rw [Bool.eq_false_iff]
  intro hspace
  simp only [isSpace, Bool.or_eq_true, beq_iff_eq, Bool.and_eq_true, decide_eq_true_eq,
    UInt8.le_iff_toNat_le] at hspace
  rcases hspace with rfl | ⟨-, hhigh⟩
  · exact absurd hlow (by decide)
  · have hhigh' : c.toNat ≤ 13 := hhigh
    omega

/-! ## Digits -/

/-- A number in decimal, as `%lu` prints it. -/
def showNat (n : Nat) : List UInt8 :=
  if n = 0 then [48] else (Nat.digits 10 n).reverse.map digitChar

/-- The number that digits stand for. -/
def natOf (ds : List UInt8) : Nat := ds.foldl (fun n c => 10 * n + digitVal c) 0

theorem showNat_digits (n : Nat) : ∀ c ∈ showNat n, isDigit c = true := by
  intro c hc
  unfold showNat at hc
  split at hc
  · obtain rfl := List.mem_singleton.mp hc
    decide
  · obtain ⟨d, hd, rfl⟩ := List.mem_map.mp hc
    exact isDigit_digitChar (Nat.digits_lt_base (by decide) (List.mem_reverse.mp hd))

theorem showNat_ne_nil (n : Nat) : showNat n ≠ [] := by
  unfold showNat
  split
  · exact List.cons_ne_nil _ _
  · rename_i hn
    rw [Ne, List.map_eq_nil_iff, List.reverse_eq_nil_iff]
    exact Nat.digits_ne_nil_iff_ne_zero.mpr hn

theorem showNat_cons (n : Nat) : ∃ c ds, showNat n = c :: ds ∧ isDigit c = true := by
  cases hn : showNat n with
  | nil => exact absurd hn (showNat_ne_nil n)
  | cons c ds =>
    refine ⟨c, ds, rfl, showNat_digits n c ?_⟩
    rw [hn]
    exact List.mem_cons_self

theorem natOf_digits : ∀ l : List Nat, (∀ d ∈ l, d < 10) →
    natOf (l.reverse.map digitChar) = Nat.ofDigits 10 l := by
  intro l
  induction l with
  | nil => exact fun _ => rfl
  | cons d l ih =>
    intro hl
    have hd := digitVal_digitChar (hl d List.mem_cons_self)
    have hrest := ih fun e he => hl e (List.mem_cons_of_mem _ he)
    unfold natOf at hrest ⊢
    rw [List.reverse_cons, List.map_append, List.foldl_append, hrest]
    simp only [List.map_cons, List.map_nil, List.foldl_cons, List.foldl_nil, hd,
      Nat.ofDigits_cons]
    exact Nat.add_comm _ _

theorem natOf_showNat (n : Nat) : natOf (showNat n) = n := by
  unfold showNat
  split
  · rename_i hn
    rw [hn]
    rfl
  · rw [natOf_digits _ fun d hd => Nat.digits_lt_base (by decide) hd]
    exact Nat.ofDigits_digits 10 n

theorem length_showNat_le_iff {n k : Nat} (hk : 0 < k) :
    (showNat n).length ≤ k ↔ n < 10 ^ k := by
  unfold showNat
  split
  · rename_i hn
    rw [hn]
    constructor
    · exact fun _ => Nat.pow_pos (by decide)
    · exact fun _ => hk
  · rw [List.length_map, List.length_reverse]
    exact Nat.digits_length_le_iff (by decide) n

/-! ## Reading -/

/-- The digits a string begins with and what is behind them. -/
def spanDigits (s : List UInt8) : List UInt8 × List UInt8 :=
  (s.takeWhile isDigit, s.dropWhile isDigit)

/-- The string does not go on with a digit. -/
def NoDigit (s : List UInt8) : Prop := ∀ c ∈ s.head?, isDigit c = false

theorem spanDigits_append {ds rest : List UInt8} (hds : ∀ c ∈ ds, isDigit c = true)
    (hrest : NoDigit rest) : spanDigits (ds ++ rest) = (ds, rest) := by
  unfold spanDigits
  rw [List.takeWhile_append_of_pos hds, List.dropWhile_append_of_pos hds]
  cases rest with
  | nil => simp
  | cons c rest =>
    have hc := hrest c rfl
    simp [hc]

theorem noDigit_nil : NoDigit [] := by
  intro c hc
  simp at hc

theorem noDigit_of_isSpace {c : UInt8} {rest : List UInt8} (h : isSpace c = true) :
    NoDigit (c :: rest) := by
  intro c' hc'
  obtain rfl : c = c' := by simpa using hc'
  rw [Bool.eq_false_iff]
  intro hdigit
  rw [isSpace_of_isDigit hdigit] at h
  exact absurd h Bool.false_ne_true

/-- White space is skipped. -/
def skipSpace (s : List UInt8) : List UInt8 := s.dropWhile isSpace

/-- Whether a string begins with a minus sign, and what is behind the sign. -/
def readSign : List UInt8 → Bool × List UInt8
  | 45 :: s => (true, s)
  | 43 :: s => (false, s)
  | s => (false, s)

theorem skipSpace_cons {c : UInt8} {s : List UInt8} (h : isSpace c = true) :
    skipSpace (c :: s) = skipSpace s := by
  unfold skipSpace
  rw [List.dropWhile_cons_of_pos h]

theorem skipSpace_of_not {c : UInt8} {s : List UInt8} (h : isSpace c = false) :
    skipSpace (c :: s) = c :: s := by
  unfold skipSpace
  rw [List.dropWhile_cons_of_neg (by rw [h]; exact Bool.false_ne_true)]

theorem readSign_digit {c : UInt8} {s : List UInt8} (h : isDigit c = true) :
    readSign (c :: s) = (false, c :: s) := by
  unfold readSign
  split
  · rename_i heq
    obtain ⟨rfl, -⟩ := List.cons.inj heq
    exact absurd h (by decide)
  · rename_i heq
    obtain ⟨rfl, -⟩ := List.cons.inj heq
    exact absurd h (by decide)
  · rfl

/-! ## `%lu` -/

def uLongMax : Nat := 0xFFFFFFFF

/-- `%lu`: the number read and what is behind it; nothing when there is no number. -/
def scanULong (s : List UInt8) : Option (Nat × List UInt8) :=
  let sign := readSign (skipSpace s)
  let span := spanDigits sign.2
  if span.1 = [] then none
  else
    let n := natOf span.1
    some (if uLongMax < n then uLongMax
      else if sign.1 then (uLongMax + 1 - n) % (uLongMax + 1) else n, span.2)

theorem scanULong_space {c : UInt8} (h : isSpace c = true) (s : List UInt8) :
    scanULong (c :: s) = scanULong s := by
  unfold scanULong
  rw [skipSpace_cons h]

/-- `%lu` reads a printed number and nothing behind it. -/
theorem scanULong_show {n : Nat} (hn : n ≤ uLongMax) {rest : List UInt8} (hrest : NoDigit rest) :
    scanULong (showNat n ++ rest) = some (n, rest) := by
  obtain ⟨c, ds, hshow, hc⟩ := showNat_cons n
  have hspan := spanDigits_append (showNat_digits n) hrest
  have hvalue := natOf_showNat n
  rw [hshow] at hspan hvalue
  unfold scanULong
  rw [hshow, List.cons_append, skipSpace_of_not (isSpace_of_isDigit hc), readSign_digit hc,
    ← List.cons_append]
  simp only [hspan, hvalue, List.cons_ne_nil, if_false, if_neg (Nat.not_lt.mpr hn),
    Bool.false_eq_true]

/-! ## `atoi` and `%ld` -/

/-- `atoi`: white space, a sign and digits; out of range it stops at the end of the range. -/
def atoi (s : List UInt8) : Int :=
  let sign := readSign (skipSpace s)
  let n := natOf (spanDigits sign.2).1
  if sign.1 then max (-2147483648) (-(n : Int)) else min 2147483647 (n : Int)

/-- A number in decimal, as `%ld` prints it. -/
def showInt (z : Int) : List UInt8 :=
  if z < 0 then 45 :: showNat z.natAbs else showNat z.natAbs

theorem atoi_showNat (n : Nat) {rest : List UInt8} (hrest : NoDigit rest) :
    atoi (showNat n ++ rest) = min 2147483647 (n : Int) := by
  obtain ⟨c, ds, hshow, hc⟩ := showNat_cons n
  have hspan := spanDigits_append (showNat_digits n) hrest
  have hvalue := natOf_showNat n
  rw [hshow] at hspan hvalue
  unfold atoi
  rw [hshow, List.cons_append, skipSpace_of_not (isSpace_of_isDigit hc), readSign_digit hc,
    ← List.cons_append]
  simp only [hspan, hvalue, Bool.false_eq_true, if_false]

theorem atoi_minus (n : Nat) {rest : List UInt8} (hrest : NoDigit rest) :
    atoi (45 :: showNat n ++ rest) = max (-2147483648) (-(n : Int)) := by
  have hspan := spanDigits_append (showNat_digits n) hrest
  have hminus : isSpace 45 = false := by decide
  unfold atoi
  rw [List.cons_append, skipSpace_of_not hminus]
  simp only [readSign, hspan, natOf_showNat, if_true]

/-- A number that begins with a digit and ends before the end of the string is read
whatever follows the string. -/
theorem atoi_append {c d : UInt8} {s : List UInt8} (hc : isDigit c = true) (hd : d ∈ s)
    (hend : isDigit d = false) (t : List UInt8) : atoi (c :: s ++ t) = atoi (c :: s) := by
  have htake : (s ++ t).takeWhile isDigit = s.takeWhile isDigit := by
    have hshort : ¬ (s.takeWhile isDigit).length = s.length := by
      intro hall
      have heq := (List.takeWhile_prefix isDigit).eq_of_length hall
      rw [List.takeWhile_eq_self_iff] at heq
      rw [heq d hd] at hend
      exact absurd hend nofun
    rw [List.takeWhile_append, if_neg hshort]
  unfold atoi
  rw [List.cons_append, skipSpace_of_not (isSpace_of_isDigit hc),
    skipSpace_of_not (isSpace_of_isDigit hc), readSign_digit hc, readSign_digit hc]
  unfold spanDigits
  simp only [List.takeWhile_cons_of_pos hc, htake]

theorem atoi_showInt {z : Int} (hlow : -2147483648 ≤ z) (hhigh : z ≤ 2147483647)
    {rest : List UInt8} (hrest : NoDigit rest) : atoi (showInt z ++ rest) = z := by
  unfold showInt
  split
  · rw [atoi_minus _ hrest]
    omega
  · rw [atoi_showNat _ hrest]
    omega

/-- `(long int)` of an unsigned number. -/
def toLong (x : UInt32) : Int := if x.toNat < 2147483648 then x.toNat else x.toNat - 4294967296

theorem toLong_low (x : UInt32) : -2147483648 ≤ toLong x := by
  have hlt := x.toNat_lt
  unfold toLong
  split <;> omega

theorem toLong_high (x : UInt32) : toLong x ≤ 2147483647 := by
  have hlt := x.toNat_lt
  unfold toLong
  split <;> omega

theorem toNat_ofInt (z : Int) : (UInt32.ofInt z).toNat = (z % 4294967296).toNat := by
  unfold UInt32.ofInt
  rw [UInt32.toNat_ofNat_of_lt']
  · rfl
  · show (z % 4294967296).toNat < 4294967296
    omega

theorem ofInt_toLong (x : UInt32) : UInt32.ofInt (toLong x) = x := by
  have hlt := x.toNat_lt
  apply UInt32.toNat_inj.mp
  rw [toNat_ofInt]
  unfold toLong
  split <;> omega

/-- A field that is printed with `%ld` comes back through `atoi`. -/
theorem ofInt_atoi_showInt (x : UInt32) : UInt32.ofInt (atoi (showInt (toLong x))) = x := by
  have hread := atoi_showInt (toLong_low x) (toLong_high x) noDigit_nil
  rw [List.append_nil] at hread
  rw [hread, ofInt_toLong]

theorem showInt_ne_nil (z : Int) : showInt z ≠ [] := by
  unfold showInt
  split
  · exact List.cons_ne_nil _ _
  · exact showNat_ne_nil _

end FreeAmp.Lib
