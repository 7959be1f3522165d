/-
  Base/PrefInt32.lean --- numbers in the preferences: `Preferences::SetPrefInt32` and
  `GetPrefInt32`, from `base/src/preferences.cpp`.

      writeDigits_eq     the digits that are written backwards
      prefInt32_iff      what comes back is what has been set

  The sign is split off by `value = -value`, which leaves the least number as it is.
-/
import FreeAmp.Base.UnixPrefsEntries

namespace FreeAmp.Base

open FreeAmp.Lib

/-! ## The calls -/

/-- Preferences that return the string which has been stored: `SetPrefString`, and
`GetPrefString` with the size of its buffer. -/
structure PrefStore (σ : Type) where
  setPrefString : σ → Text → Text → σ
  getPrefString : σ → Text → Nat → Option Text
  stored : ∀ s pref value size, NulFree value → value.length < size →
    getPrefString (setPrefString s pref value) pref size = some value

/-- `*--p = '0' + (value % 10)`, and on with `value / 10` while that is positive. -/
def writeDigits (value : Int) (p : Text) : Text :=
  let p := UInt8.ofInt (48 + value.tmod 10) :: p
  if 0 < value.tdiv 10 then writeDigits (value.tdiv 10) p else p
termination_by value.toNat
decreasing_by
  rename_i hpos
  have hvalue : 0 < value := by
    by_contra hneg
    have hnonneg : 0 ≤ (-value).tdiv 10 := Int.tdiv_nonneg (by omega) (by decide)
    rw [Int.neg_tdiv] at hnonneg
    omega
  have heq : value.tdiv 10 = value / 10 := Int.tdiv_eq_ediv_of_nonneg (Int.le_of_lt hvalue)
  omega

/-- The string of `SetPrefInt32`. -/
def prefText (value : Int32) : Text :=
  if value < 0 then 45 :: writeDigits (-value).toInt [] else writeDigits value.toInt []

/-- `strtol(s, &endp, 10)` of 32 bits, with what `endp` points to; no digits: to the beginning. -/
def strtol (s : Text) : Int × Text :=
  let sign := readSign (skipSpace s)
  let span := spanDigits sign.2
  if span.1 = [] then (0, s) else (atoi s, span.2)

section Store

variable {σ : Type} (store : PrefStore σ)

def setPrefInt32 (s : σ) (pref : Text) (value : Int32) : σ :=
  store.setPrefString s pref (prefText value)

/-- `GetPrefInt32`: whether it succeeds, and `*value`. -/
def getPrefInt32 (s : σ) (pref : Text) : Bool × Int :=
  match store.getPrefString s pref 32 with
  | none => (false, -1)
  | some temp =>
    let (value, endp) := strtol temp
    (endp.isEmpty, value)

end Store

/-! ## What is written -/

theorem showNat_of_lt {n : Nat} (h : n < 10) : showNat n = [digitChar n] := by
  unfold showNat
  by_cases hzero : n = 0
  · rw [hzero]
    rfl
  · rw [if_neg hzero, Nat.digits_of_lt 10 n hzero h]
    rfl

theorem showNat_of_ge {n : Nat} (h : 10 ≤ n) :
    showNat n = showNat (n / 10) ++ [digitChar (n % 10)] := by
  unfold showNat
  rw [if_neg (by omega), if_neg (by omega), Nat.digits_def' (by decide) (by omega),
    List.reverse_cons, List.map_append]
  rfl

theorem writeDigits_eq (n : Nat) (p : Text) : writeDigits n p = showNat n ++ p := by
  induction n using Nat.strongRecOn generalizing p with
  | ind n ih =>
    have hmod : (n : Int).tmod 10 = ((n % 10 : Nat) : Int) := rfl
    have hdiv : (n : Int).tdiv 10 = ((n / 10 : Nat) : Int) := rfl
    have hdigit : UInt8.ofInt (48 + ((n % 10 : Nat) : Int)) = digitChar (n % 10) := by
      unfold UInt8.ofInt digitChar
      congr 1
      omega
    rw [writeDigits, hmod, hdiv, hdigit]
    by_cases hten : 10 ≤ n
    · rw [if_pos (by omega), ih (n / 10) (by omega), showNat_of_ge hten, List.append_assoc]
      rfl
    · rw [if_neg (by omega), showNat_of_lt (by omega), Nat.mod_eq_of_lt (by omega)]
      rfl

/-- The decimal representation, but for the least number. -/
theorem prefText_eq {value : Int32} (h : value ≠ Int32.minValue) :
    prefText value = showInt value.toInt := by
  have hlow := value.le_toInt
  have hhigh := value.toInt_lt
  have hne : value.toInt ≠ -2147483648 := fun heq => h (Int32.toInt_inj.mp heq)
  have hsign : value < 0 ↔ value.toInt < 0 := Int32.lt_iff_toInt_lt
  unfold prefText showInt
  by_cases hneg : value.toInt < 0
  · have hminus : (-value).toInt = ((value.toInt.natAbs : Nat) : Int) := by
      rw [Int32.toInt_neg, Int.bmod_def]
      omega
    rw [if_pos (hsign.mpr hneg), if_pos hneg, hminus, writeDigits_eq, List.append_nil]
  · have habs : value.toInt = ((value.toInt.natAbs : Nat) : Int) := by omega
    rw [if_neg (hsign.not.mpr hneg), if_neg hneg]
    nth_rewrite 1 [habs]
    rw [writeDigits_eq, List.append_nil]

theorem prefText_minValue : prefText Int32.minValue = [45, 40] := by
  have hminus : (-Int32.minValue).toInt = -2147483648 := by decide
  unfold prefText
  rw [if_pos (by decide), hminus, writeDigits, if_neg (by decide)]
  decide

theorem length_showInt {z : Int} (hlow : -2147483648 ≤ z) (hhigh : z ≤ 2147483647) :
    (showInt z).length ≤ 11 := by
  have hdigits : (showNat z.natAbs).length ≤ 10 :=
    (length_showNat_le_iff (by decide)).mpr (by omega)
  unfold showInt
  split
  · exact Nat.succ_le_succ hdigits
  · omega

/-! ## What is read -/

theorem strtol_showInt {z : Int} (hlow : -2147483648 ≤ z) (hhigh : z ≤ 2147483647) :
    strtol (showInt z) = (z, []) := by
  have hatoi := atoi_showInt hlow hhigh noDigit_nil
  have hspan := spanDigits_append (showNat_digits z.natAbs) noDigit_nil
  rw [List.append_nil] at hatoi hspan
  have hsign : (readSign (skipSpace (showInt z))).2 = showNat z.natAbs := by
    unfold showInt
    split
    · rw [skipSpace_of_not (by decide)]
      rfl
    · obtain ⟨c, ds, hshow, hc⟩ := showNat_cons z.natAbs
      rw [hshow, skipSpace_of_not (isSpace_of_isDigit hc), readSign_digit hc]
  unfold strtol
  dsimp only
  rw [hsign, hspan, if_neg (showNat_ne_nil _), hatoi]

/-! ## Both -/

section Store

variable {σ : Type} {store : PrefStore σ}

/-- The number that is set is written in decimal, and comes back. -/
def ComesBack (store : PrefStore σ) (s : σ) (pref : Text) (value : Int32) : Prop :=
  prefText value = showInt value.toInt ∧
    getPrefInt32 store (setPrefInt32 store s pref value) pref = (true, value.toInt)

theorem getPrefInt32_stored (s : σ) (pref : Text) {value : Int32} (hnul : NulFree (prefText value))
    (hlength : (prefText value).length < 32) :
    getPrefInt32 store (setPrefInt32 store s pref value) pref =
      ((strtol (prefText value)).2.isEmpty, (strtol (prefText value)).1) := by
  unfold getPrefInt32 setPrefInt32
  rw [store.stored s pref _ 32 hnul hlength]

/-- A number comes back just when it is not the least one. -/
theorem prefInt32_iff (store : PrefStore σ) (s : σ) (pref : Text) (value : Int32) :
    ComesBack store s pref value ↔ value ≠ Int32.minValue := by
  constructor
  · rintro ⟨htext, -⟩ rfl
    rw [prefText_minValue] at htext
    exact absurd htext (by decide)
  · intro hne
    have hlow : -2147483648 ≤ value.toInt := value.le_toInt
    have hhigh : value.toInt ≤ 2147483647 := Int.le_of_lt_add_one value.toInt_lt
    have htext := prefText_eq hne
    have hlength := length_showInt hlow hhigh
    refine ⟨htext, ?_⟩
    rw [getPrefInt32_stored s pref (htext ▸ nulFree_showInt _) (by rw [htext]; omega), htext,
      strtol_showInt hlow hhigh]
    rfl

end Store

/-- The preferences of Unix are such a store. -/
def unixPrefStore : PrefStore UnixPrefs where
  setPrefString := UnixPrefs.setPrefString
  getPrefString p pref size :=
    (p.value (cStr pref)).filter fun value => decide (value.length < size)
  stored p pref value size hnul hlength := by
    rw [UnixPrefs.value_set, if_pos rfl, hnul.cStr_eq]
    exact Option.filter_some_pos (by simpa using hlength)

/-- The least number is written with a parenthesis. -/
theorem prefInt32_fails : ¬ ∀ (s : UnixPrefs) (pref : Text) (value : Int32),
    ComesBack unixPrefStore s pref value := by
  intro hall
  have htext := (hall (UnixPrefs.load none) (bytes "Volume") Int32.minValue).1
  rw [prefText_minValue] at htext
  exact absurd htext (by decide)

end FreeAmp.Base
