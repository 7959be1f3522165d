/-
  Lib/IStream.lean --- formatted extraction from a C++ input stream.

  Numbers and words that are written with white space between them are read back as they
  were written (`readLong_show`, `readWord_append`); at the end of the stream nothing is
  read, and nothing is changed (`readLong_end`, `readWord_of_fail`).

  An `int` has 32 bits, and a `long`.  A number that cannot be read leaves the variable as it
  was.
-/
import FreeAmp.Lib.Decimal

namespace FreeAmp.Lib

/-- A stream that is read from: what is behind the position, `eofbit` and `failbit`. -/
structure IStream where
  rest : List UInt8
  eof : Bool
  fail : Bool
  deriving DecidableEq, Repr

namespace IStream

/-- A stream before it is read. -/
def start (file : List UInt8) : IStream := ⟨file, false, false⟩

/-- What comes before every extraction: white space is skipped. -/
def sentry (s : IStream) : IStream :=
  if s.eof || s.fail then { s with fail := true }
  else if skipSpace s.rest = [] then ⟨[], true, true⟩
  else { s with rest := skipSpace s.rest }

def readLong (s : IStream) (old : Int) : Int × IStream :=
  let s := s.sentry
  if s.fail then (old, s)
  else
    let sign := readSign s.rest
    let span := spanDigits sign.2
    let n : Int := if sign.1 then -(natOf span.1 : Int) else natOf span.1
    if span.1 ≠ [] ∧ -2147483648 ≤ n ∧ n ≤ 2147483647 then
      (n, ⟨span.2, decide (span.2 = []), false⟩)
    else (old, ⟨span.2, decide (span.2 = []), true⟩)

/-- `>>` to a string. -/
def readWord (s : IStream) (old : List UInt8) : List UInt8 × IStream :=
  let s := s.sentry
  if s.fail then (old, s)
  else
    let rest := s.rest.dropWhile fun c => !isSpace c
    (s.rest.takeWhile fun c => !isSpace c, ⟨rest, decide (rest = []), false⟩)

/-! ## White space -/

/-- Nothing but white space. -/
def Blank (s : List UInt8) : Prop := ∀ c ∈ s, isSpace c = true

instance (s : List UInt8) : Decidable (Blank s) :=
  List.decidableBAll (fun c => isSpace c = true) s

theorem skipSpace_append {blank : List UInt8} (h : Blank blank) (s : List UInt8) :
    skipSpace (blank ++ s) = skipSpace s :=
  List.dropWhile_append_of_pos h

theorem sentry_blank {blank : List UInt8} (h : Blank blank) :
    (start blank).sentry = ⟨[], true, true⟩ := by
  have hskip : skipSpace blank = [] := by
    rw [← List.append_nil blank, skipSpace_append h]
    rfl
  unfold sentry start
  simp only [hskip, Bool.or_self, Bool.false_eq_true, if_false, if_true]

theorem sentry_of_not_space {blank : List UInt8} (h : Blank blank) {c : UInt8}
    (hc : isSpace c = false) (s : List UInt8) :
    (start (blank ++ c :: s)).sentry = start (c :: s) := by
  have hskip : skipSpace (blank ++ c :: s) = c :: s := by
    rw [skipSpace_append h, skipSpace_of_not hc]
  unfold sentry start
  simp only [hskip, Bool.or_self, Bool.false_eq_true, if_false, List.cons_ne_nil]

/-! ## Numbers -/

/-- A number that is printed is read, and nothing behind it. -/
theorem readLong_show {z : Int} (hlow : -2147483648 ≤ z) (hhigh : z ≤ 2147483647)
    {blank : List UInt8} (hblank : Blank blank) {rest : List UInt8} (hrest : NoDigit rest)
    (old : Int) :
    readLong (start (blank ++ (showInt z ++ rest))) old =
      (z, ⟨rest, decide (rest = []), false⟩) := by
  have hspan := spanDigits_append (showNat_digits z.natAbs) hrest
  obtain ⟨c, ds, hshow, hc⟩ := showNat_cons z.natAbs
  by_cases hneg : z < 0
  · have hz : showInt z = 45 :: showNat z.natAbs := if_pos hneg
    have hvalue : -((natOf (showNat z.natAbs) : Nat) : Int) = z := by
      rw [natOf_showNat]
      omega
    unfold readLong
    rw [hz, List.cons_append, sentry_of_not_space hblank (by decide)]
    simp only [start, Bool.false_eq_true, if_false, readSign, hspan, if_true, hvalue]
    rw [if_pos ⟨showNat_ne_nil _, hlow, hhigh⟩]
  · have hz : showInt z = showNat z.natAbs := if_neg hneg
    have hvalue : ((natOf (showNat z.natAbs) : Nat) : Int) = z := by
      rw [natOf_showNat]
      omega
    have hsign : readSign (showNat z.natAbs ++ rest) = (false, showNat z.natAbs ++ rest) := by
      rw [hshow, List.cons_append]
      exact readSign_digit hc
    have hsentry : (start (blank ++ (showNat z.natAbs ++ rest))).sentry =
        start (showNat z.natAbs ++ rest) := by
      rw [hshow, List.cons_append]
      exact sentry_of_not_space hblank (isSpace_of_isDigit hc) _
    unfold readLong
    rw [hz, hsentry]
    simp only [start, Bool.false_eq_true, if_false, hsign, hspan, hvalue]
    rw [if_pos ⟨showNat_ne_nil _, hlow, hhigh⟩]

theorem readLong_end {blank : List UInt8} (h : Blank blank) (old : Int) :
    readLong (start blank) old = (old, ⟨[], true, true⟩) := by
  unfold readLong
  rw [sentry_blank h]
  rfl

/-! ## Words -/

/-- A string that is read as one word. -/
def IsWord (s : List UInt8) : Prop := s ≠ [] ∧ ∀ c ∈ s, isSpace c = false

instance (s : List UInt8) : Decidable (IsWord s) :=
  @instDecidableAnd _ _ inferInstance (List.decidableBAll (fun c => isSpace c = false) s)

theorem readWord_append {word : List UInt8} (hword : IsWord word) {blank : List UInt8}
    (hblank : Blank blank) {c : UInt8} (hc : isSpace c = true) (rest old : List UInt8) :
    readWord (start (blank ++ (word ++ c :: rest))) old = (word, start (c :: rest)) := by
  have hnot : ∀ d ∈ word, (!isSpace d) = true := fun d hd => by rw [hword.2 d hd]; rfl
  have htake : (word ++ c :: rest).takeWhile (fun d => !isSpace d) = word := by
    rw [List.takeWhile_append_of_pos hnot, List.takeWhile_cons_of_neg (by simp [hc]),
      List.append_nil]
  have hdrop : (word ++ c :: rest).dropWhile (fun d => !isSpace d) = c :: rest := by
    rw [List.dropWhile_append_of_pos hnot, List.dropWhile_cons_of_neg (by simp [hc])]
  have hsentry : (start (blank ++ (word ++ c :: rest))).sentry = start (word ++ c :: rest) := by
    cases word with
    | nil => exact absurd rfl hword.1
    | cons d word => exact sentry_of_not_space hblank (hword.2 d List.mem_cons_self) _
  unfold readWord
  rw [hsentry]
  simp only [start, Bool.false_eq_true, if_false, htake, hdrop, List.cons_ne_nil, decide_false]

theorem readWord_of_fail {s : IStream} (h : s.fail = true) (old : List UInt8) :
    (readWord s old).1 = old := by
  have hsentry : s.sentry.fail = true := by
    unfold sentry
    rw [h, Bool.or_true, if_pos rfl]
  unfold readWord
  simp only
  rw [if_pos hsentry]

end IStream

end FreeAmp.Lib
