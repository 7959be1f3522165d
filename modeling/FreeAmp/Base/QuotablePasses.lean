/-
  Base/QuotablePasses.lean --- the two passes of `PrepareQuotableString`, from
  `base/unix/src/unixprefs.cpp`.

      prepare_out, prepare_length   what a pass writes, and what it counts
      quotable_roundTrip            what is written is as long as it was counted, is on one
                                    line, and is read back
-/
import FreeAmp.Base.QuotableString

namespace FreeAmp.Base

open FreeAmp.Lib

/-! ## A pass -/

/-- The variables of the loop. -/
structure Pass where
  /-- `*needQuotes` -/
  needQuotes : Bool
  /-- what `out` has been advanced over -/
  out : Text
  quotedLength : Nat
  unquotedLength : Nat
  deriving DecidableEq, Repr

/-- A character of the string; `quoted` is what `*needQuotes` was before the loop. -/
def Pass.step (delim : Text) (quoted : Bool) (p : Pass) (c : UInt8) : Pass :=
  if delim.contains c || c == 32 then
    { p with needQuotes := true, quotedLength := p.quotedLength + 1, out := p.out ++ [c] }
  else if c == 92 || c == 34 then
    { p with
      quotedLength := p.quotedLength + 2
      unquotedLength := p.unquotedLength + 1
      out := p.out ++ (if quoted then [92] else []) ++ [c] }
  else if c == 10 || c == 9 then
    { p with
      needQuotes := true
      quotedLength := p.quotedLength + 2
      out := p.out ++ [92, if c = 10 then 110 else 116] }
  else if isSpace c || !isGraph c then
    { p with
      needQuotes := true
      quotedLength := p.quotedLength + 4
      out := p.out ++ [92, UInt8.ofNat (48 + c.toNat / 64), UInt8.ofNat (48 + c.toNat / 8 % 8),
        UInt8.ofNat (48 + c.toNat % 8)] }
  else
    { p with
      quotedLength := p.quotedLength + 1
      unquotedLength := p.unquotedLength + 1
      out := p.out ++ [c] }

/-- What a call of `PrepareQuotableString` leaves. -/
structure Prepared where
  needQuotes : Bool
  /-- what is written at `out`, with its NUL -/
  out : Text
  /-- `*lengthPtr` -/
  length : Nat
  deriving DecidableEq, Repr

def prepareQuotableString (str : Text) (quoted : Bool) (delim : Text) : Prepared :=
  let start : Pass :=
    { needQuotes := quoted || str.head? == some 34
      out := if quoted then [34] else []
      quotedLength := 2
      unquotedLength := 0 }
  let p := str.foldl (Pass.step delim quoted) start
  { needQuotes := p.needQuotes
    out := p.out ++ (if quoted then [34] else []) ++ [0]
    length := if p.needQuotes then p.quotedLength else p.unquotedLength }

/-! ## What a pass comes to -/

variable {delim : Text} {quoted : Bool}

theorem step_eq (p : Pass) (c : UInt8) : p.step delim quoted c =
    { needQuotes := p.needQuotes || forcesQuotes delim c
      out := p.out ++ prepareChar delim quoted c
      quotedLength := p.quotedLength + (prepareChar delim true c).length
      unquotedLength := p.unquotedLength +
        if forcesQuotes delim c then 0 else (prepareChar delim false c).length } := by
  unfold Pass.step forcesQuotes prepareChar
  by_cases hplain : (delim.contains c || c == 32) = true
  · simp only [hplain, if_true, Bool.or_true, Bool.true_or]
    rfl
  rw [Bool.not_eq_true] at hplain
  by_cases hescape : (c == 92 || c == 34) = true
  · have hneed : (c != 92 && c != 34 && (c == 10 || c == 9 || isSpace c || !isGraph c)) = false := by
      rw [Bool.or_eq_true, beq_iff_eq, beq_iff_eq] at hescape
      rcases hescape with rfl | rfl <;> rfl
    simp only [hplain, hescape, hneed, if_true, Bool.or_false, Bool.false_eq_true, if_false]
    cases quoted <;> simp
  rw [Bool.not_eq_true] at hescape
  have hother : (c != 92 && c != 34) = true := by
    rw [Bool.or_eq_false_iff, beq_eq_false_iff_ne, beq_eq_false_iff_ne] at hescape
    simp [hescape.1, hescape.2]
  by_cases hline : (c == 10 || c == 9) = true
  · simp only [hplain, hescape, hother, hline, Bool.false_eq_true, if_false, if_true, Bool.true_or,
      Bool.and_self, Bool.or_true, List.length_cons, List.length_nil, Nat.add_zero]
  rw [Bool.not_eq_true] at hline
  by_cases hoctal : (isSpace c || !isGraph c) = true
  · simp only [hplain, hescape, hother, hline, hoctal, Bool.false_or, Bool.false_eq_true, if_false,
      if_true, Bool.and_self, Bool.or_true, List.length_cons, List.length_nil, Nat.add_zero,
      Nat.zero_add]
  · rw [Bool.not_eq_true] at hoctal
    simp only [hplain, hescape, hline, hoctal, Bool.false_or, Bool.false_eq_true, if_false,
      Bool.and_false, Bool.or_false, List.length_cons, List.length_nil, Nat.zero_add]

theorem foldl_step (str : Text) (p : Pass) : str.foldl (Pass.step delim quoted) p =
    { needQuotes := p.needQuotes || str.any (forcesQuotes delim)
      out := p.out ++ str.flatMap (prepareChar delim quoted)
      quotedLength := p.quotedLength + (str.flatMap (prepareChar delim true)).length
      unquotedLength := p.unquotedLength + (str.map fun c =>
        if forcesQuotes delim c then 0 else (prepareChar delim false c).length).sum } := by
  induction str generalizing p with
  | nil =>
    rw [List.foldl_nil, List.any_nil, List.flatMap_nil, List.flatMap_nil, List.map_nil,
      List.sum_nil, List.append_nil, List.length_nil, Bool.or_false]
    rfl
  | cons c str ih =>
    rw [List.foldl_cons, ih, step_eq]
    simp only [List.any_cons, List.flatMap_cons, List.map_cons, List.sum_cons,
      List.length_append, Bool.or_assoc, List.append_assoc, Nat.add_assoc]

/-- What is counted of a string that stands without quotes. -/
theorem sum_unquoted {str : Text} (h : str.any (forcesQuotes delim) = false) :
    (str.map fun c => if forcesQuotes delim c then 0 else (prepareChar delim false c).length).sum =
      (str.flatMap (prepareChar delim false)).length := by
  rw [List.length_flatMap]
  congr 1
  refine List.map_congr_left fun c hc => ?_
  rw [List.any_eq_false] at h
  rw [if_neg (h c hc)]

theorem prepare_needQuotes (str : Text) :
    (prepareQuotableString str false delim).needQuotes = needQuotes delim str := by
  unfold prepareQuotableString
  simp only [foldl_step]
  rfl

/-- The first pass counts what the string is written as. -/
theorem prepare_length (str : Text) :
    (prepareQuotableString str false delim).length = (writeQuotableString delim str).length := by
  unfold prepareQuotableString writeQuotableString
  simp only [foldl_step]
  show (if needQuotes delim str = true then _ else _) = _
  by_cases hneed : needQuotes delim str = true
  · rw [if_pos hneed, if_pos hneed, List.length_append, List.length_cons, List.length_singleton]
    show 2 + _ = _
    omega
  · rw [if_neg hneed, if_neg hneed]
    unfold needQuotes at hneed
    rw [Bool.or_eq_true, not_or, Bool.not_eq_true, Bool.not_eq_true] at hneed
    show 0 + _ = _
    rw [Nat.zero_add, sum_unquoted hneed.2]

theorem prepare_out (str : Text) :
    (prepareQuotableString str (needQuotes delim str) delim).out =
      writeQuotableString delim str ++ [0] := by
  unfold prepareQuotableString writeQuotableString
  simp only [foldl_step]
  show _ ++ _ ++ [0] = _
  by_cases hneed : needQuotes delim str = true
  · rw [hneed]
    rfl
  · rw [if_neg hneed]
    rw [Bool.not_eq_true] at hneed
    rw [hneed]
    show [] ++ _ ++ [] ++ _ = _
    rw [List.nil_append, List.append_nil]
    rfl

/-! ## Both passes -/

/-- The delimiters behind a key. -/
def keyDelims : Text := bytes ":#"

/-- The delimiters behind a value. -/
def valueDelims : Text := bytes "#"

/-- With the delimiters of a key or of a value: the second pass writes as many characters as
the first has counted, and its NUL; they are on one line, and are read back up to what
follows. -/
theorem quotable_roundTrip {delim : Text} (hdelim : delim = keyDelims ∨ delim = valueDelims)
    {s t : Text} (hnul : NulFree s) (hends : Ends delim t) :
    ∃ quotable : Text,
      (prepareQuotableString s (prepareQuotableString s false delim).needQuotes delim).out =
        quotable ++ [0] ∧
      quotable.length = (prepareQuotableString s false delim).length ∧
      NulFree quotable ∧ 10 ∉ quotable ∧
      readQuotableString delim (quotable ++ t) = (some s, t) := by
  have hdelims : Delims delim := by
    rcases hdelim with rfl | rfl
    · exact ⟨by decide, by decide, by decide⟩
    · exact ⟨by decide, by decide, by decide⟩
  refine ⟨writeQuotableString delim s, ?_, (prepare_length s).symm, nulFree_write hnul,
    newline_write hdelims s, readQuotableString_write hdelims hnul (.inr hends)⟩
  rw [prepare_needQuotes, prepare_out]

/-- A value with a delimiter in it, in front of a comment. -/
theorem quotable_roundTrip_comment : ∃ quotable : Text,
    (prepareQuotableString (bytes "a #b") (prepareQuotableString (bytes "a #b") false
      valueDelims).needQuotes valueDelims).out = quotable ++ [0] ∧
    quotable.length = (prepareQuotableString (bytes "a #b") false valueDelims).length ∧
    NulFree quotable ∧ 10 ∉ quotable ∧
    readQuotableString valueDelims (quotable ++ bytes "# c") = (some (bytes "a #b"), bytes "# c") :=
  quotable_roundTrip (.inr rfl) (by decide) (by
    intro c t h
    cases h
    decide)

end FreeAmp.Base
