/-
  Base/QuotableString.lean --- strings in the preferences file, from
  `base/unix/src/unixprefs.cpp`.

  A string is written as it is, or in quotes, with what would be taken for something else
  escaped.  The locale is that of C.

      scan_quoted, scan_plain   what is read of a string that has been written
      readQuotable_write        the string comes back, when what follows it ends it
-/
import FreeAmp.Base.Database

namespace FreeAmp.Base

open FreeAmp.Lib

/-! ## Reading -/

def isGraph (c : UInt8) : Bool := decide (33 ≤ c) && decide (c ≤ 126)

/-- The character that `\` and another one stand for: `\\`, `\"`, `\n`, `\t`. -/
def escaped (c : UInt8) : Option UInt8 :=
  if c = 92 then some 92
  else if c = 34 then some 34
  else if c = 110 then some 10
  else if c = 116 then some 9
  else none

/-- Three octal digits. -/
def isOctal (c d e : UInt8) : Bool :=
  decide (48 ≤ c) && decide (c ≤ 51) && decide (48 ≤ d) && decide (d ≤ 55) && decide (48 ≤ e) &&
    decide (e ≤ 55)

/-- The character with these octal digits. -/
def fromOctal (c d e : UInt8) : UInt8 :=
  UInt8.ofNat ((c.toNat - 48) * 64 + (d.toNat - 48) * 8 + (e.toNat - 48))

/-- What `ScanQuotableString` comes to: the string, or a syntax error, and `*endPtr`. -/
structure Scan where
  out : Option Text
  endPtr : Text
  deriving DecidableEq

/-- `*out++ = ch` -/
def Scan.push (ch : UInt8) (r : Scan) : Scan := { r with out := r.out.map (ch :: ·) }

/-- `ScanQuotableString`, in or outside quotes. -/
def scanQuotableString (delim : Text) (quoted : Bool) : Text → Scan
  | [] => ⟨some [], []⟩
  | c :: s =>
    if c == 34 && quoted then ⟨some [], s⟩
    else if (isSpace c || delim.contains c) && !quoted then ⟨some [], c :: s⟩
    else if c == 92 && quoted then
      match s with
      | [] => ⟨none, []⟩
      | d :: t =>
        match escaped d with
        | some ch => (scanQuotableString delim quoted t).push ch
        | none =>
          match t with
          | e :: f :: u =>
            if isOctal d e f then
              (scanQuotableString delim quoted u).push (fromOctal d e f)
            else ⟨none, d :: t⟩
          | _ => ⟨none, d :: t⟩
    else if c == 10 then ⟨if quoted then none else some [], c :: s⟩
    else (scanQuotableString delim quoted s).push c

/-- `ReadQuotableString`: the C string, none when there is a syntax error, and `*endPtr`. -/
def readQuotableString (delim s : Text) : Option Text × Text :=
  let r := match s with
    | 34 :: s => scanQuotableString delim true s
    | s => scanQuotableString delim false s
  (r.out.map cStr, r.endPtr)

theorem endPtr_suffix (delim : Text) (quoted : Bool) (s : Text) :
    (scanQuotableString delim quoted s).endPtr <:+ s := by
  fun_induction scanQuotableString delim quoted s with
  | case1 => exact List.suffix_refl _
  | case2 => exact List.suffix_cons _ _
  | case3 => exact List.suffix_refl _
  | case4 => exact List.nil_suffix
  | case5 _ _ _ _ _ _ _ _ ih => exact (ih.trans (List.suffix_cons _ _)).trans (List.suffix_cons _ _)
  | case6 _ _ _ _ _ _ _ _ _ _ ih =>
    -- four characters have been read
    exact ih.trans ⟨[_, _, _, _], rfl⟩
  | case7 => exact List.suffix_cons _ _
  | case8 => exact List.suffix_cons _ _
  | case9 => exact List.suffix_refl _
  | case10 _ _ _ _ _ _ ih => exact ih.trans (List.suffix_cons _ _)

theorem readQuotableString_suffix (delim s : Text) : (readQuotableString delim s).2 <:+ s := by
  unfold readQuotableString
  split
  · exact (endPtr_suffix delim true _).trans (List.suffix_cons _ _)
  · exact endPtr_suffix delim false _

theorem readQuotableString_nulFree {delim s str : Text}
    (h : (readQuotableString delim s).1 = some str) : NulFree str := by
  obtain ⟨out, -, rfl⟩ := Option.map_eq_some_iff.mp h
  exact nulFree_cStr out

/-! ## Writing -/

/-- A character that cannot stand outside quotes. -/
def forcesQuotes (delim : Text) (c : UInt8) : Bool :=
  delim.contains c || c == 32 ||
    (c != 92 && c != 34 && (c == 10 || c == 9 || isSpace c || !isGraph c))

def needQuotes (delim str : Text) : Bool := str.head? == some 34 || str.any (forcesQuotes delim)

/-- What `PrepareQuotableString` makes of a character. -/
def prepareChar (delim : Text) (quoted : Bool) (c : UInt8) : Text :=
  if delim.contains c || c == 32 then [c]
  else if c == 92 || c == 34 then if quoted then [92, c] else [c]
  else if c == 10 || c == 9 then [92, if c = 10 then 110 else 116]
  else if isSpace c || !isGraph c then
    [92, UInt8.ofNat (48 + c.toNat / 64), UInt8.ofNat (48 + c.toNat / 8 % 8),
      UInt8.ofNat (48 + c.toNat % 8)]
  else [c]

def writeQuotableString (delim str : Text) : Text :=
  if needQuotes delim str then 34 :: str.flatMap (prepareChar delim true) ++ [34]
  else str.flatMap (prepareChar delim false)

/-! ## Reading what has been written -/

/-- The delimiters do not mean anything in quotes. -/
structure Delims (delim : Text) : Prop where
  quote : 34 ∉ delim
  backslash : 92 ∉ delim
  newline : 10 ∉ delim

/-- The string ends here, outside quotes. -/
def Ends (delim s : Text) : Prop := ∀ c t, s = c :: t → (isSpace c || delim.contains c) = true

section Written

variable {delim : Text}

theorem scan_escaped {d ch : UInt8} (hescaped : escaped d = some ch) (s : Text) :
    scanQuotableString delim true (92 :: d :: s) = (scanQuotableString delim true s).push ch := by
  rw [scanQuotableString.eq_def]
  simp [hescaped]

theorem scan_cons {c : UInt8} (hquote : c ≠ 34) (hbackslash : c ≠ 92) (hnewline : c ≠ 10)
    (s : Text) :
    scanQuotableString delim true (c :: s) = (scanQuotableString delim true s).push c := by
  rw [scanQuotableString.eq_def]
  simp [hquote, hbackslash, hnewline]

theorem scan_digits {d e f : UInt8} (hplain : escaped d = none) (hoctal : isOctal d e f = true)
    (s : Text) : scanQuotableString delim true (92 :: d :: e :: f :: s) =
      (scanQuotableString delim true s).push (fromOctal d e f) := by
  rw [scanQuotableString.eq_def]
  simp [hplain, hoctal]

theorem scan_close (s : Text) : scanQuotableString delim true (34 :: s) = ⟨some [], s⟩ := by
  rw [scanQuotableString.eq_def]
  rfl

theorem toNat_octal {n : Nat} (h : n < 8) : (UInt8.ofNat (48 + n)).toNat = 48 + n := by
  rw [UInt8.toNat_ofNat']
  omega

theorem scan_octal (c : UInt8) (s : Text) :
    scanQuotableString delim true ([92, UInt8.ofNat (48 + c.toNat / 64),
      UInt8.ofNat (48 + c.toNat / 8 % 8), UInt8.ofNat (48 + c.toNat % 8)] ++ s) =
        (scanQuotableString delim true s).push c := by
  have hlt : c.toNat < 256 := c.toNat_lt
  have hhigh := toNat_octal (n := c.toNat / 64) (by omega)
  have hmid := toNat_octal (n := c.toNat / 8 % 8) (by omega)
  have hlow := toNat_octal (n := c.toNat % 8) (by omega)
  have hplain : escaped (UInt8.ofNat (48 + c.toNat / 64)) = none := by
    unfold escaped
    have hne : ∀ d : UInt8, 52 ≤ d.toNat ∨ d.toNat < 48 → UInt8.ofNat (48 + c.toNat / 64) ≠ d := by
      intro d hd heq
      rw [heq] at hhigh
      omega
    rw [if_neg (hne 92 (by decide)), if_neg (hne 34 (by decide)), if_neg (hne 110 (by decide)),
      if_neg (hne 116 (by decide))]
  have hoctal : isOctal (UInt8.ofNat (48 + c.toNat / 64)) (UInt8.ofNat (48 + c.toNat / 8 % 8))
      (UInt8.ofNat (48 + c.toNat % 8)) = true := by
    unfold isOctal
    simp only [UInt8.le_iff_toNat_le, hhigh, hmid, hlow, Bool.and_eq_true, decide_eq_true_eq]
    refine ⟨⟨⟨⟨⟨?_, ?_⟩, ?_⟩, ?_⟩, ?_⟩, ?_⟩
    · exact Nat.le_add_right 48 _
    · show 48 + c.toNat / 64 ≤ 51
      omega
    · exact Nat.le_add_right 48 _
    · show 48 + c.toNat / 8 % 8 ≤ 55
      omega
    · exact Nat.le_add_right 48 _
    · show 48 + c.toNat % 8 ≤ 55
      omega
  have hfrom : fromOctal (UInt8.ofNat (48 + c.toNat / 64)) (UInt8.ofNat (48 + c.toNat / 8 % 8))
      (UInt8.ofNat (48 + c.toNat % 8)) = c := by
    unfold fromOctal
    rw [hhigh, hmid, hlow, ← UInt8.toNat_inj, UInt8.toNat_ofNat']
    omega
  exact (scan_digits hplain hoctal s).trans (by rw [hfrom])

/-- Reading a character that has been written in quotes. -/
theorem scan_prepareChar (hdelim : Delims delim) (c : UInt8) (s : Text) :
    scanQuotableString delim true (prepareChar delim true c ++ s) =
      (scanQuotableString delim true s).push c := by
  unfold prepareChar
  split
  · rename_i hplain
    rw [Bool.or_eq_true, List.contains_iff_mem, beq_iff_eq] at hplain
    rcases hplain with hmem | rfl
    · refine scan_cons ?_ ?_ ?_ s
      · rintro rfl
        exact hdelim.quote hmem
      · rintro rfl
        exact hdelim.backslash hmem
      · rintro rfl
        exact hdelim.newline hmem
    · exact scan_cons (by decide) (by decide) (by decide) s
  · split
    · rename_i hescape
      rw [Bool.or_eq_true, beq_iff_eq, beq_iff_eq] at hescape
      rcases hescape with rfl | rfl
      · exact scan_escaped (by decide) s
      · exact scan_escaped (by decide) s
    · rename_i hescape
      rw [Bool.or_eq_true, beq_iff_eq, beq_iff_eq, not_or] at hescape
      split
      · rename_i hline
        rw [Bool.or_eq_true, beq_iff_eq, beq_iff_eq] at hline
        rcases hline with rfl | rfl
        · exact scan_escaped (by decide) s
        · exact scan_escaped (by decide) s
      · rename_i hline
        rw [Bool.or_eq_true, beq_iff_eq, beq_iff_eq, not_or] at hline
        split
        · exact scan_octal c s
        · exact scan_cons hescape.2 hescape.1 hline.1 s

theorem scan_quoted (hdelim : Delims delim) (str rest : Text) :
    scanQuotableString delim true (str.flatMap (prepareChar delim true) ++ 34 :: rest) =
      ⟨some str, rest⟩ := by
  induction str with
  | nil => exact scan_close rest
  | cons c str ih =>
    rw [List.flatMap_cons, List.append_assoc, scan_prepareChar hdelim, ih]
    rfl

/-- Characters that stand outside quotes, up to something that ends the string. -/
theorem scan_plain : ∀ {str rest : Text},
    (∀ c ∈ str, (isSpace c || delim.contains c) = false) → Ends delim rest →
      scanQuotableString delim false (str ++ rest) = ⟨some str, rest⟩ := by
  intro str
  induction str with
  | nil =>
    intro rest _ hends
    cases rest with
    | nil => rfl
    | cons c t =>
      have hstop := hends c t rfl
      rw [List.nil_append, scanQuotableString.eq_def]
      simp only [hstop, Bool.and_false, Bool.false_eq_true, if_false, Bool.not_false,
        Bool.and_self, if_true]
  | cons c str ih =>
    intro rest hplain hends
    have hc := hplain c List.mem_cons_self
    have hnewline : (c == 10) = false := by
      rw [beq_eq_false_iff_ne]
      rintro rfl
      rw [Bool.or_eq_false_iff] at hc
      exact absurd hc.1 (by decide)
    rw [List.cons_append, scanQuotableString.eq_def]
    simp only [hc, hnewline, Bool.and_false, Bool.false_eq_true, if_false, Bool.not_false,
      Bool.false_and, ih (fun d hd => hplain d (List.mem_cons_of_mem c hd)) hends]
    rfl

theorem isSpace_of_not_forces {c : UInt8} (h : forcesQuotes delim c = false) :
    (isSpace c || delim.contains c) = false ∧ prepareChar delim false c = [c] := by
  unfold forcesQuotes at h
  rw [Bool.or_eq_false_iff, Bool.or_eq_false_iff] at h
  obtain ⟨⟨hdelim, hblank⟩, hrest⟩ := h
  unfold prepareChar
  simp only [hdelim, hblank, Bool.or_false, Bool.false_eq_true, if_false]
  by_cases hescape : c = 92 ∨ c = 34
  · rcases hescape with rfl | rfl
    · exact ⟨by decide, rfl⟩
    · exact ⟨by decide, rfl⟩
  · rw [not_or] at hescape
    have h92 : (c == 92) = false := beq_eq_false_iff_ne.mpr hescape.1
    have h34 : (c == 34) = false := beq_eq_false_iff_ne.mpr hescape.2
    simp only [bne, h92, h34, Bool.not_false, Bool.true_and, Bool.or_eq_false_iff] at hrest
    obtain ⟨⟨⟨hnewline, htab⟩, hspace⟩, hgraph⟩ := hrest
    simp only [h92, h34, hnewline, htab, hspace, hgraph, Bool.or_false, Bool.false_eq_true,
      if_false, and_self]

/-- What has been written without quotes is the string. -/
theorem flatMap_prepareChar {str : Text} (h : str.any (forcesQuotes delim) = false) :
    (∀ c ∈ str, (isSpace c || delim.contains c) = false) ∧
      str.flatMap (prepareChar delim false) = str := by
  rw [List.any_eq_false] at h
  have hchar : ∀ c ∈ str, (isSpace c || delim.contains c) = false ∧
      prepareChar delim false c = [c] :=
    fun c hc => isSpace_of_not_forces (Bool.eq_false_iff.mpr (h c hc))
  refine ⟨fun c hc => (hchar c hc).1, ?_⟩
  rw [List.flatMap_congr fun c hc => (hchar c hc).2, List.flatMap_singleton']

theorem readQuotableString_quoted (s : Text) : readQuotableString delim (34 :: s) =
    ((scanQuotableString delim true s).out.map cStr, (scanQuotableString delim true s).endPtr) :=
  rfl

theorem readQuotableString_plain {s : Text} (h : s.head? ≠ some 34) : readQuotableString delim s =
    ((scanQuotableString delim false s).out.map cStr,
      (scanQuotableString delim false s).endPtr) := by
  unfold readQuotableString
  split
  · exact absurd rfl h
  · rfl

/-- The string comes back, when it is in quotes or what follows it ends it. -/
theorem readQuotableString_write (hdelim : Delims delim) {str rest : Text} (hnul : NulFree str)
    (hends : needQuotes delim str = true ∨ Ends delim rest) :
    readQuotableString delim (writeQuotableString delim str ++ rest) = (some str, rest) := by
  unfold writeQuotableString
  by_cases hneed : needQuotes delim str = true
  · rw [if_pos hneed, List.append_assoc, List.cons_append, List.singleton_append,
      readQuotableString_quoted, scan_quoted hdelim]
    simp only [Option.map_some, hnul.cStr_eq]
  · have hrest : Ends delim rest := hends.resolve_left hneed
    rw [if_neg hneed]
    unfold needQuotes at hneed
    rw [Bool.or_eq_true, not_or, Bool.not_eq_true, Bool.not_eq_true, beq_eq_false_iff_ne] at hneed
    obtain ⟨hplain, heq⟩ := flatMap_prepareChar hneed.2
    have hhead : (str ++ rest).head? ≠ some 34 := by
      cases str with
      | nil =>
        intro h
        obtain ⟨t, ht⟩ := List.head?_eq_some_iff.mp h
        have hstop := hrest 34 t ht
        rw [Bool.or_eq_true, List.contains_iff_mem] at hstop
        rcases hstop with hspace | hmem
        · exact absurd hspace (by decide)
        · exact hdelim.quote hmem
      | cons c str => exact hneed.1
    rw [heq, readQuotableString_plain hhead, scan_plain hplain hrest]
    simp only [Option.map_some, hnul.cStr_eq]

/-- A character is written as itself, if it does not end the line, or with others that do not. -/
theorem mem_prepareChar {c d : UInt8} {quoted : Bool} (hd : d ∈ prepareChar delim quoted c) :
    d = c ∧ (c ∈ delim ∨ c ≠ 10) ∨ 48 ≤ d.toNat := by
  unfold prepareChar at hd
  split at hd
  · rename_i hplain
    rw [Bool.or_eq_true, List.contains_iff_mem, beq_iff_eq] at hplain
    refine .inl ⟨List.mem_singleton.mp hd, hplain.imp_right ?_⟩
    rintro rfl
    decide
  · split at hd
    · rename_i hescape
      rw [Bool.or_eq_true, beq_iff_eq, beq_iff_eq] at hescape
      have hline : c ≠ 10 := by
        rintro rfl
        exact absurd hescape (by decide)
      split at hd
      · rcases List.mem_cons.mp hd with rfl | hd
        · exact .inr (by decide)
        · exact .inl ⟨List.mem_singleton.mp hd, .inr hline⟩
      · exact .inl ⟨List.mem_singleton.mp hd, .inr hline⟩
    · split at hd
      · rcases List.mem_cons.mp hd with rfl | hd
        · exact .inr (by decide)
        · rw [List.mem_singleton.mp hd]
          split
          · exact .inr (by decide)
          · exact .inr (by decide)
      · rename_i hline
        rw [Bool.or_eq_true, beq_iff_eq, beq_iff_eq, not_or] at hline
        split at hd
        · have hlt : c.toNat < 256 := c.toNat_lt
          simp only [List.mem_cons, List.not_mem_nil, or_false] at hd
          rcases hd with rfl | rfl | rfl | rfl
          · exact .inr (by decide)
          · exact .inr (by rw [toNat_octal (by omega)]; exact Nat.le_add_right _ _)
          · exact .inr (by rw [toNat_octal (by omega)]; exact Nat.le_add_right _ _)
          · exact .inr (by rw [toNat_octal (by omega)]; exact Nat.le_add_right _ _)
        · exact .inl ⟨List.mem_singleton.mp hd, .inr hline.1⟩

theorem mem_write {str : Text} {d : UInt8} (hd : d ∈ writeQuotableString delim str) :
    d ∈ str ∧ (d ∈ delim ∨ d ≠ 10) ∨ 34 ≤ d.toNat := by
  have hflat : ∀ quoted, d ∈ str.flatMap (prepareChar delim quoted) →
      d ∈ str ∧ (d ∈ delim ∨ d ≠ 10) ∨ 34 ≤ d.toNat := by
    intro quoted hmem
    obtain ⟨c, hc, hd⟩ := List.mem_flatMap.mp hmem
    rcases mem_prepareChar hd with ⟨rfl, hline⟩ | hle
    · exact .inl ⟨hc, hline⟩
    · exact .inr (by omega)
  unfold writeQuotableString at hd
  split at hd
  · rcases List.mem_append.mp hd with hd | hd
    · rcases List.mem_cons.mp hd with rfl | hd
      · exact .inr (by decide)
      · exact hflat true hd
    · rw [List.mem_singleton.mp hd]
      exact .inr (by decide)
  · exact hflat false hd

/-- What is written has no NUL in it when the string has none. -/
theorem nulFree_write {str : Text} (hnul : NulFree str) :
    NulFree (writeQuotableString delim str) := by
  intro hmem
  rcases mem_write hmem with ⟨hzero, -⟩ | hle
  · exact hnul hzero
  · exact absurd hle (by decide)

theorem newline_write (hdelim : Delims delim) (str : Text) :
    10 ∉ writeQuotableString delim str := by
  intro hmem
  rcases mem_write hmem with ⟨-, hnew | hne⟩ | hle
  · exact hdelim.newline hnew
  · exact hne rfl
  · exact absurd hle (by decide)

/-- What is written does not begin with something that ends a string. -/
theorem head_write (hdelim : Delims delim) {str s : Text} {c : UInt8}
    (h : writeQuotableString delim str = c :: s) : (isSpace c || delim.contains c) = false := by
  unfold writeQuotableString at h
  split at h
  · rw [List.cons_append] at h
    rw [← (List.cons.inj h).1, Bool.or_eq_false_iff]
    exact ⟨by decide, by simpa using hdelim.quote⟩
  · rename_i hneed
    unfold needQuotes at hneed
    rw [Bool.or_eq_true, not_or, Bool.not_eq_true, Bool.not_eq_true] at hneed
    obtain ⟨hplain, heq⟩ := flatMap_prepareChar hneed.2
    rw [heq] at h
    exact hplain c (by rw [h]; exact List.mem_cons_self)

/-- Something is written of a string that is not empty. -/
theorem writeQuotableString_ne_nil {str : Text} (h : str ≠ []) :
    writeQuotableString delim str ≠ [] := by
  unfold writeQuotableString
  split
  · exact List.cons_ne_nil _ _
  · rename_i hneed
    unfold needQuotes at hneed
    rw [Bool.or_eq_true, not_or, Bool.not_eq_true, Bool.not_eq_true] at hneed
    rw [(flatMap_prepareChar hneed.2).2]
    exact h

end Written

end FreeAmp.Base
