/-
  Ui/ThemeZipHeader.lean --- reading a header that `CompressThemeZip` has made.

  The checksum is the sum of signed characters, and can be negative if a name has bytes
  from 128 on.  One that is not negative is printed with six digits, and the header is
  read as it was meant (`checkHeader_header`).  A negative one is printed as an `unsigned`
  number of eleven digits, whose first six are no checksum of any record
  (`checkHeader_negative`).
-/
import FreeAmp.Ui.ThemeZip

namespace FreeAmp.Ui

open FreeAmp.Base FreeAmp.Lib

/-! ## Sums -/

theorem charValue_le (c : UInt8) : charValue c ≤ 127 := by
  unfold charValue
  split
  · rename_i h
    have hlt : c.toNat < 128 := UInt8.lt_iff_toNat_lt.mp h
    omega
  · have hlt := c.toNat_lt
    omega

theorem le_charValue (c : UInt8) : -128 ≤ charValue c := by
  unfold charValue
  split
  · omega
  · rename_i h
    have hle : ¬ c.toNat < 128 := fun hlt => h (UInt8.lt_iff_toNat_lt.mpr hlt)
    omega

theorem recordSum_append (r s : Text) : recordSum (r ++ s) = recordSum r + recordSum s := by
  unfold recordSum
  rw [List.map_append, List.sum_append]

theorem recordSum_le (r : Text) : recordSum r ≤ 127 * r.length := by
  induction r with
  | nil => exact Int.le_refl 0
  | cons c r ih =>
    have hc := charValue_le c
    have hcons : recordSum (c :: r) = charValue c + recordSum r := List.sum_cons
    rw [hcons, List.length_cons]
    omega

theorem le_recordSum (r : Text) : -128 * (r.length : Int) ≤ recordSum r := by
  induction r with
  | nil => exact Int.le_refl 0
  | cons c r ih =>
    have hc := le_charValue c
    have hcons : recordSum (c :: r) = charValue c + recordSum r := List.sum_cons
    rw [hcons, List.length_cons]
    omega

/-! ## The parts of a header -/

section Header

variable {name : Text} {size time : Nat}

theorem length_strField {n : Nat} {s : Text} (h : s.length ≤ n) : (strField n s).length = n := by
  unfold strField
  rw [List.length_append, List.length_replicate]
  omega

/-- What a header is made from. -/
structure Fits (name : Text) (size time : Nat) : Prop where
  nameFits : name.length < 100
  nulFree : NulFree name
  sizeFits : size < 2147483648
  timeFits : time < 4294967296

theorem headerFront_length (h : Fits name size time) :
    (headerFront name size time).length = 148 := by
  have hname := h.nameFits
  have hsize : (printOct 11 size).length = 11 :=
    length_printOct (by decide) (Nat.lt_trans h.sizeFits (by decide))
  have htime : (printOct 11 time).length = 11 :=
    length_printOct (by decide) (Nat.lt_trans h.timeFits (by decide))
  have hmode : (strField 8 (bytes "100644 ")).length = 8 := rfl
  have huid : (strField 8 (bytes "   764 ")).length = 8 := rfl
  have hgid : (strField 8 (bytes "   144 ")).length = 8 := rfl
  unfold headerFront
  simp only [List.length_append, length_strField (Nat.le_of_lt hname), hmode, huid, hgid, hsize,
    htime, List.length_singleton]

theorem headerBack_length : headerBack.length = 356 := by
  have hmagic : (strField 8 tmagic).length = 8 := rfl
  unfold headerBack
  simp only [List.length_append, List.length_replicate, List.length_singleton, hmagic]

theorem blankHeader_length (h : Fits name size time) :
    (blankHeader name size time).length = recordSize := by
  unfold blankHeader
  rw [List.length_append, List.length_append, headerFront_length h, List.length_replicate,
    headerBack_length]
  rfl

theorem nameOf_front (h : Fits name size time) (rest : Text) :
    nameOf (headerFront name size time ++ rest) = name := by
  obtain ⟨k, hk⟩ : ∃ k, 100 - name.length = k + 1 := ⟨99 - name.length, by have := h.nameFits; omega⟩
  unfold nameOf headerFront strField
  rw [hk, List.replicate_succ]
  simp only [List.append_assoc, List.cons_append]
  rw [cStr_append_nul, h.nulFree.cStr_eq]

theorem sizeOf_front (h : Fits name size time) (rest : Text) :
    sizeOf (headerFront name size time ++ rest) = size := by
  have hsize : (printOct 11 size).length = 11 :=
    length_printOct (by decide) (Nat.lt_trans h.sizeFits (by decide))
  have hfront : headerFront name size time ++ rest =
      (strField 100 name ++ strField 8 (bytes "100644 ") ++ strField 8 (bytes "   764 ") ++
        strField 8 (bytes "   144 ")) ++ (printOct 11 size ++
          ([32] ++ (printOct 11 time ++ [32]) ++ rest)) := by
    unfold headerFront
    simp only [List.append_assoc]
  have hlen : (strField 100 name ++ strField 8 (bytes "100644 ") ++
      strField 8 (bytes "   764 ") ++ strField 8 (bytes "   144 ")).length = 124 := by
    have hname := h.nameFits
    have hmode : (strField 8 (bytes "100644 ")).length = 8 := rfl
    have huid : (strField 8 (bytes "   764 ")).length = 8 := rfl
    have hgid : (strField 8 (bytes "   144 ")).length = 8 := rfl
    simp only [List.length_append, length_strField (Nat.le_of_lt hname), hmode, huid, hgid]
  unfold sizeOf
  rw [hfront, List.drop_left' hlen, List.take_left' hsize]
  exact fromOct_printOct 11 h.sizeFits

/-! ## A checksum that is not negative -/

theorem ofInt_toNat {z : Int} (h0 : 0 ≤ z) (h : z < 4294967296) :
    (UInt32.ofInt z).toNat = z.toNat := by
  rw [toNat_ofInt, Int.emod_eq_of_lt h0 h]

theorem recordSum_blankHeader_lt (h : Fits name size time) :
    recordSum (blankHeader name size time) < 65536 := by
  have hle := recordSum_le (blankHeader name size time)
  have hlen : ((blankHeader name size time).length : Int) = 512 := by
    rw [blankHeader_length h]
    rfl
  omega

theorem header_eq (h : Fits name size time) (h0 : 0 ≤ recordSum (blankHeader name size time)) :
    header name size time = headerFront name size time ++
      (printOct 6 (recordSum (blankHeader name size time)).toNat ++ [0]) ++
        ([32] ++ headerBack) := by
  have hlt := recordSum_blankHeader_lt h
  have hdigits : (printOct 6 (recordSum (blankHeader name size time)).toNat).length = 6 :=
    length_printOct (by decide) (by omega)
  have hfront := headerFront_length h
  unfold header sprintfAt
  dsimp only
  rw [ofInt_toNat h0 (by omega), hdigits]
  have htake : (blankHeader name size time).take 148 = headerFront name size time := by
    unfold blankHeader
    rw [List.append_assoc, List.take_left' hfront]
  have hdrop : (blankHeader name size time).drop (148 + 6 + 1) = [32] ++ headerBack := by
    unfold blankHeader
    rw [List.append_assoc, show 148 + 6 + 1 = 148 + 7 from rfl, ← List.drop_drop,
      List.drop_left' hfront]
    rfl
  rw [htake, hdrop]

theorem magicOk_of_drop {r rest : Text} (h : r.drop 257 = strField 8 tmagic ++ rest) :
    magicOk r = true := by
  have hlast : r.getD 264 0 = (r.drop 257).getD 7 0 := by
    rw [List.getD_eq_getElem?_getD, List.getD_eq_getElem?_getD, List.getElem?_drop]
  unfold magicOk
  rw [hlast, h]
  rfl

theorem headerBack_drop : headerBack.drop 101 = strField 8 tmagic ++ List.replicate 247 0 := by
  have hlen : ([regType] ++ List.replicate 100 (0 : UInt8)).length = 101 := by
    rw [List.length_append, List.length_replicate, List.length_singleton]
  unfold headerBack
  rw [List.append_assoc, List.drop_left' hlen]

theorem le_recordSum_printOct (n : Nat) (h : n < 8 ^ 6) : 208 ≤ recordSum (printOct 6 n) := by
  have hle : ∀ s : Text, (∀ c ∈ s, isODigit c = true) → 48 * (s.length : Int) ≤ recordSum s := by
    intro s
    induction s with
    | nil => exact fun _ => Int.le_refl 0
    | cons c s ih =>
      intro hall
      have hc : 48 ≤ charValue c := by
        have hdigit := hall c List.mem_cons_self
        simp only [isODigit, Bool.and_eq_true, decide_eq_true_eq, UInt8.le_iff_toNat_le] at hdigit
        have hlow : 48 ≤ c.toNat := hdigit.1
        have hhigh : c.toNat ≤ 55 := hdigit.2
        have hlt : c < 128 := UInt8.lt_iff_toNat_lt.mpr (Nat.lt_of_le_of_lt hhigh (by decide))
        unfold charValue
        rw [if_pos hlt]
        omega
      have hs := ih fun d hd => hall d (List.mem_cons_of_mem c hd)
      have hcons : recordSum (c :: s) = charValue c + recordSum s := List.sum_cons
      rw [hcons, List.length_cons]
      omega
  have hblanks : ∀ k : Nat, recordSum (List.replicate k 32) = 32 * k := by
    intro k
    unfold recordSum
    rw [List.map_replicate, List.sum_replicate]
    exact Int.mul_comm _ _
  have hdigits := hle (octDigits n) (octDigits_all n)
  have hlen := length_octDigits_le (by decide) h
  have hpos : 0 < (octDigits n).length := List.length_pos_iff.mpr (octDigits_ne_nil n)
  unfold printOct
  rw [recordSum_append, hblanks]
  omega

/-- A header that has its checksum is not taken for the end marker. -/
theorem recordSum_header (h : Fits name size time)
    (h0 : 0 ≤ recordSum (blankHeader name size time)) :
    recordSum (header name size time) ≠ 0 := by
  have hlt := recordSum_blankHeader_lt h
  rw [header_eq h h0]
  have hblank : recordSum (blankHeader name size time) =
      recordSum (headerFront name size time) + 256 + recordSum headerBack := by
    unfold blankHeader
    rw [recordSum_append, recordSum_append]
    rfl
  obtain ⟨s, hs⟩ := Int.eq_ofNat_of_zero_le h0
  have hprint := le_recordSum_printOct s (by omega)
  have hone : recordSum [0] = 0 := rfl
  have hspace : recordSum [32] = 32 := rfl
  rw [hs] at hblank hlt ⊢
  rw [recordSum_append, recordSum_append, recordSum_append, recordSum_append, hone, hspace]
  show recordSum (headerFront name size time) + (recordSum (printOct 6 s) + 0) +
    (32 + recordSum headerBack) ≠ 0
  by_cases hsmall : s < 17
  · have hne : ∀ s : Fin 17, (s : Int) - 224 + recordSum (printOct 6 s) ≠ 0 := by decide
    have hthis := hne ⟨s, hsmall⟩
    dsimp only at hthis
    omega
  · omega

/-- The record at a position, in front of the rest of an archive. -/
theorem gzread_append {front r rest : Text} {n : Nat} (h : r.length = n) :
    gzread (front ++ (r ++ rest)) front.length n = r := by
  unfold gzread
  rw [List.drop_left, List.take_left' h]

theorem header_length (h : Fits name size time)
    (h0 : 0 ≤ recordSum (blankHeader name size time)) :
    (header name size time).length = recordSize := by
  have hlt := recordSum_blankHeader_lt h
  have hdigits : (printOct 6 (recordSum (blankHeader name size time)).toNat).length = 6 :=
    length_printOct (by decide) (by omega)
  rw [header_eq h h0]
  simp only [List.length_append, headerFront_length h, hdigits, List.length_singleton,
    headerBack_length]
  rfl

theorem checkHeader_header (h : Fits name size time)
    (h0 : 0 ≤ recordSum (blankHeader name size time)) (front rest : Text) :
    checkHeader (front ++ (header name size time ++ rest)) front.length =
      .record (blankHeader name size time) := by
  have hlt := recordSum_blankHeader_lt h
  have hfront := headerFront_length h
  have heq := header_eq h h0
  have hdigits : (printOct 6 (recordSum (blankHeader name size time)).toNat).length = 6 :=
    length_printOct (by decide) (by omega)
  have hlen := header_length h h0
  have hbehind : (header name size time).drop 156 = headerBack := by
    have hfront156 : (headerFront name size time ++
        (printOct 6 (recordSum (blankHeader name size time)).toNat ++ [0]) ++ [32]).length = 156 := by
      simp only [List.length_append, hfront, hdigits, List.length_singleton]
    rw [heq, ← List.append_assoc, List.drop_left' hfront156]
  have hchecksum : checksumOf (header name size time) =
      recordSum (blankHeader name size time) := by
    unfold checksumOf
    rw [heq, List.append_assoc, List.append_assoc, List.drop_left' hfront,
      List.take_left' hdigits, fromOct_printOct 6 (by omega), Int.toNat_of_nonneg h0]
  have hbefore : (header name size time).take 148 = headerFront name size time := by
    rw [heq, List.append_assoc, List.take_left' hfront]
  have hblanked : blanked (header name size time) = blankHeader name size time := by
    unfold blanked
    rw [hbehind, hbefore]
    rfl
  have hmagic : magicOk (header name size time) = true := by
    refine @magicOk_of_drop _ (List.replicate 247 0) ?_
    rw [show 257 = 156 + 101 from rfl, ← List.drop_drop, hbehind, headerBack_drop]
  unfold checkHeader
  dsimp only
  rw [gzread_append hlen, if_neg (not_not.mpr hlen), if_neg (recordSum_header h h0), hmagic,
    hblanked, hchecksum]
  simp only [Bool.not_true, Bool.false_eq_true, if_false, ne_eq, not_true_eq_false]

/-! ## A checksum that is negative -/

theorem octDigits_succ {n : Nat} (h : 8 ≤ n) :
    octDigits n = octDigits (n / 8) ++ [digitChar (n % 8)] := by
  have hn : n ≠ 0 := by omega
  have hdiv : n / 8 ≠ 0 := by omega
  unfold octDigits
  rw [if_neg hn, if_neg hdiv, Nat.digits_def' (by decide) (Nat.pos_of_ne_zero hn),
    List.reverse_cons, List.map_append, List.map_singleton]

theorem octDigits_split : ∀ (k : Nat) {n : Nat}, 8 ^ k ≤ n →
    ∃ low, octDigits n = octDigits (n / 8 ^ k) ++ low ∧ low.length = k := by
  intro k
  induction k with
  | zero =>
    intro n _
    exact ⟨[], by rw [Nat.pow_zero, Nat.div_one, List.append_nil], rfl⟩
  | succ k ih =>
    intro n h
    rw [Nat.pow_succ] at h
    have hpos : 0 < 8 ^ k := Nat.pow_pos (by decide)
    obtain ⟨low, hlow, hlen⟩ := ih (n := n / 8) ((Nat.le_div_iff_mul_le (by decide)).mpr h)
    refine ⟨low ++ [digitChar (n % 8)], ?_, ?_⟩
    · rw [octDigits_succ (by omega), hlow, Nat.div_div_eq_div_mul, Nat.pow_succ', List.append_assoc]
    · rw [List.length_append, hlen, List.length_singleton]

/-- A negative sum as it is printed: the first six of its digits are those of a number
that is larger than any sum. -/
theorem printOct_negative {z : Int} (h0 : z < 0) (hlow : -65536 ≤ z) :
    ∃ high low, printOct 6 (UInt32.ofInt z).toNat = high ++ low ∧ high.length = 6 ∧
      low.length = 5 ∧ 131070 ≤ fromOct high := by
  have hval : (UInt32.ofInt z).toNat = (z + 4294967296).toNat := by
    rw [toNat_ofInt, ← Int.add_emod_right, Int.emod_eq_of_lt (by omega) (by omega)]
  generalize hn : (z + 4294967296).toNat = n at hval
  have hbounds : 4294901760 ≤ n ∧ n ≤ 4294967295 := by omega
  obtain ⟨low, hsplit, hlen⟩ := octDigits_split 5 (n := n) (by omega)
  have hdiv : n / 8 ^ 5 = 131070 ∨ n / 8 ^ 5 = 131071 := by omega
  have hhigh : (octDigits (n / 8 ^ 5)).length = 6 := by
    rcases hdiv with hdiv | hdiv <;> rw [hdiv] <;> decide
  refine ⟨octDigits (n / 8 ^ 5), low, ?_, hhigh, hlen, ?_⟩
  · unfold printOct
    dsimp only
    rw [hval, hsplit, List.length_append, hhigh, hlen]
    rfl
  · have hread := fromOct_printOct (n := n / 8 ^ 5) 0 (by omega)
    have hprint : printOct 0 (n / 8 ^ 5) = octDigits (n / 8 ^ 5) := by
      unfold printOct
      dsimp only
      rw [Nat.zero_sub, List.replicate_zero, List.nil_append]
    rw [← hprint, hread]
    omega

theorem checkHeader_negative (h : Fits name size time)
    (h0 : recordSum (blankHeader name size time) < 0) (front rest : Text) :
    checkHeader (front ++ (header name size time ++ rest)) front.length = .last ∨
      checkHeader (front ++ (header name size time ++ rest)) front.length = .bad := by
  have hblankLen := blankHeader_length h
  have hlow := le_recordSum (blankHeader name size time)
  have hblankInt : ((blankHeader name size time).length : Int) = 512 := by
    rw [hblankLen]
    rfl
  obtain ⟨high, low, hprint, hhigh, hlowLen, hbig⟩ := printOct_negative h0 (by omega)
  have htake : ((blankHeader name size time).take 148).length = 148 := by
    rw [List.length_take, hblankLen]
    rfl
  have heq : header name size time = (blankHeader name size time).take 148 ++
      (high ++ (low ++ [0] ++ (blankHeader name size time).drop 160)) := by
    unfold header sprintfAt
    dsimp only
    rw [hprint, List.length_append, hhigh, hlowLen]
    simp only [List.append_assoc]
  have hlen : (header name size time).length = recordSize := by
    rw [heq]
    simp only [List.length_append, htake, hhigh, hlowLen, List.length_singleton, List.length_drop,
      hblankLen]
    rfl
  have hchecksum : checksumOf (header name size time) = fromOct high := by
    unfold checksumOf
    rw [heq, List.drop_left' htake, List.take_left' hhigh]
  have hblanked : recordSum (blanked (header name size time)) ≠ fromOct high := by
    have hle := recordSum_le (blanked (header name size time))
    have hsame : (blanked (header name size time)).length = 512 := by
      unfold blanked
      rw [List.length_append, List.length_append, List.length_take, List.length_replicate,
        List.length_drop, hlen]
      rfl
    rw [hsame] at hle
    omega
  unfold checkHeader
  dsimp only
  rw [gzread_append hlen, if_neg (not_not.mpr hlen), hchecksum, if_pos hblanked, ite_self]
  split
  · exact .inl rfl
  · exact .inr rfl

end Header

end FreeAmp.Ui
