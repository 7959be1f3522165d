/-
  Ui/TarRecord.lean --- the records of a theme archive, from the head of
  `ui/freeamp/src/ThemeZip.cpp`.

  A record is a block of 512 bytes.  The fields of a header are taken from it by their
  offsets in `tar_record`; its checksum is the sum of its bytes as signed characters,
  with blanks for the checksum itself.  `checkHeader` is what `DecompressGZ` and
  `GetDescriptiveName` both do with the next record.
-/
import FreeAmp.Base.Database

namespace FreeAmp.Ui

open FreeAmp.Base FreeAmp.Lib

def recordSize : Nat := 512

/-- A `char` of the supported targets, as a number. -/
def charValue (c : UInt8) : Int := if c < 128 then c.toNat else (c.toNat : Int) - 256

/-- The sum over `charptr`. -/
def recordSum (r : Text) : Int := (r.map charValue).sum

/-! ## Octal numbers -/

def isODigit (c : UInt8) : Bool := decide (48 ≤ c) && decide (c ≤ 55)

/-- The number that octal digits spell. -/
def octValue (digits : Text) : Nat := digits.foldl (fun value c => value * 8 + digitVal c) 0

/-- `from_oct` on a field of so many bytes.  A `long` has 32 bits. -/
def fromOct (field : Text) : Int :=
  match field.dropWhile isSpace with
  | [] => -1
  | digits =>
    let value := toLong (UInt32.ofNat (octValue (digits.takeWhile isODigit)))
    match digits.dropWhile isODigit with
    | [] => value
    | c :: _ => if c ≠ 0 ∧ isSpace c = false then -1 else value

/-- The octal digits of a number. -/
def octDigits (n : Nat) : Text :=
  if n = 0 then [48] else (Nat.digits 8 n).reverse.map digitChar

/-- `sprintf(field, "%<width>o", n)` without the NUL at the end. -/
def printOct (width : Nat) (n : Nat) : Text :=
  let digits := octDigits n
  List.replicate (width - digits.length) 32 ++ digits

/-! ## Headers -/

def tmagic : Text := bytes "ustar  "

/-- `REGTYPE`, `AREGTYPE` and `DIRTYPE` -/
def regType : UInt8 := 48

def aregType : UInt8 := 0

def dirType : UInt8 := 53

/-- `header.name`, which ends at the first NUL. -/
def nameOf (r : Text) : Text := cStr r

/-- `from_oct(11, header.size)` -/
def sizeOf (r : Text) : Int := fromOct ((r.drop 124).take 11)

/-- `from_oct(6, header.chksum)` -/
def checksumOf (r : Text) : Int := fromOct ((r.drop 148).take 6)

/-- `header.typeflag` -/
def typeflagOf (r : Text) : UInt8 := r.getD 156 0

/-- `memcpy(header.chksum, CHKBLANKS, 8)` -/
def blanked (r : Text) : Text := r.take 148 ++ List.replicate 8 32 ++ r.drop 156

/-- `header.magic[7] == 0 && !strcmp(header.magic, TMAGIC)` -/
def magicOk (r : Text) : Bool := r.getD 264 0 == 0 && cStr (r.drop 257) == tmagic

/-- The padding behind the data of a file: `(iSize / 512 + 1) * 512 - iSize`. -/
def padding (size : Int) : Int := (size.tdiv 512 + 1) * 512 - size

/-- What the next record of an archive is found to be. -/
inductive Header where
  /-- there are no 512 bytes left -/
  | short
  /-- its sum is 0 -/
  | last
  /-- the magic or the checksum is wrong -/
  | bad
  /-- a header, with blanks for its checksum -/
  | record (r : Text)

/-- `gzread(pIn, buffer, n)` at a position: the bytes, fewer than `n` at the end. -/
def gzread (archive : Text) (pos n : Nat) : Text := (archive.drop pos).take n

/-- The sanity checks on the record at a position. -/
def checkHeader (archive : Text) (pos : Nat) : Header :=
  let r := gzread archive pos recordSize
  if r.length ≠ recordSize then .short
  else if recordSum r = 0 then .last
  else if !magicOk r then .bad
  else if recordSum (blanked r) ≠ checksumOf r then .bad
  else .record (blanked r)

/-! ## Reading octal numbers back -/

theorem isSpace_of_isODigit {c : UInt8} (h : isODigit c = true) : isSpace c = false := by
  refine isSpace_of_isDigit ?_
  simp only [isODigit, isDigit, Bool.and_eq_true, decide_eq_true_eq, UInt8.le_iff_toNat_le] at h ⊢
  exact ⟨h.1, Nat.le_trans h.2 (by decide)⟩

theorem isODigit_digitChar {d : Nat} (h : d < 8) : isODigit (digitChar d) = true := by
  have hval := toNat_digitChar (Nat.lt_of_lt_of_le h (by decide))
  simp only [isODigit, Bool.and_eq_true, decide_eq_true_eq, UInt8.le_iff_toNat_le, hval]
  refine ⟨Nat.le_add_right 48 d, ?_⟩
  show 48 + d ≤ 55
  omega

theorem octDigits_all (n : Nat) : ∀ c ∈ octDigits n, isODigit c = true := by
  unfold octDigits
  split
  · intro c hc
    rw [List.mem_singleton.mp hc]
    decide
  · intro c hc
    obtain ⟨d, hd, rfl⟩ := List.mem_map.mp hc
    exact isODigit_digitChar (Nat.digits_lt_base (by decide) (List.mem_reverse.mp hd))

theorem octDigits_ne_nil (n : Nat) : octDigits n ≠ [] := by
  unfold octDigits
  split
  · exact List.cons_ne_nil _ _
  · rename_i hn
    rw [ne_eq, List.map_eq_nil_iff, List.reverse_eq_nil_iff, Nat.digits_eq_nil_iff_eq_zero]
    exact hn

theorem octValue_append (s : Text) (c : UInt8) :
    octValue (s ++ [c]) = octValue s * 8 + digitVal c := by
  unfold octValue
  rw [List.foldl_append]
  rfl

theorem octValue_digits : ∀ ds : List Nat, (∀ d ∈ ds, d < 8) →
    octValue (ds.reverse.map digitChar) = Nat.ofDigits 8 ds := by
  intro ds
  induction ds with
  | nil => exact fun _ => rfl
  | cons d ds ih =>
    intro h
    rw [List.reverse_cons, List.map_append, List.map_singleton, octValue_append,
      ih fun e he => h e (List.mem_cons_of_mem d he),
      digitVal_digitChar (Nat.lt_of_lt_of_le (h d List.mem_cons_self) (by decide)),
      Nat.ofDigits_cons]
    exact (Nat.add_comm _ _).trans (congrArg (d + ·) (Nat.mul_comm _ 8))

theorem octValue_octDigits (n : Nat) : octValue (octDigits n) = n := by
  unfold octDigits
  split
  · rename_i hn
    rw [hn]
    rfl
  · rw [octValue_digits _ fun d hd => Nat.digits_lt_base (by decide) hd, Nat.ofDigits_digits]

theorem length_octDigits_le {n k : Nat} (hk : 0 < k) (h : n < 8 ^ k) :
    (octDigits n).length ≤ k := by
  unfold octDigits
  split
  · exact hk
  · rw [List.length_map, List.length_reverse]
    exact (Nat.digits_length_le_iff (by decide) n).mpr h

theorem length_printOct {n k : Nat} (hk : 0 < k) (h : n < 8 ^ k) : (printOct k n).length = k := by
  have hle := length_octDigits_le hk h
  unfold printOct
  rw [List.length_append, List.length_replicate]
  omega

theorem fromOct_printOct {n : Nat} (width : Nat) (h : n < 2147483648) :
    fromOct (printOct width n) = n := by
  obtain ⟨c, rest, hdigits⟩ := List.exists_cons_of_ne_nil (octDigits_ne_nil n)
  have hall := octDigits_all n
  have hskip : (printOct width n).dropWhile isSpace = c :: rest := by
    have hc : isSpace c = false := isSpace_of_isODigit (hall c (hdigits ▸ List.mem_cons_self))
    unfold printOct
    rw [List.dropWhile_append_of_pos, hdigits,
      List.dropWhile_cons_of_neg (Bool.eq_false_iff.mp hc)]
    intro d hd
    rw [(List.mem_replicate.mp hd).2]
    decide
  have htake : (c :: rest).takeWhile isODigit = octDigits n := by
    rw [← hdigits]
    exact List.takeWhile_eq_self_iff.mpr hall
  have hdrop : (c :: rest).dropWhile isODigit = [] := by
    rw [← hdigits]
    exact List.dropWhile_eq_nil_iff.mpr hall
  unfold fromOct
  rw [hskip]
  dsimp only
  rw [htake, hdrop, octValue_octDigits]
  unfold toLong
  have hval : (UInt32.ofNat n).toNat = n := UInt32.toNat_ofNat_of_lt' (Nat.lt_trans h (by decide))
  dsimp only
  rw [hval, if_pos h]

end FreeAmp.Ui
