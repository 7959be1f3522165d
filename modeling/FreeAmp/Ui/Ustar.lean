/-
  Ui/Ustar.lean --- the archives that a tar program writes, and where they are unpacked.

  A record is a header block, the contents, and zeros up to the next multiple of 512 bytes;
  two blocks of zeros end the archive.  `DecompressGZ` passes over 512 bytes too many where a
  file ends on such a multiple, sums its checksums over signed characters, and knows one of
  the two magics.  `Kept` is when none of this does harm, and then the files come back
  (`kept_comesBack`).
-/
import FreeAmp.Ui.ThemeZipName

namespace FreeAmp.Ui

open FreeAmp.Base FreeAmp.Lib

/-! ## The format -/

/-- A record: its header block, and what it is the header of. -/
structure Entry where
  header : Text
  name : Text
  contents : Text
  directory : Bool

/-- The sum that a checksum is, over characters without a sign. -/
def unsignedSum (r : Text) : Nat := (r.map UInt8.toNat).sum

/-- The magic and the version of the standard. -/
def ustarMagic : Text := bytes "ustar" ++ [0, 48, 48]

/-- A header as the standard describes it.  Of the fields that are of no consequence it only
says that the mode ends with a NUL and has no separator in it. -/
structure Standard (e : Entry) : Prop where
  length : e.header.length = recordSize
  name_nul : NulFree e.name
  name_fits : e.name.length ≤ 100
  name_field : e.header.take 100 = strField 100 e.name
  mode_field : ∃ m rest, (e.header.drop 100).take 8 = m ++ 0 :: rest ∧ m ≠ [] ∧ NulFree m ∧ 47 ∉ m
  size_field : ∃ digits, (e.header.drop 124).take 11 = digits ∧
    (∀ c ∈ digits, isODigit c = true) ∧ octValue digits = e.contents.length
  checksum_field : ∃ digits, (e.header.drop 148).take 8 = digits ++ [0, 32] ∧
    digits.length = 6 ∧ (∀ c ∈ digits, isODigit c = true) ∧
      octValue digits = unsignedSum (blanked e.header)
  file_flag : e.directory = false → IsFile e.header
  directory_flag : e.directory = true → typeflagOf e.header = dirType ∧ e.contents = []
  magic : (e.header.drop 257).take 8 = ustarMagic ∨ (e.header.drop 257).take 8 = strField 8 tmagic

namespace Entry

/-- How many zeros follow the contents. -/
def fill (e : Entry) : Nat := (512 - e.contents.length % 512) % 512

/-- The bytes of a record. -/
def bytes (e : Entry) : Text := e.header ++ e.contents ++ List.replicate e.fill 0

/-- The file that a record holds. -/
def source (e : Entry) : Source := ⟨e.name, e.contents⟩

end Entry

/-- The archive of some records. -/
def ustarArchive (entries : List Entry) : Text :=
  entries.flatMap Entry.bytes ++ List.replicate 1024 0

/-- The files of an archive. -/
def filesOf (entries : List Entry) : List Source :=
  (entries.filter fun e => !e.directory).map Entry.source

/-- The archives of a tar program: standard records, at most one of them a directory's, and no
two files of one name. -/
structure Tarred (entries : List Entry) : Prop where
  standard : ∀ e ∈ entries, Standard e
  directories : (entries.filter Entry.directory).length ≤ 1
  names : ((filesOf entries).map Source.name).Nodup

/-! ## What is read -/

/-- A header with the magic that `DecompressGZ` knows, in plain ASCII. -/
def Plain (e : Entry) : Prop :=
  (e.header.drop 257).take 8 = strField 8 tmagic ∧ ∀ c ∈ e.header, c < 128

/-- Every header that is come to is plain, the names and sizes are such as are read, and where
512 bytes too many are passed over they are the end of the archive or a directory record.
Whether that is so for the first record is what the flag says. -/
def Kept : Bool → List Entry → Prop
  | _, [] => True
  | true, e :: rest => e.directory = true ∧ Kept false rest
  | false, e :: rest =>
    if e.directory then (Plain e ∧ Kept false rest) ∨ (recordSum e.header = 0 ∧ rest = [])
    else Plain e ∧ e.name.length < 100 ∧ e.contents.length < 2147483648 ∧
      Kept (e.contents.length % 512 == 0) rest

/-! ## Headers -/

section Header

variable {e : Entry}

theorem length_blanked {r : Text} (h : r.length = recordSize) : (blanked r).length = recordSize := by
  rw [blanked, List.length_append, List.length_append, List.length_take, List.length_replicate,
    List.length_drop, h]
  rfl

/-- What stands in front of the checksum is not blanked. -/
theorem field_blanked {r : Text} (h : r.length = recordSize) {offset n : Nat}
    (hn : offset + n ≤ 148) :
    ((blanked r).drop offset).take n = (r.drop offset).take n := by
  have hsize : recordSize = 512 := by rfl
  have htake : ∀ s : Text, (s.drop offset).take n = ((s.take 148).drop offset).take n := by
    intro s
    rw [List.drop_take, List.take_take, Nat.min_eq_left (by omega)]
  have hfront : (blanked r).take 148 = r.take 148 := by
    have hlen : (r.take 148).length = 148 := by
      rw [List.length_take, h]
      omega
    rw [blanked, List.append_assoc, List.take_left' hlen]
  rw [htake (blanked r), hfront, ← htake r]

theorem drop_blanked {r : Text} (h : r.length = recordSize) {offset : Nat} (hn : 156 ≤ offset) :
    (blanked r).drop offset = r.drop offset := by
  have hsize : recordSize = 512 := by rfl
  have hlen : (r.take 148 ++ List.replicate 8 32).length = 156 := by
    simp only [List.length_append, List.length_take, List.length_replicate, h]
    omega
  obtain ⟨k, rfl⟩ := Nat.exists_eq_add_of_le hn
  rw [blanked, ← List.drop_drop, List.drop_left' hlen, List.drop_drop]

theorem typeflagOf_blanked {r : Text} (h : r.length = recordSize) :
    typeflagOf (blanked r) = typeflagOf r := by
  have hget : ∀ s : Text, typeflagOf s = (s.drop 156).getD 0 0 := by
    intro s
    rw [typeflagOf, List.getD_eq_getElem?_getD, List.getD_eq_getElem?_getD, List.getElem?_drop]
  rw [hget, hget, drop_blanked h (Nat.le_refl _)]

theorem fromOct_digits {digits : Text} (hne : digits ≠ [])
    (hall : ∀ c ∈ digits, isODigit c = true) :
    fromOct digits = toLong (UInt32.ofNat (octValue digits)) := by
  obtain ⟨c, rest, rfl⟩ := List.exists_cons_of_ne_nil hne
  have hc := isSpace_of_isODigit (hall c List.mem_cons_self)
  have hskip : (c :: rest).dropWhile isSpace = c :: rest :=
    List.dropWhile_cons_of_neg (Bool.eq_false_iff.mp hc)
  have htake : (c :: rest).takeWhile isODigit = c :: rest := List.takeWhile_eq_self_iff.mpr hall
  have hdrop : (c :: rest).dropWhile isODigit = [] := List.dropWhile_eq_nil_iff.mpr hall
  rw [fromOct, hskip]
  simp only [htake, hdrop]

theorem toLong_ofNat {n : Nat} (h : n < 2147483648) : toLong (UInt32.ofNat n) = n := by
  have hval : (UInt32.ofNat n).toNat = n := UInt32.toNat_ofNat_of_lt' (Nat.lt_trans h (by decide))
  rw [toLong, hval, if_pos h]

/-- The size that is read, in the lowest 32 bits of the size. -/
theorem sizeOf_standard (h : Standard e) :
    sizeOf (blanked e.header) = toLong (UInt32.ofNat e.contents.length) := by
  obtain ⟨digits, hfield, hall, hvalue⟩ := h.size_field
  have hsize : recordSize = 512 := by rfl
  have hne : digits ≠ [] := by
    intro hnil
    have hlen := congrArg List.length hfield
    rw [hnil, List.length_take, List.length_drop, h.length] at hlen
    simp [hsize] at hlen
  rw [sizeOf, field_blanked h.length (by decide), hfield, fromOct_digits hne hall, hvalue]

theorem sizeOf_of_lt (h : Standard e) (hsize : e.contents.length < 2147483648) :
    sizeOf (blanked e.header) = e.contents.length := by
  rw [sizeOf_standard h, toLong_ofNat hsize]

/-- The name that is read runs on into the mode where it fills its field. -/
theorem nameOf_standard (h : Standard e) :
    ∃ more, nameOf (blanked e.header) = e.name ++ more ∧ 47 ∉ more ∧
      (more = [] ↔ e.name.length < 100) := by
  have hname : (blanked e.header).take 100 = strField 100 e.name := by
    have hfield := @field_blanked e.header h.length 0 100 (by decide)
    rw [List.drop_zero, List.drop_zero] at hfield
    rw [hfield, h.name_field]
  obtain ⟨m, rest, hmode, hne, hnul, hsep⟩ := h.mode_field
  rw [← field_blanked h.length (by decide)] at hmode
  have hsplit : blanked e.header = strField 100 e.name ++ (m ++ 0 :: rest) ++
      (blanked e.header).drop 108 := by
    have h108 : (blanked e.header).take 108 = strField 100 e.name ++ (m ++ 0 :: rest) := by
      rw [← hname, ← hmode, ← List.take_add]
    rw [← h108, List.take_append_drop]
  by_cases hfits : e.name.length < 100
  · refine ⟨[], ?_, List.not_mem_nil, iff_of_true rfl hfits⟩
    obtain ⟨k, hk⟩ : ∃ k, 100 - e.name.length = k + 1 := ⟨99 - e.name.length, by omega⟩
    rw [nameOf, hsplit, strField, hk, List.replicate_succ]
    simp only [List.append_assoc, List.cons_append]
    rw [cStr_append_nul, h.name_nul.cStr_eq, List.append_nil]
  · refine ⟨m, ?_, hsep, iff_of_false hne hfits⟩
    have hfull : 100 - e.name.length = 0 := by omega
    rw [nameOf, hsplit, strField, hfull, List.replicate_zero, List.append_nil]
    simp only [List.append_assoc, List.cons_append]
    rw [cStr_append h.name_nul, cStr_append_nul, hnul.cStr_eq]

/-! ## Checksums -/

/-- The sum over signed characters is smaller by 256 for each that is negative. -/
theorem recordSum_eq (r : Text) :
    recordSum r + 256 * ((r.filter fun c => decide (128 ≤ c)).length : Int) = unsignedSum r := by
  induction r with
  | nil => simp [recordSum, unsignedSum]
  | cons c r ih =>
    have hsum : recordSum (c :: r) = charValue c + recordSum r := List.sum_cons
    have hunsigned : unsignedSum (c :: r) = c.toNat + unsignedSum r := List.sum_cons
    rw [hsum, hunsigned, charValue, List.filter_cons]
    by_cases hc : c < 128
    · have hnot : ¬ (128 ≤ c) := by
        rw [UInt8.not_le]
        exact hc
      rw [if_pos hc, if_neg (by simpa using hc)]
      push_cast
      omega
    · have hle : 128 ≤ c := UInt8.not_lt.mp hc
      rw [if_neg hc, if_pos (by simpa using hle), List.length_cons]
      push_cast
      omega

theorem recordSum_eq_iff (r : Text) :
    recordSum r = (unsignedSum r : Int) ↔ ∀ c ∈ r, c < 128 := by
  have heq := recordSum_eq r
  have hnil : ((r.filter fun c => decide (128 ≤ c)).length = 0) ↔ ∀ c ∈ r, c < 128 := by
    rw [List.length_eq_zero_iff, List.filter_eq_nil_iff]
    simp
  rw [← hnil]
  omega

/-- The checksum of a header, and what stands around it. -/
theorem header_split (h : Standard e) :
    ∃ digits, e.header = e.header.take 148 ++ (digits ++ [0, 32]) ++ e.header.drop 156 ∧
      digits.length = 6 ∧ (∀ c ∈ digits, isODigit c = true) ∧
      octValue digits = unsignedSum (blanked e.header) := by
  obtain ⟨digits, hfield, hlen, hall, hvalue⟩ := h.checksum_field
  refine ⟨digits, ?_, hlen, hall, hvalue⟩
  have htake : e.header.take 156 = e.header.take 148 ++ (e.header.drop 148).take 8 := by
    rw [← List.take_add]
  rw [← hfield, ← htake, List.take_append_drop]

theorem lt_of_isODigit {c : UInt8} (h : isODigit c = true) : 48 ≤ c.toNat ∧ c < 128 := by
  simp only [isODigit, Bool.and_eq_true, decide_eq_true_eq, UInt8.le_iff_toNat_le] at h
  have hlow : 48 ≤ c.toNat := h.1
  have hhigh : c.toNat ≤ 55 := h.2
  exact ⟨hlow, UInt8.lt_iff_toNat_lt.mpr (Nat.lt_of_le_of_lt hhigh (by decide))⟩

/-- The checksum field is in ASCII before and after it is blanked. -/
theorem blanked_ascii_iff (h : Standard e) :
    (∀ c ∈ blanked e.header, c < 128) ↔ ∀ c ∈ e.header, c < 128 := by
  obtain ⟨digits, hsplit, -, hall, -⟩ := header_split h
  have hdigits : ∀ c ∈ digits, c < 128 := fun c hc => (lt_of_isODigit (hall c hc)).2
  have hcore : (∀ c ∈ e.header, c < 128) ↔
      ∀ c ∈ e.header.take 148 ++ (digits ++ [0, 32]) ++ e.header.drop 156, c < 128 := by
    rw [← hsplit]
  rw [hcore]
  simp only [blanked, List.mem_append, List.mem_cons, List.not_mem_nil, or_false,
    List.mem_replicate]
  constructor
  · rintro hblank c ((hc | hc | rfl | rfl) | hc)
    · exact hblank c (.inl (.inl hc))
    · exact hdigits c hc
    · decide
    · decide
    · exact hblank c (.inr hc)
  · rintro hplain c ((hc | ⟨-, rfl⟩) | hc)
    · exact hplain c (.inl (.inl hc))
    · decide
    · exact hplain c (.inr hc)

theorem unsignedSum_append (r s : Text) : unsignedSum (r ++ s) = unsignedSum r + unsignedSum s := by
  rw [unsignedSum, List.map_append, List.sum_append]
  rfl

theorem unsignedSum_le (r : Text) : unsignedSum r ≤ 255 * r.length := by
  induction r with
  | nil => simp [unsignedSum]
  | cons c r ih =>
    have hc := c.toNat_lt
    have hcons : unsignedSum (c :: r) = c.toNat + unsignedSum r := List.sum_cons
    rw [hcons, List.length_cons]
    omega

theorem checksumOf_standard (h : Standard e) :
    checksumOf e.header = unsignedSum (blanked e.header) := by
  obtain ⟨digits, hfield, hlen, hall, hvalue⟩ := h.checksum_field
  have hbound := unsignedSum_le (blanked e.header)
  have hsize : (blanked e.header).length = 512 := length_blanked h.length
  have hsix : (e.header.drop 148).take 6 = digits := by
    have htake : ((e.header.drop 148).take 8).take 6 = digits := by
      rw [hfield, List.take_left' hlen]
    rwa [List.take_take] at htake
  have hne : digits ≠ [] := by
    intro hnil
    rw [hnil] at hlen
    cases hlen
  rw [checksumOf, hsix, fromOct_digits hne hall, hvalue, toLong_ofNat (by omega)]

/-- The sum of a plain header is not that of a block of zeros. -/
theorem recordSum_plain (h : Standard e) (hplain : Plain e) : recordSum e.header ≠ 0 := by
  obtain ⟨digits, hsplit, hlen, hall, -⟩ := header_split h
  have heq := (recordSum_eq_iff e.header).mpr hplain.2
  obtain ⟨c, rest, hdigits⟩ := List.exists_cons_of_ne_nil (List.ne_nil_of_length_pos (by omega) :
    digits ≠ [])
  have hc := (lt_of_isODigit (hall c (hdigits ▸ List.mem_cons_self))).1
  have hpos : c.toNat ≤ unsignedSum e.header := by
    rw [hsplit, hdigits]
    simp only [unsignedSum_append, List.cons_append]
    have hcons : unsignedSum (c :: (rest ++ [0, 32])) = c.toNat + unsignedSum (rest ++ [0, 32]) :=
      List.sum_cons
    omega
  omega

theorem magicOk_iff (h : Standard e) :
    magicOk e.header = true ↔ (e.header.drop 257).take 8 = strField 8 tmagic := by
  have hlast : e.header.getD 264 0 = ((e.header.drop 257).take 8).getD 7 0 := by
    rw [List.getD_eq_getElem?_getD, List.getD_eq_getElem?_getD, List.getElem?_take,
      List.getElem?_drop]
    rfl
  have hsplit : e.header.drop 257 = (e.header.drop 257).take 8 ++ (e.header.drop 257).drop 8 :=
    (List.take_append_drop 8 _).symm
  unfold magicOk
  rw [hlast, hsplit]
  rcases h.magic with hmagic | hmagic
  · rw [hmagic, List.take_left' (by rfl : ustarMagic.length = 8)]
    exact iff_of_false (by
      have hstr : ∀ t : Text, cStr (ustarMagic ++ t) = bytes "ustar" := fun t => rfl
      rw [hstr]
      decide) (by decide)
  · rw [hmagic, List.take_left' (by rfl : (strField 8 tmagic).length = 8)]
    exact iff_of_true (by
      have hstr : ∀ t : Text, cStr (strField 8 tmagic ++ t) = tmagic := fun t => rfl
      rw [hstr]
      decide) rfl

theorem checkHeader_plain (h : Standard e) (hplain : Plain e) (front rest : Text) :
    checkHeader (front ++ (e.header ++ rest)) front.length = .record (blanked e.header) := by
  have hsum := (recordSum_eq_iff (blanked e.header)).mpr ((blanked_ascii_iff h).mpr hplain.2)
  have hmagic := (magicOk_iff h).mpr hplain.1
  unfold checkHeader
  dsimp only
  rw [gzread_append h.length, if_neg (not_not.mpr h.length), if_neg (recordSum_plain h hplain),
    hmagic, checksumOf_standard h, hsum]
  simp

theorem checkHeader_not_plain (h : Standard e) (hplain : ¬ Plain e) (front rest : Text) :
    checkHeader (front ++ (e.header ++ rest)) front.length =
      if recordSum e.header = 0 then .last else .bad := by
  unfold checkHeader
  dsimp only
  rw [gzread_append h.length, if_neg (not_not.mpr h.length)]
  by_cases hzero : recordSum e.header = 0
  · rw [if_pos hzero, if_pos hzero]
  rw [if_neg hzero, if_neg hzero]
  by_cases hmagic : magicOk e.header = true
  · have hsum : recordSum (blanked e.header) ≠ checksumOf e.header := by
      rw [checksumOf_standard h]
      intro heq
      exact hplain ⟨(magicOk_iff h).mp hmagic,
        (blanked_ascii_iff h).mp ((recordSum_eq_iff _).mp heq)⟩
    rw [hmagic, if_pos hsum]
    simp
  · simp [hmagic]

end Header

/-! ## Rounds -/

section Rounds

variable {sys : System} {archive dest r : Text} {u : Unpacking}

/-- A file record that nothing keeps from it is unpacked. -/
theorem round_clear (hheader : checkHeader archive u.pos = .record r) (hfile : IsFile r)
    (hclear : Clear sys archive dest r u) :
    ∃ u', decompressRound sys archive dest u = .ok u' ∧ Unpacked sys archive dest r u u' := by
  have hcases := decompressRound_cases sys archive dest u
  generalize hround : decompressRound sys archive dest u = round at hcases
  cases hcases with
  | @unpacked r' u' hr hunpacked =>
    rw [hheader] at hr
    cases hr
    exact ⟨u', rfl, hunpacked⟩
  | passed hr hpassed =>
    rw [hheader] at hr
    cases hr
    exact absurd hpassed.isDirectory (dirType_of_isFile hfile)
  | last hlast =>
    rw [hheader] at hlast
    cases hlast
  | failed herr hfailed hnot hlast => exact absurd hclear (hnot _ hheader hfile)

theorem round_directory (hheader : checkHeader archive u.pos = .record r)
    (hdir : typeflagOf r = dirType) (hfirst : u.oneDirectory = false) :
    ∃ u', decompressRound sys archive dest u = .ok u' ∧ Passed r u u' := by
  have hfile : ¬ (typeflagOf r = regType ∨ typeflagOf r = aregType) :=
    fun hfile => dirType_of_isFile hfile hdir
  unfold decompressRound
  dsimp only
  rw [hheader]
  dsimp only
  rw [if_neg hfile, if_pos ⟨hdir, hfirst⟩]
  exact ⟨_, rfl, hdir, hfirst, rfl⟩

end Rounds

/-! ## A kept archive -/

theorem bytes_length {e : Entry} (h : Standard e) :
    e.bytes.length = recordSize + e.contents.length + e.fill := by
  simp only [Entry.bytes, List.length_append, List.length_replicate, h.length]

/-- The padding that is passed over behind a file, and what there is of it. -/
theorem padding_fill (e : Entry) :
    (padding e.contents.length).toNat =
      e.fill + (if e.contents.length % 512 == 0 then 512 else 0) := by
  have hmod : (e.contents.length : Int).tmod 512 = ((e.contents.length % 512 : Nat) : Int) := rfl
  rw [padding_eq, hmod, Entry.fill]
  by_cases hzero : e.contents.length % 512 = 0
  · simp [hzero]
  · have hfill : (512 - e.contents.length % 512) % 512 = 512 - e.contents.length % 512 :=
      Nat.mod_eq_of_lt (by omega)
    rw [hfill, if_neg (by simpa using hzero)]
    omega

theorem directory_bytes {e : Entry} (h : Standard e) (hdir : e.directory = true) :
    e.bytes.length = recordSize := by
  rw [bytes_length h, Entry.fill, (h.directory_flag hdir).2]
  rfl

theorem archive_front (front : Text) (e : Entry) (entries : List Entry) :
    front ++ ustarArchive (e :: entries) = (front ++ e.bytes) ++ ustarArchive entries := by
  simp only [ustarArchive, List.flatMap_cons, List.append_assoc]

theorem archive_header (front : Text) (e : Entry) (entries : List Entry) :
    front ++ ustarArchive (e :: entries) = front ++ (e.header ++
      (e.contents ++ (List.replicate e.fill 0 ++ ustarArchive entries))) := by
  rw [archive_front, Entry.bytes]
  simp only [List.append_assoc]

/-- The end of an archive, also where 512 bytes of it are passed over. -/
theorem checkHeader_ustarArchive_nil (front : Text) (passing : Bool) :
    checkHeader (front ++ ustarArchive []) (front.length + (if passing then 512 else 0)) =
      .last := by
  have hzeros : ustarArchive [] = List.replicate 512 0 ++ List.replicate 512 0 := by
    rw [ustarArchive, List.flatMap_nil, List.nil_append, List.replicate_append_replicate]
  rw [hzeros]
  cases passing with
  | false => exact checkHeader_end front (List.replicate 512 0)
  | true =>
    have hend := checkHeader_end (front ++ List.replicate 512 0) []
    rw [List.append_nil, List.append_assoc, List.length_append, List.length_replicate] at hend
    exact hend

section Entries

variable {sys : System} {dest front : Text} {e : Entry} {entries : List Entry} {u : Unpacking}

theorem round_entry_directory (he : Standard e) (hplain : Plain e) (hdir : e.directory = true)
    (hfirst : u.oneDirectory = false) (hpos : u.pos = front.length) :
    ∃ u', decompressRound sys (front ++ ustarArchive (e :: entries)) dest u = .ok u' ∧
      u'.oneDirectory = true ∧ u'.pos = (front ++ e.bytes).length ∧ u'.files = u.files := by
  have hheader := checkHeader_plain he hplain front
    (e.contents ++ (List.replicate e.fill 0 ++ ustarArchive entries))
  rw [← archive_header, ← hpos] at hheader
  have hflag : typeflagOf (blanked e.header) = dirType := by
    rw [typeflagOf_blanked he.length]
    exact (he.directory_flag hdir).1
  obtain ⟨u', hround, hpassed⟩ := @round_directory sys _ dest _ u hheader hflag hfirst
  refine ⟨u', hround, ?_⟩
  rw [hpassed.state, List.length_append, directory_bytes he hdir, ← hpos]
  exact ⟨rfl, rfl, rfl⟩

/-- What a round makes of a file that is kept. -/
structure TakenOut (dest front : Text) (e : Entry) (u u' : Unpacking) : Prop where
  oneDirectory : u'.oneDirectory = u.oneDirectory
  pos : u'.pos = (front ++ e.bytes).length + (if e.contents.length % 512 == 0 then 512 else 0)
  file : u'.files (dest ++ [dirMarker] ++ e.source.name) = some e.contents
  others : ∀ p, p ≠ dest ++ [dirMarker] ++ e.source.name → u'.files p = u.files p

theorem round_entry_file (he : Standard e) (hplain : Plain e) (hdir : e.directory = false)
    (hname : e.name.length < 100) (hsize : e.contents.length < 2147483648)
    (hworks : Works sys dest (e.source :: filesOf entries)) (hpos : u.pos = front.length) :
    ∃ u', decompressRound sys (front ++ ustarArchive (e :: entries)) dest u = .ok u' ∧
      TakenOut dest front e u u' := by
  have hheader := checkHeader_plain he hplain front
    (e.contents ++ (List.replicate e.fill 0 ++ ustarArchive entries))
  rw [← archive_header, ← hpos] at hheader
  have hfile : IsFile (blanked e.header) := by
    rw [IsFile, typeflagOf_blanked he.length]
    exact he.file_flag hdir
  have hsizeOf := sizeOf_of_lt he hsize
  have hpath : unpackPath dest (blanked e.header) = dest ++ [dirMarker] ++ e.source.name := by
    obtain ⟨more, hread, -, hmore⟩ := nameOf_standard he
    rw [unpackPath, hread, hmore.mpr hname, List.append_nil]
    rfl
  have hlength : (front ++ ustarArchive (e :: entries)).length =
      front.length + e.bytes.length + (ustarArchive entries).length := by
    rw [archive_front, List.length_append, List.length_append]
  have hclear : Clear sys (front ++ ustarArchive (e :: entries)) dest (blanked e.header) u := by
    refine ⟨?_, hworks.writes, ?_⟩
    · rw [hpath]
      exact hworks.opens _ List.mem_cons_self
    · rw [hsizeOf, hlength, bytes_length he, hpos, Int.toNat_natCast]
      omega
  obtain ⟨u', hround, hunpacked⟩ := round_clear hheader hfile hclear
  have hdata : dataOf (front ++ ustarArchive (e :: entries)) u.pos (blanked e.header) =
      e.contents := by
    have hfront : (front ++ e.header).length = u.pos + recordSize := by
      rw [List.length_append, he.length, hpos]
    rw [dataOf, hsizeOf, Int.toNat_natCast, archive_header, ← hfront, ← List.append_assoc]
    exact gzread_append rfl
  refine ⟨u', hround, hunpacked.oneDirectory, ?_, ?_, fun p hp => hunpacked.others p ?_⟩
  · rw [hunpacked.pos, hsizeOf, padding_fill, List.length_append, bytes_length he,
      Int.toNat_natCast, hpos]
    omega
  · have hthere := hunpacked.file
    rw [hpath, hdata] at hthere
    unfold flushed at hthere
    rw [hworks.closes] at hthere
    exact hthere
  · rw [hpath]
    exact hp

end Entries

/-- The records of a kept archive are read one after the other, up to the end of it. -/
theorem kept_run {sys : System} {dest : Text} : ∀ (entries : List Entry) (passing : Bool)
    (front : Text) {u : Unpacking}, (∀ e ∈ entries, Standard e) → Kept passing entries →
    Works sys dest (filesOf entries) →
    (entries.filter Entry.directory).length + (if u.oneDirectory then 1 else 0) ≤ 1 →
    ((filesOf entries).map Source.name).Nodup →
    u.pos = front.length + (if passing then 512 else 0) →
    ∃ fuel v, decompressLoop sys (front ++ ustarArchive entries) dest fuel u = some (.noErr, v) ∧
      (∀ f ∈ filesOf entries, v.files (dest ++ [dirMarker] ++ f.name) = some f.contents) ∧
      ∀ p, (∀ f ∈ filesOf entries, p ≠ dest ++ [dirMarker] ++ f.name) → v.files p = u.files p := by
  intro entries
  induction entries with
  | nil =>
    intro passing front u _ _ _ _ _ hpos
    have hend := checkHeader_ustarArchive_nil front passing
    rw [← hpos] at hend
    refine ⟨1, { u with pos := u.pos + recordSize, headers := u.headers ++ [u.pos] }, ?_,
      fun f hf => absurd hf List.not_mem_nil, fun p _ => rfl⟩
    rw [decompressLoop, decompressRound_end hend]
  | cons e entries ih =>
    intro passing front u hstandard hkept hworks hdirs hnames hpos
    have he := hstandard e List.mem_cons_self
    have hrest : ∀ e' ∈ entries, Standard e' :=
      fun e' he' => hstandard e' (List.mem_cons_of_mem e he')
    cases hdir : e.directory with
    | true =>
      have hfiles : filesOf (e :: entries) = filesOf entries := by
        simp [filesOf, hdir]
      have hcount : (entries.filter Entry.directory).length + 1 +
          (if u.oneDirectory then 1 else 0) ≤ 1 := by
        rw [List.filter_cons_of_pos hdir, List.length_cons] at hdirs
        exact hdirs
      rw [hfiles] at hworks hnames ⊢
      cases passing with
      | true =>
        obtain ⟨-, hkept⟩ := hkept
        rw [archive_front]
        refine ih false (front ++ e.bytes) hrest hkept hworks (by omega) hnames ?_
        rw [hpos, List.length_append, directory_bytes he hdir]
        rfl
      | false =>
        rw [if_neg (by decide), Nat.add_zero] at hpos
        have hfirst : u.oneDirectory = false := by
          cases hone : u.oneDirectory with
          | false => rfl
          | true =>
            rw [hone, if_pos rfl] at hcount
            omega
        rw [Kept, if_pos hdir] at hkept
        rcases hkept with ⟨hplain, hkept⟩ | ⟨hzero, rfl⟩
        · obtain ⟨u', hround, hone, hpos', hsame⟩ := @round_entry_directory sys dest _ _
            entries _ he hplain hdir hfirst hpos
          obtain ⟨fuel, v, hrun, hfound, hothers⟩ := ih false (front ++ e.bytes) hrest hkept
            hworks (by rw [hone, if_pos rfl]; omega) hnames hpos'
          refine ⟨fuel + 1, v, ?_, hfound, fun p hp => ?_⟩
          · rw [decompressLoop, hround, archive_front]
            exact hrun
          · rw [hothers p hp, hsame]
        · -- A record of zeros is taken for the end.
          have hplain : ¬ Plain e := fun hplain => recordSum_plain he hplain hzero
          have hheader := checkHeader_not_plain he hplain front
            (e.contents ++ (List.replicate e.fill 0 ++ ustarArchive []))
          rw [← archive_header, ← hpos, if_pos hzero] at hheader
          refine ⟨1, { u with pos := u.pos + recordSize, headers := u.headers ++ [u.pos] }, ?_,
            fun f hf => absurd hf List.not_mem_nil, fun p _ => rfl⟩
          rw [decompressLoop, decompressRound_end hheader]
    | false =>
      have hfiles : filesOf (e :: entries) = e.source :: filesOf entries := by
        simp [filesOf, hdir]
      rw [List.filter_cons_of_neg (by simp [hdir])] at hdirs
      rw [hfiles] at hworks hnames ⊢
      cases passing with
      | true =>
        rw [Kept, hdir] at hkept
        exact absurd hkept.1 (by decide)
      | false =>
        rw [if_neg (by decide), Nat.add_zero] at hpos
        rw [Kept, if_neg (by simp [hdir])] at hkept
        obtain ⟨hplain, hname, hsize, hkept⟩ := hkept
        obtain ⟨u', hround, htaken⟩ := round_entry_file he hplain hdir hname hsize hworks hpos
        rw [List.map_cons, List.nodup_cons] at hnames
        obtain ⟨fuel, v, hrun, hfound, hothers⟩ := ih _ (front ++ e.bytes) hrest hkept
          ⟨fun f hf => hworks.opens f (List.mem_cons_of_mem _ hf), hworks.writes,
            hworks.closes⟩ (by rw [htaken.oneDirectory]; exact hdirs) hnames.2 htaken.pos
        refine ⟨fuel + 1, v, ?_, ?_, ?_⟩
        · rw [decompressLoop, hround, archive_front]
          exact hrun
        · intro f hf
          rcases List.mem_cons.mp hf with rfl | hf
          · rw [hothers _ fun g hg heq => hnames.1 (List.mem_map.mpr
              ⟨g, hg, (List.append_cancel_left heq).symm⟩), htaken.file]
            rfl
          · exact hfound f hf
        · intro p hp
          rw [hothers p fun f hf => hp f (List.mem_cons_of_mem _ hf)]
          exact htaken.others p (hp _ List.mem_cons_self)

theorem kept_comesBack {sys : System} {dest : Text} {entries : List Entry} (h : Tarred entries)
    (hworks : Works sys dest (filesOf entries)) (hkept : Kept false entries) :
    ComesBack sys (ustarArchive entries) dest (filesOf entries) := by
  intro before _
  obtain ⟨fuel, v, hrun, hfound, hothers⟩ := kept_run (u := unpacking before) entries false []
    h.standard hkept hworks h.directories h.names rfl
  rw [List.nil_append] at hrun
  exact ⟨fuel, v, hrun, hfound, hothers⟩

end FreeAmp.Ui
