/-
  Ui/UstarTour.lean --- the walk over a tar archive, and what is where in one.

  A `Tour` is the walk of a `DecompressGZ` that succeeds, as a list of places with the steps
  between them, and a `Place` one that a file is unpacked from.  The archive itself has at
  each multiple of 512 bytes a header, a block of the contents of a file, or the end (`spot`);
  two headers of which the first 264 bytes are the same are read alike (`header_agrees`).
-/
import FreeAmp.Ui.Ustar

namespace FreeAmp.Ui

open FreeAmp.Base FreeAmp.Lib

/-! ## The tour -/

section Tour

variable {archive : Text} {pos : Nat}

/-- Where the record behind the one at a place is looked for. -/
def stepOf (archive : Text) (pos : Nat) : Nat :=
  match checkHeader archive pos with
  | .record r => if IsFile r then nextOf pos r else pos + recordSize
  | _ => pos + recordSize

theorem le_stepOf (archive : Text) (pos : Nat) : pos + recordSize ≤ stepOf archive pos := by
  unfold stepOf
  cases checkHeader archive pos with
  | short | last | bad => exact Nat.le_refl _
  | record r =>
    simp only
    split
    · unfold nextOf
      omega
    · exact Nat.le_refl _

theorem stepOf_file {r : Text} (h : checkHeader archive pos = .record r) (hfile : IsFile r) :
    stepOf archive pos = nextOf pos r := by
  simp only [stepOf, h, if_pos hfile]

theorem stepOf_directory {r : Text} (h : checkHeader archive pos = .record r)
    (hdir : typeflagOf r = dirType) : stepOf archive pos = pos + recordSize := by
  have hfile : ¬ IsFile r := fun hfile => dirType_of_isFile hfile hdir
  simp only [stepOf, h, if_neg hfile]

/-- The places of the records that are read, and that of the end marker. -/
structure Tour (archive : Text) (pos : Nat) (rounds : List Nat) (last : Nat) : Prop where
  start : pos ∈ rounds ∨ pos = last
  ends : checkHeader archive last = .last
  behind : ∀ p ∈ rounds, pos ≤ p
  record : ∀ p ∈ rounds, ∃ r, checkHeader archive p = .record r ∧
    (IsFile r ∨ typeflagOf r = dirType)
  next : ∀ p ∈ rounds, stepOf archive p ∈ rounds ∨ stepOf archive p = last
  before : ∀ p ∈ rounds, stepOf archive p ≤ last
  apart : rounds.Pairwise fun p q => stepOf archive p ≤ q
  sum : pos + (rounds.map fun p => stepOf archive p - p).sum = last

theorem Tour.cons {r : Text} {rounds : List Nat} {last : Nat}
    (hrecord : checkHeader archive pos = .record r) (hkind : IsFile r ∨ typeflagOf r = dirType)
    (h : Tour archive (stepOf archive pos) rounds last) :
    Tour archive pos (pos :: rounds) last := by
  have hstep := le_stepOf archive pos
  have hlast : stepOf archive pos ≤ last := by
    rcases h.start with hmem | heq
    · exact Nat.le_trans (Nat.le_trans (Nat.le_add_right _ _) (le_stepOf _ _)) (h.before _ hmem)
    · exact Nat.le_of_eq heq
  refine ⟨.inl List.mem_cons_self, h.ends, ?_, ?_, ?_, ?_, ?_, ?_⟩
  · intro p hp
    rcases List.mem_cons.mp hp with rfl | hp
    · exact Nat.le_refl _
    · have hle := h.behind p hp
      omega
  · intro p hp
    rcases List.mem_cons.mp hp with rfl | hp
    · exact ⟨r, hrecord, hkind⟩
    · exact h.record p hp
  · intro p hp
    rcases List.mem_cons.mp hp with rfl | hp
    · exact h.start.imp_left (List.mem_cons_of_mem _)
    · exact (h.next p hp).imp_left (List.mem_cons_of_mem _)
  · intro p hp
    rcases List.mem_cons.mp hp with rfl | hp
    · exact hlast
    · exact h.before p hp
  · exact List.pairwise_cons.mpr ⟨fun q hq => h.behind q hq, h.apart⟩
  · have hsum := h.sum
    rw [List.map_cons, List.sum_cons]
    omega

theorem Walk.tour {headers : List Nat} (h : Walk archive pos headers) :
    ∃ rounds last, headers = rounds ++ [last] ∧ Tour archive pos rounds last := by
  induction h with
  | @last pos hlast =>
    refine ⟨[], pos, rfl, .inr rfl, hlast, ?_, ?_, ?_, ?_, List.Pairwise.nil, rfl⟩ <;>
      exact fun p hp => absurd hp List.not_mem_nil
  | @file pos r headers hrecord hfile _ _ ih =>
    obtain ⟨rounds, last, rfl, htour⟩ := ih
    rw [← stepOf_file hrecord hfile] at htour
    exact ⟨pos :: rounds, last, rfl, .cons hrecord (.inl hfile) htour⟩
  | @directory pos r headers hrecord hdir _ ih =>
    obtain ⟨rounds, last, rfl, htour⟩ := ih
    rw [← stepOf_directory hrecord hdir] at htour
    exact ⟨pos :: rounds, last, rfl, .cons hrecord (.inr hdir) htour⟩

theorem Tour.disjoint {rounds : List Nat} {last p q : Nat} (h : Tour archive pos rounds last)
    (hp : p ∈ rounds) (hq : q ∈ rounds) :
    p = q ∨ stepOf archive p ≤ q ∨ stepOf archive q ≤ p := by
  refine List.Pairwise.forall_of_forall_of_flip
    (R := fun p q => p = q ∨ stepOf archive p ≤ q ∨ stepOf archive q ≤ p)
    (fun p _ => .inl rfl) (h.apart.imp fun hle => .inr (.inl hle))
    (h.apart.imp fun hle => .inr (.inr hle)) hp hq

/-- All the places are multiples of 512 if all the steps are. -/
theorem Walk.aligned {headers : List Nat} (h : Walk archive pos headers) (hpos : pos % 512 = 0)
    (hsteps : ∀ p ∈ headers, (stepOf archive p - p) % 512 = 0) : ∀ p ∈ headers, p % 512 = 0 := by
  have hnext : ∀ {p}, p % 512 = 0 → (stepOf archive p - p) % 512 = 0 →
      stepOf archive p % 512 = 0 := by
    intro p hp hstep
    have hle := le_stepOf archive p
    omega
  induction h with
  | last hlast =>
    intro p hp
    rw [List.mem_singleton.mp hp]
    exact hpos
  | file hrecord hfile _ _ ih =>
    have hstep := hnext hpos (hsteps _ List.mem_cons_self)
    rw [stepOf_file hrecord hfile] at hstep
    intro p hp
    rcases List.mem_cons.mp hp with rfl | hp
    · exact hpos
    · exact ih hstep (fun q hq => hsteps q (List.mem_cons_of_mem _ hq)) p hp
  | directory hrecord hdir _ ih =>
    have hstep := hnext hpos (hsteps _ List.mem_cons_self)
    rw [stepOf_directory hrecord hdir] at hstep
    intro p hp
    rcases List.mem_cons.mp hp with rfl | hp
    · exact hpos
    · exact ih hstep (fun q hq => hsteps q (List.mem_cons_of_mem _ hq)) p hp

end Tour

/-! ## The places of files -/

/-- A file is unpacked from a place. -/
structure Place (archive : Text) (pos : Nat) (name contents r : Text) : Prop where
  record : checkHeader archive pos = .record r
  isFile : IsFile r
  named : fileNameOf (nameOf r) = name
  sized : (sizeOf r).toNat = contents.length
  data : dataOf archive pos r = contents

/-- A file that is there in the end was there before, or has a place on the walk. -/
theorem Run.place {sys : System} {archive dest : Text} {u v : Unpacking}
    {err : Error} (hcloses : ∀ n, sys.flush n = none) (h : Run sys archive dest u err v)
    (hnone : err = .noErr) :
    ∃ headers, Walk archive u.pos headers ∧ ∀ name contents : Text,
      v.files (dest ++ [dirMarker] ++ name) = some contents →
        u.files (dest ++ [dirMarker] ++ name) = some contents ∨
          ∃ pos ∈ headers, ∃ r, Place archive pos name contents r := by
  induction h with
  | @unpacked r u u' v err hrecord hunpacked _ ih =>
    obtain ⟨headers, hwalk, hplace⟩ := ih hnone
    rw [hunpacked.pos] at hwalk
    refine ⟨_, .file hrecord hunpacked.isFile hunpacked.full hwalk, fun name contents hv => ?_⟩
    rcases hplace name contents hv with hu | ⟨pos, hpos, hr⟩
    · by_cases hpath : dest ++ [dirMarker] ++ name = unpackPath dest r
      · have hfile := hunpacked.file
        unfold flushed at hfile
        rw [hcloses] at hfile
        rw [hpath, hfile] at hu
        have hdata : dataOf archive u.pos r = contents := Option.some.inj hu
        refine .inr ⟨u.pos, List.mem_cons_self, r, hrecord, hunpacked.isFile, ?_, ?_, hdata⟩
        · exact (List.append_cancel_left hpath).symm
        · rw [← hunpacked.full, hdata]
      · rw [hunpacked.others _ hpath] at hu
        exact .inl hu
    · exact .inr ⟨pos, List.mem_cons_of_mem _ hpos, hr⟩
  | passed hrecord hpassed _ ih =>
    obtain ⟨headers, hwalk, hplace⟩ := ih hnone
    rw [hpassed.state] at hwalk hplace
    refine ⟨_, .directory hrecord hpassed.isDirectory hwalk, fun name contents hv => ?_⟩
    exact (hplace name contents hv).imp_right fun ⟨pos, hpos, hr⟩ => ⟨pos, List.mem_cons_of_mem _ hpos, hr⟩
  | last hlast => exact ⟨_, .last hlast, fun _ _ hv => .inl hv⟩
  | failed herr _ => exact absurd hnone herr

/-! ## The layout of an archive -/

section Layout

variable {entries : List Entry} {i : Nat} {e : Entry}

/-- Where the `i`-th record is. -/
def offsetOf (entries : List Entry) (i : Nat) : Nat :=
  ((entries.take i).flatMap Entry.bytes).length

theorem offsetOf_succ (h : entries[i]? = some e) :
    offsetOf entries (i + 1) = offsetOf entries i + e.bytes.length := by
  rw [offsetOf, offsetOf, List.take_add_one, h]
  simp

/-- An archive in front of a record, the record, and the rest. -/
theorem archive_split (h : entries[i]? = some e) :
    ∃ front rest, front.length = offsetOf entries i ∧ ustarArchive entries =
      front ++ (e.header ++ (e.contents ++ (List.replicate e.fill 0 ++ rest))) := by
  obtain ⟨hi, rfl⟩ := List.getElem?_eq_some_iff.mp h
  refine ⟨(entries.take i).flatMap Entry.bytes,
    (entries.drop (i + 1)).flatMap Entry.bytes ++ List.replicate 1024 0, rfl, ?_⟩
  have hsplit : entries = entries.take i ++ entries[i] :: entries.drop (i + 1) := by
    rw [← List.drop_eq_getElem_cons hi, List.take_append_drop]
  rw [ustarArchive]
  conv => lhs; rw [hsplit]
  simp only [List.flatMap_append, List.flatMap_cons, Entry.bytes, List.append_assoc]

theorem bytes_aligned (h : Standard e) : e.bytes.length % 512 = 0 := by
  have hsize : recordSize = 512 := by rfl
  rw [bytes_length h, Entry.fill, hsize]
  omega

theorem offsetOf_aligned (h : ∀ e ∈ entries, Standard e) (i : Nat) :
    offsetOf entries i % 512 = 0 := by
  have hall : ∀ l : List Entry, (∀ e ∈ l, Standard e) →
      (l.flatMap Entry.bytes).length % 512 = 0 := by
    intro l
    induction l with
    | nil => simp
    | cons e l ih =>
      intro hl
      have he := bytes_aligned (hl e List.mem_cons_self)
      have hrest := ih fun e' he' => hl e' (List.mem_cons_of_mem e he')
      rw [List.flatMap_cons, List.length_append]
      omega
  exact hall _ fun e he => h e (List.mem_of_mem_take he)

/-- What is at a multiple of 512: a header, a block of the contents of a file, or the end. -/
inductive Spot (entries : List Entry) (pos : Nat) : Prop where
  | header {i : Nat} {e : Entry} : entries[i]? = some e → pos = offsetOf entries i →
      Spot entries pos
  | content {i j : Nat} {e : Entry} : entries[i]? = some e → 512 * j < e.contents.length →
      pos = offsetOf entries i + recordSize + 512 * j → Spot entries pos
  | ending : offsetOf entries entries.length ≤ pos → Spot entries pos

theorem spot (h : ∀ e ∈ entries, Standard e) {pos : Nat} (hpos : pos % 512 = 0) :
    Spot entries pos := by
  have hbelow : ∀ n ≤ entries.length, pos < offsetOf entries n → Spot entries pos := by
    intro n
    induction n with
    | zero =>
      intro _ hlt
      simp [offsetOf] at hlt
    | succ n ih =>
      intro hn hlt
      by_cases hbefore : pos < offsetOf entries n
      · exact ih (Nat.le_of_succ_le hn) hbefore
      · obtain ⟨e, he⟩ : ∃ e, entries[n]? = some e := ⟨_, List.getElem?_eq_getElem hn⟩
        have hstandard := h e (List.mem_of_getElem? he)
        have haligned := offsetOf_aligned h n
        have hsize : recordSize = 512 := by rfl
        rw [offsetOf_succ he, bytes_length hstandard, Entry.fill] at hlt
        obtain ⟨k, hk⟩ : ∃ k, pos = offsetOf entries n + 512 * k :=
          ⟨(pos - offsetOf entries n) / 512, by omega⟩
        cases k with
        | zero => exact .header he hk
        | succ j =>
          refine .content (j := j) he ?_ (by omega)
          omega
  by_cases hlt : pos < offsetOf entries entries.length
  · exact hbelow entries.length (Nat.le_refl _) hlt
  · exact .ending (Nat.le_of_not_lt hlt)

/-! ## Windows -/

/-- The fields of a header up to its magic, without the NUL that ends it. -/
def window (archive : Text) (pos : Nat) : Text := gzread archive pos 264

theorem gzread_gzread {archive : Text} {pos m n k : Nat} (h : m + k ≤ n) :
    ((gzread archive pos n).drop m).take k = gzread archive (pos + m) k := by
  rw [gzread, gzread, List.drop_take, List.take_take, List.drop_drop, Nat.min_eq_left (by omega)]

theorem window_record (archive : Text) (pos : Nat) :
    window archive pos = (gzread archive pos recordSize).take 264 := by
  have hsize : recordSize = 512 := by rfl
  rw [window, gzread, gzread, List.take_take, Nat.min_eq_left (by omega)]

theorem window_header (h : Standard e) (he : entries[i]? = some e) :
    window (ustarArchive entries) (offsetOf entries i) = e.header.take 264 := by
  obtain ⟨front, rest, hfront, harchive⟩ := archive_split he
  rw [window_record, harchive, ← hfront, gzread_append h.length]

theorem contents_at (h : Standard e) (he : entries[i]? = some e) :
    gzread (ustarArchive entries) (offsetOf entries i + recordSize) (e.contents.length + e.fill) =
      e.contents ++ List.replicate e.fill 0 := by
  obtain ⟨front, rest, hfront, harchive⟩ := archive_split he
  have hlen : (front ++ e.header).length = offsetOf entries i + recordSize := by
    rw [List.length_append, hfront, h.length]
  have hbytes : (e.contents ++ List.replicate e.fill (0 : UInt8)).length =
      e.contents.length + e.fill := by
    rw [List.length_append, List.length_replicate]
  rw [harchive, ← hlen, ← List.append_assoc front, ← List.append_assoc e.contents]
  exact gzread_append hbytes

/-- A window in the contents of a file that ends with something other than a zero. -/
theorem window_content (h : Standard e) (he : entries[i]? = some e) {j : Nat}
    (hj : 512 * j < e.contents.length)
    (hmagic : (window (ustarArchive entries)
      (offsetOf entries i + recordSize + 512 * j)).getD 263 0 ≠ 0) :
    512 * j + 264 ≤ e.contents.length ∧
      window (ustarArchive entries) (offsetOf entries i + recordSize + 512 * j) =
        (e.contents.drop (512 * j)).take 264 := by
  have hfill : 512 * j + 264 ≤ e.contents.length + e.fill := by
    unfold Entry.fill
    omega
  have hwindow : window (ustarArchive entries) (offsetOf entries i + recordSize + 512 * j) =
      ((e.contents ++ List.replicate e.fill 0).drop (512 * j)).take 264 := by
    rw [← contents_at h he, gzread_gzread hfill, window]
  by_cases hroom : 512 * j + 264 ≤ e.contents.length
  · refine ⟨hroom, ?_⟩
    rw [hwindow, List.drop_append_of_le_length (by omega), List.take_append_of_le_length]
    rw [List.length_drop]
    omega
  · refine absurd ?_ hmagic
    rw [hwindow, List.getD_eq_getElem?_getD, List.getElem?_take_of_lt (by decide),
      List.getElem?_drop, List.getElem?_append_right (by omega), List.getElem?_replicate]
    split <;> simp

end Layout

/-! ## Headers that agree -/

section Agree

variable {archive r : Text} {pos : Nat} {e : Entry}

theorem checkHeader_record (h : checkHeader archive pos = .record r) :
    (gzread archive pos recordSize).length = recordSize ∧
      magicOk (gzread archive pos recordSize) = true ∧
        r = blanked (gzread archive pos recordSize) := by
  unfold checkHeader at h
  dsimp only at h
  split at h
  · cases h
  rename_i hlength
  split at h
  · cases h
  split at h
  · cases h
  rename_i hmagic
  split at h
  · cases h
  · cases h
    exact ⟨not_not.mp hlength, by simpa using hmagic, rfl⟩

theorem magic_of_magicOk {r : Text} (h : magicOk r = true) :
    (r.drop 257).take 7 = tmagic ∧ r.getD 264 0 = 0 := by
  simp only [magicOk, Bool.and_eq_true, beq_iff_eq] at h
  refine ⟨?_, h.1⟩
  have hsplit : r.drop 257 = cStr (r.drop 257) ++ (r.drop 257).dropWhile (· != 0) := by
    rw [cStr, List.takeWhile_append_dropWhile]
  have hlen : tmagic.length = 7 := by rfl
  rw [hsplit, h.2, List.take_left' hlen]

theorem drop_window (r : Text) : (r.take 264).drop 257 = (r.drop 257).take 7 := by
  rw [List.drop_take]

theorem window_magic (h : checkHeader archive pos = .record r) :
    (window archive pos).getD 263 0 ≠ 0 := by
  have hmagic := (magic_of_magicOk (checkHeader_record h).2.1).1
  have hget : (window archive pos).getD 263 0 =
      (((gzread archive pos recordSize).drop 257).take 7).getD 6 0 := by
    rw [window_record, ← drop_window, List.getD_eq_getElem?_getD, List.getD_eq_getElem?_getD,
      List.getElem?_drop]
  rw [hget, hmagic]
  decide

/-- The window, and the NUL behind it, have all of the name. -/
theorem nameOf_window {r : Text} (h : r.length = recordSize) (hnul : r.getD 264 0 = 0) :
    nameOf (blanked r) = cStr (blanked (r.take 264)) := by
  have hsize : recordSize = 512 := by rfl
  have h264 : 264 < r.length := by omega
  have hbyte : r[264] = 0 := by
    rwa [List.getD_eq_getElem?_getD, List.getElem?_eq_getElem h264, Option.getD_some] at hnul
  have htail : r.drop 156 = (r.take 264).drop 156 ++ 0 :: r.drop 265 := by
    have hrest : r.drop 264 = 0 :: r.drop 265 := by
      rw [List.drop_eq_getElem_cons h264, hbyte]
    rw [← hrest, List.drop_take]
    have hjoin := List.take_append_drop 108 (r.drop 156)
    rw [List.drop_drop] at hjoin
    exact hjoin.symm
  rw [nameOf, blanked, blanked, htail, List.take_take, Nat.min_eq_left (by decide),
    ← List.append_assoc, cStr_append_nul]

/-- A header with the window of a record is read under the same name, and has its flag. -/
theorem header_agrees (h : checkHeader archive pos = .record r) (he : Standard e)
    (hwindow : e.header.take 264 = window archive pos) :
    nameOf (blanked e.header) = nameOf r ∧ typeflagOf e.header = typeflagOf r := by
  obtain ⟨hlength, hmagicOk, rfl⟩ := checkHeader_record h
  obtain ⟨hmagic, hnul⟩ := magic_of_magicOk hmagicOk
  rw [window_record] at hwindow
  have hknown : (e.header.drop 257).take 8 = strField 8 tmagic := by
    refine he.magic.resolve_left fun hposix => ?_
    have hseven : ((e.header.drop 257).take 8).take 7 = tmagic := by
      rw [List.take_take, Nat.min_eq_left (by decide), ← drop_window, hwindow, drop_window, hmagic]
    rw [hposix] at hseven
    exact absurd hseven (by decide)
  have hnul' := (magic_of_magicOk ((magicOk_iff he).mpr hknown)).2
  have hflag : ∀ s : Text, typeflagOf s = (s.take 264).getD 156 0 := by
    intro s
    rw [typeflagOf, List.getD_eq_getElem?_getD, List.getD_eq_getElem?_getD,
      List.getElem?_take_of_lt (by decide)]
  constructor
  · rw [nameOf_window he.length hnul', nameOf_window hlength hnul, hwindow]
  · rw [typeflagOf_blanked hlength, hflag, hflag (gzread _ _ _), hwindow]

end Agree

/-! ## Steps -/

section Steps

variable {archive r name contents : Text} {pos i : Nat} {entries : List Entry} {e : Entry}

theorem step_file (h : checkHeader archive pos = .record r) (hfile : IsFile r) :
    stepOf archive pos - pos = recordSize + (sizeOf r).toNat + (padding (sizeOf r)).toNat := by
  rw [stepOf_file h hfile, nextOf]
  omega

theorem tmod_nonpos_of_neg {z : Int} (h : ¬ 0 ≤ z) : z.tmod 512 ≤ 0 := by
  have hneg := Int.tmod_nonneg 512 (show 0 ≤ -z by omega)
  rw [Int.neg_tmod] at hneg
  omega

/-- The step from the place of a file is at least as long as its record, and 512 bytes longer
if the size is a multiple of 512. -/
theorem Place.step (h : Place archive pos name e.contents r) :
    recordSize + e.contents.length + e.fill + (if e.contents.length % 512 == 0 then 512 else 0) ≤
      stepOf archive pos - pos := by
  have hfill := padding_fill e
  rw [step_file h.record h.isFile, h.sized]
  by_cases hsign : 0 ≤ sizeOf r
  · have hsize : sizeOf r = e.contents.length := by
      rw [← h.sized, Int.toNat_of_nonneg hsign]
    rw [hsize]
    omega
  · have hzero : e.contents.length = 0 := by
      rw [← h.sized]
      omega
    have hmod := tmod_nonpos_of_neg hsign
    have hnone : e.fill = 0 := by simp [Entry.fill, hzero]
    rw [padding_eq, hzero, hnone, if_pos (by simp)]
    omega

/-- A step that is not a multiple of 512 comes from a negative size. -/
theorem step_odd (h : checkHeader archive pos = .record r)
    (hodd : (stepOf archive pos - pos) % 512 ≠ 0) :
    IsFile r ∧ (sizeOf r).toNat = 0 ∧ 1025 ≤ stepOf archive pos - pos := by
  have hsize : recordSize = 512 := by rfl
  by_cases hfile : IsFile r
  · rw [step_file h hfile, padding_eq] at hodd ⊢
    have hdiv := Int.mul_tdiv_add_tmod (sizeOf r) 512
    by_cases hsign : 0 ≤ sizeOf r
    · have hmod := Int.tmod_nonneg 512 hsign
      have hlt := Int.tmod_lt_of_pos (sizeOf r) (show (0 : Int) < 512 by decide)
      omega
    · have hmod := tmod_nonpos_of_neg hsign
      refine ⟨hfile, by omega, ?_⟩
      omega
  · have hstep : stepOf archive pos = pos + recordSize := by
      simp only [stepOf, h, if_neg hfile]
    rw [hstep] at hodd
    omega

theorem checkHeader_offset (h : Standard e) (he : entries[i]? = some e) :
    (Plain e ∧ checkHeader (ustarArchive entries) (offsetOf entries i) =
      .record (blanked e.header)) ∨
    (¬ Plain e ∧ checkHeader (ustarArchive entries) (offsetOf entries i) =
      if recordSum e.header = 0 then .last else .bad) := by
  obtain ⟨front, rest, hfront, harchive⟩ := archive_split he
  rw [harchive, ← hfront]
  by_cases hplain : Plain e
  · exact .inl ⟨hplain, checkHeader_plain h hplain front _⟩
  · exact .inr ⟨hplain, checkHeader_not_plain h hplain front _⟩

theorem checkHeader_offset_record (h : Standard e) (he : entries[i]? = some e)
    (hrecord : checkHeader (ustarArchive entries) (offsetOf entries i) = .record r) :
    Plain e ∧ r = blanked e.header := by
  rcases checkHeader_offset h he with ⟨hplain, hheader⟩ | ⟨-, hheader⟩
  · rw [hheader] at hrecord
    cases hrecord
    exact ⟨hplain, rfl⟩
  · rw [hheader] at hrecord
    split at hrecord <;> cases hrecord

theorem stepOf_offset (h : Standard e) (he : entries[i]? = some e) (hdir : e.directory = false)
    (hlt : e.contents.length < 2147483648)
    (hrecord : checkHeader (ustarArchive entries) (offsetOf entries i) = .record r) :
    stepOf (ustarArchive entries) (offsetOf entries i) =
      offsetOf entries (i + 1) + (if e.contents.length % 512 == 0 then 512 else 0) := by
  obtain ⟨-, rfl⟩ := checkHeader_offset_record h he hrecord
  have hfile : IsFile (blanked e.header) := by
    rw [IsFile, typeflagOf_blanked h.length]
    exact h.file_flag hdir
  rw [stepOf_file hrecord hfile, nextOf, sizeOf_of_lt h hlt, padding_fill, offsetOf_succ he,
    bytes_length h, Int.toNat_natCast]
  omega

/-- The step from a directory that is read where it is. -/
theorem stepOf_offset_directory (h : Standard e) (he : entries[i]? = some e)
    (hdir : e.directory = true)
    (hrecord : checkHeader (ustarArchive entries) (offsetOf entries i) = .record r) :
    stepOf (ustarArchive entries) (offsetOf entries i) = offsetOf entries (i + 1) := by
  obtain ⟨-, rfl⟩ := checkHeader_offset_record h he hrecord
  have hflag : typeflagOf (blanked e.header) = dirType := by
    rw [typeflagOf_blanked h.length]
    exact (h.directory_flag hdir).1
  rw [stepOf_directory hrecord hflag, offsetOf_succ he, directory_bytes h hdir]

theorem checkHeader_ending (entries : List Entry) :
    checkHeader (ustarArchive entries) (offsetOf entries entries.length) = .last := by
  have hzeros : ustarArchive entries = entries.flatMap Entry.bytes ++
      (List.replicate recordSize 0 ++ List.replicate 512 0) := by
    have hsize : recordSize = 512 := by rfl
    rw [ustarArchive, List.replicate_append_replicate, hsize]
  rw [offsetOf, List.take_length, hzeros]
  exact checkHeader_end _ _

/-- A walk from a record stays at the records, unless it passes a file whose size is a
multiple of 512. -/
theorem walk_records (hstandard : ∀ e ∈ entries, Standard e)
    (hsizes : ∀ e ∈ entries, e.directory = false → e.contents.length < 2147483648)
    {headers : List Nat} (h : Walk (ustarArchive entries) pos headers)
    (hpos : ∃ i ≤ entries.length, pos = offsetOf entries i) :
    (∃ p ∈ headers, ∃ i e, entries[i]? = some e ∧ e.directory = false ∧
      e.contents.length % 512 = 0 ∧ p = offsetOf entries i ∧
        ∃ r, checkHeader (ustarArchive entries) p = .record r) ∨
    ∀ p ∈ headers, ∃ i ≤ entries.length, p = offsetOf entries i := by
  have hentry : ∀ {i r}, i ≤ entries.length →
      checkHeader (ustarArchive entries) (offsetOf entries i) = .record r →
      ∃ e, entries[i]? = some e ∧ Standard e ∧ r = blanked e.header := by
    intro i r hi hrecord
    rcases Nat.lt_or_eq_of_le hi with hlt | rfl
    · have he := List.getElem?_eq_getElem hlt
      have hstd := hstandard _ (List.mem_of_getElem? he)
      exact ⟨_, he, hstd, (checkHeader_offset_record hstd he hrecord).2⟩
    · rw [checkHeader_ending] at hrecord
      cases hrecord
  induction h with
  | last hlast =>
    refine .inr fun p hp => ?_
    rw [List.mem_singleton.mp hp]
    exact hpos
  | @file pos r headers hrecord hfile _ _ ih =>
    obtain ⟨i, hi, rfl⟩ := hpos
    obtain ⟨e, he, hstd, rfl⟩ := hentry hi hrecord
    have hdir : e.directory = false := by
      cases hdir : e.directory with
      | false => rfl
      | true =>
        rw [IsFile, typeflagOf_blanked hstd.length, (hstd.directory_flag hdir).1] at hfile
        exact absurd hfile (by decide)
    have hlt := (List.getElem?_eq_some_iff.mp he).1
    have hstep := stepOf_offset hstd he hdir (hsizes e (List.mem_of_getElem? he) hdir) hrecord
    rw [stepOf_file hrecord hfile] at hstep
    by_cases hmult : e.contents.length % 512 = 0
    · exact .inl ⟨_, List.mem_cons_self, i, e, he, hdir, hmult, rfl, _, hrecord⟩
    · rw [if_neg (by simpa using hmult), Nat.add_zero] at hstep
      rcases ih ⟨i + 1, hlt, hstep⟩ with ⟨p, hp, hlost⟩ | hall
      · exact .inl ⟨p, List.mem_cons_of_mem _ hp, hlost⟩
      · refine .inr fun p hp => ?_
        rcases List.mem_cons.mp hp with rfl | hp
        · exact ⟨i, hi, rfl⟩
        · exact hall p hp
  | @directory pos r headers hrecord hflag _ ih =>
    obtain ⟨i, hi, rfl⟩ := hpos
    obtain ⟨e, he, hstd, rfl⟩ := hentry hi hrecord
    have hdir : e.directory = true := by
      cases hdir : e.directory with
      | true => rfl
      | false =>
        have hfile := hstd.file_flag hdir
        rw [IsFile, ← typeflagOf_blanked hstd.length, hflag] at hfile
        exact absurd hfile (by decide)
    have hlt := (List.getElem?_eq_some_iff.mp he).1
    have hstep := stepOf_offset_directory hstd he hdir hrecord
    rw [stepOf_directory hrecord hflag] at hstep
    rcases ih ⟨i + 1, hlt, hstep⟩ with ⟨p, hp, hlost⟩ | hall
    · exact .inl ⟨p, List.mem_cons_of_mem _ hp, hlost⟩
    · refine .inr fun p hp => ?_
      rcases List.mem_cons.mp hp with rfl | hp
      · exact ⟨i, hi, rfl⟩
      · exact hall p hp

end Steps

end FreeAmp.Ui
