/-
  Base/ResumeDatabase.lean --- what comes back from the resume database.

  A record has the lengths of its numbers as `%ld` prints them and the numbers as
  `ost << uint32` does, and from `2^31` on these differ.  So

      loadItem_record_iff      a record comes back when all its numbers are below `2^31`,
                               and only then
      load_after_save_iff      the same of a list of items that is saved and loaded
-/
import FreeAmp.Base.DownloadItem

namespace FreeAmp.Base

open FreeAmp.Lib

/-! ## One record -/

/-- The string fields that are saved have no NUL in them. -/
def DownloadItem.NulFree (item : DownloadItem) : Prop :=
  ∀ s ∈ [item.src, item.cookie, item.dest, item.playlist, item.mTime, item.metadata.artist,
    item.metadata.album, item.metadata.title, item.metadata.comment, item.metadata.genre],
    Base.NulFree s

instance (item : DownloadItem) : Decidable item.NulFree :=
  inferInstanceAs (Decidable (∀ s ∈ [item.src, item.cookie, item.dest, item.playlist,
    item.mTime, item.metadata.artist, item.metadata.album, item.metadata.title,
    item.metadata.comment, item.metadata.genre], Base.NulFree s))

/-- The numbers of an item that is saved. -/
def DownloadItem.numbers (item : DownloadItem) : List UInt32 :=
  [item.bytesTotal, item.bytesReceived, item.metadata.year, item.metadata.track,
    item.metadata.time, item.metadata.size]

/-- They are all below `2^31`. -/
def DownloadItem.SmallNumbers (item : DownloadItem) : Prop :=
  ∀ x ∈ item.numbers, x.toNat < 2147483648

instance (item : DownloadItem) : Decidable item.SmallNumbers :=
  List.decidableBAll (fun x : UInt32 => x.toNat < 2147483648) item.numbers

/-- What is saved of an item: the play count and the GUID are not. -/
def DownloadItem.restored (item : DownloadItem) : DownloadItem :=
  { item with metadata := { item.metadata with playCount := 0, guid := [] } }

theorem nulFree_data {item : DownloadItem} (h : item.NulFree) : ∀ s ∈ item.data, NulFree s := by
  have hnum := nulFree_showNat
  simp only [DownloadItem.NulFree, DownloadItem.data, List.forall_mem_cons] at h ⊢
  obtain ⟨hsrc, hcookie, hdest, hplaylist, htime, hartist, halbum, htitle, hcomment, hgenre,
    hnil⟩ := h
  have hreceived : NulFree (showNat item.bytesReceived.toNat ++
      if item.mTime.length ≠ 0 then 32 :: item.mTime else []) := by
    apply (hnum _).append
    split
    · exact htime.cons (by decide)
    · exact nulFree_nil
  exact ⟨hsrc, hcookie, hdest, hplaylist, hnum _, hreceived, hartist, halbum, htitle, hcomment,
    hgenre, hnum _, hnum _, hnum _, hnum _, hnum _, hnil⟩

theorem length_state_code (state : DownloadItemState) : (showNat state.code).length = 1 := by
  cases state <;> decide

/-- The lengths that are written are no larger than a string, a number and a blank. -/
theorem lengths_le {item : DownloadItem} (h : item.data.flatten.length ≤ maxSize) :
    ∀ n ∈ item.lengths, n ≤ uLongMax := by
  have hdata : ∀ s ∈ item.data, s.length ≤ maxSize :=
    fun s hs => Nat.le_trans (le_length_flatten hs) h
  have hnum := length_printLong_le
  have hstate : (showNat item.state.code).length ≤ uLongMax := by
    rw [length_state_code]
    decide
  simp only [DownloadItem.data, List.forall_mem_cons] at hdata
  obtain ⟨hsrc, hcookie, hdest, hplaylist, -, hreceived, hartist, halbum, htitle, hcomment,
    hgenre, -⟩ := hdata
  have htime : item.mTime.length ≤ maxSize := by
    split at hreceived
    · rw [List.length_append, List.length_cons] at hreceived
      omega
    · omega
  have hle : ∀ {n : Nat}, n ≤ maxSize → n ≤ uLongMax := fun hn => Nat.le_trans hn (by decide)
  have hlong : ∀ x : UInt32, (printLong x).length ≤ uLongMax :=
    fun x => Nat.le_trans (hnum x) (by decide)
  simp only [DownloadItem.lengths, List.forall_mem_cons]
  refine ⟨hle hsrc, hle hcookie, hle hdest, hle hplaylist, hlong _, ?_, hle hartist, hle halbum,
    hle htitle, hle hcomment, hle hgenre, hlong _, hlong _, hlong _, hlong _, hstate, ?_⟩
  · split
    · have hten := hnum item.bytesReceived
      have hmax : 12 + maxSize ≤ uLongMax := by decide
      omega
    · exact hlong _
  · exact nofun

/-- What a record is, when it is not too long for a string. -/
theorem resumeRecord_ok {item : DownloadItem} {ost : Text} (h : resumeRecord item = .ok ost) :
    item.data.flatten.length ≤ maxSize ∧
      ost = showNat 16 ++ (32 :: (showLengths item.lengths ++ item.data.flatten)) ++ [0] := by
  obtain ⟨hrecord, hsize⟩ := appendAll_ok h
  simp only [List.flatten_append, List.length_append] at hsize
  refine ⟨by omega, ?_⟩
  rw [hrecord]
  simp only [showLengths, List.flatMap_def, kDatabaseDelimiter, List.flatten_append,
    List.flatten_cons, List.flatten_nil, List.append_assoc, List.append_nil, List.cons_append,
    List.nil_append]

/-- Loading a record is going through its fields with the lengths that were written. -/
theorem loadItem_fields {item : DownloadItem} {ost : Text} (hnul : item.NulFree)
    (h : resumeRecord item = .ok ost) :
    loadItem (cStr ost) =
      readFields skipsOthers setDownloadItem item.data.flatten 0 0 item.lengths .new := by
  obtain ⟨hsize, rfl⟩ := resumeRecord_ok h
  have hle := lengths_le hsize
  have hfields := NulFree.flatten (nulFree_data hnul)
  have hrecord : NulFree (showNat 16 ++ (32 :: (showLengths item.lengths ++ item.data.flatten))) :=
    (nulFree_showNat 16).append
      (((nulFree_showLengths item.lengths).append hfields).cons (by decide))
  have hlast : (showNat item.state.code).length < 10 ^ 9 := by
    rw [length_state_code]
    exact Nat.one_lt_pow (by decide) (by decide)
  have hread : readLengths 16 (showLengths item.lengths ++ item.data.flatten) =
      .ok (item.lengths, item.data.flatten) := by
    have hsplit : item.lengths = item.lengths.dropLast ++ [(showNat item.state.code).length] :=
      rfl
    have hcount : item.lengths.dropLast.length + 1 = 16 := rfl
    have hshow := readLengths_show (showNat item.state.code).length
      (hle _ (by simp [DownloadItem.lengths])) item.data.flatten item.lengths.dropLast
      fun n hn => hle n (List.dropLast_subset _ hn)
    rw [if_pos hlast, hcount, ← hsplit] at hshow
    exact hshow
  have hcount : readCount (showNat 16 ++ (32 :: (showLengths item.lengths ++
      item.data.flatten))) = (16, 32 :: (showLengths item.lengths ++ item.data.flatten)) :=
    readCount_show (by decide) _
  have hspace : readLengths 16 (32 :: (showLengths item.lengths ++ item.data.flatten)) =
      .ok (item.lengths, item.data.flatten) := by
    rw [← hread]
    exact readLengths_space 14 _
  rw [cStr_append_nul, hrecord.cStr_eq]
  unfold loadItem
  dsimp only
  rw [hcount]
  dsimp only
  rw [hspace, ok_bind]

/-- A number below `2^31` that is written as it is comes back through `atoi`. -/
theorem ofInt_atoi_showNat {x : UInt32} (hx : x.toNat < 2147483648) {rest : Text}
    (hrest : NoDigit rest) : UInt32.ofInt (atoi (showNat x.toNat ++ rest)) = x := by
  rw [atoi_showNat _ hrest]
  apply UInt32.toNat_inj.mp
  rw [toNat_ofInt]
  omega

theorem ofInt_atoi_cStr_showNat {x : UInt32} (hx : x.toNat < 2147483648) :
    UInt32.ofInt (atoi (cStr (showNat x.toNat))) = x := by
  have h := ofInt_atoi_showNat hx noDigit_nil
  rw [List.append_nil] at h
  rw [(nulFree_showNat _).cStr_eq, h]

theorem dropWhile_blank {n : Nat} (s : Text) :
    (showNat n ++ s).dropWhile (· != 32) = s.dropWhile (· != 32) := by
  apply List.dropWhile_append_of_pos
  intro c hc
  have hne : c ≠ 32 := by
    rintro rfl
    exact absurd (showNat_digits n 32 hc) (by decide)
  simpa using hne

/-- The field of the bytes received comes apart at its first blank. -/
theorem set_received {item : DownloadItem} (hx : item.bytesReceived.toNat < 2147483648)
    (hnul : NulFree item.mTime) {a : DownloadItem} (ha : a.mTime = []) :
    setDownloadItem 5 (showNat item.bytesReceived.toNat ++
        if item.mTime.length ≠ 0 then 32 :: item.mTime else []) a =
      { a with bytesReceived := item.bytesReceived, mTime := item.mTime } := by
  cases htime : item.mTime with
  | nil =>
    simp only [setDownloadItem, List.length_nil, ne_eq, not_true_eq_false, if_false,
      List.append_nil, (nulFree_showNat _).cStr_eq]
    have hblank := dropWhile_blank (n := item.bytesReceived.toNat) []
    have hnum := ofInt_atoi_cStr_showNat hx
    rw [List.append_nil] at hblank
    rw [(nulFree_showNat _).cStr_eq] at hnum
    rw [hblank, hnum, ha]
    rfl
  | cons c mTime =>
    rw [htime] at hnul
    have hfield : NulFree (showNat item.bytesReceived.toNat ++ 32 :: c :: mTime) :=
      (nulFree_showNat _).append (hnul.cons (by decide))
    simp only [setDownloadItem, List.length_cons, ne_eq, Nat.add_eq_zero_iff, Nat.one_ne_zero,
      and_false, not_false_eq_true, if_true, hfield.cStr_eq]
    rw [dropWhile_blank, ofInt_atoi_showNat hx (noDigit_space _),
      List.dropWhile_cons_of_neg (by decide), if_neg (List.cons_ne_nil _ _)]
    rfl

theorem setFields_step {j : Nat} (hj : j < 16) (s : Text) (fields : List Text)
    (a : DownloadItem) :
    setFields skipsOthers setDownloadItem j (s :: fields) a =
      setFields skipsOthers setDownloadItem (j + 1) fields (setDownloadItem j s a) := by
  rw [setFields, if_neg]
  simpa [skipsOthers] using hj

/-- The loop makes of the fields the item they are the fields of. -/
theorem setFields_data {item : DownloadItem} (hnul : item.NulFree) (hsmall : item.SmallNumbers) :
    setFields skipsOthers setDownloadItem 0 item.data .new = item.restored := by
  simp only [DownloadItem.SmallNumbers, DownloadItem.numbers, List.forall_mem_cons] at hsmall
  obtain ⟨htotal, hreceived, hyear, htrack, htime, hsize, -⟩ := hsmall
  have hmtime : NulFree item.mTime := hnul _ (by simp)
  have hcode := DownloadItemState.ofCode_code item.state
  unfold DownloadItem.data
  rw [setFields_step (by decide), setFields_step (by decide), setFields_step (by decide),
    setFields_step (by decide), setFields_step (by decide), setFields_step (by decide),
    set_received hreceived hmtime rfl]
  rw [setFields_step (by decide), setFields_step (by decide), setFields_step (by decide),
    setFields_step (by decide), setFields_step (by decide), setFields_step (by decide),
    setFields_step (by decide), setFields_step (by decide), setFields_step (by decide),
    setFields_step (by decide), setFields]
  simp only [setDownloadItem, ofInt_atoi_cStr_showNat htotal, ofInt_atoi_cStr_showNat hyear,
    ofInt_atoi_cStr_showNat htrack, ofInt_atoi_cStr_showNat htime, ofInt_atoi_cStr_showNat hsize,
    hcode]
  rfl

theorem length_showNat_small {x : UInt32} (hx : x.toNat < 2147483648) :
    (printLong x).length = (showNat x.toNat).length := by
  rw [printLong_of_lt hx]

/-- The lengths in front of the year fit the data when the byte counts are small. -/
theorem lengths_front {item : DownloadItem} (htotal : item.bytesTotal.toNat < 2147483648)
    (hreceived : item.bytesReceived.toNat < 2147483648) :
    item.lengths.take 11 = (item.data.take 11).map List.length := by
  simp only [DownloadItem.lengths, DownloadItem.data, List.take_succ_cons, List.take_zero,
    List.map_cons, List.map_nil, length_showNat_small htotal, length_showNat_small hreceived,
    List.length_append]
  split
  · rw [List.length_cons, Nat.add_assoc, Nat.add_comm 1]
  · rw [List.length_nil, Nat.add_zero]

/-- The lengths fit the data when the numbers are small. -/
theorem lengths_eq {item : DownloadItem} (hsmall : item.SmallNumbers) :
    item.lengths = item.data.map List.length := by
  simp only [DownloadItem.SmallNumbers, DownloadItem.numbers, List.forall_mem_cons] at hsmall
  obtain ⟨htotal, hreceived, hyear, htrack, htime, hsize, -⟩ := hsmall
  have hback : item.lengths.drop 11 = (item.data.drop 11).map List.length := by
    simp only [DownloadItem.lengths, DownloadItem.data, List.drop_succ_cons, List.drop_zero,
      List.map_cons, List.map_nil, length_showNat_small hyear, length_showNat_small htrack,
      length_showNat_small htime, length_showNat_small hsize]
  rw [← List.take_append_drop 11 item.lengths, lengths_front htotal hreceived, hback,
    ← List.map_append, List.take_append_drop]

theorem loadItem_record {item : DownloadItem} {ost : Text} (hnul : item.NulFree)
    (hsmall : item.SmallNumbers) (h : resumeRecord item = .ok ost) :
    loadItem (cStr ost) = .ok item.restored := by
  have hlt : item.data.flatten.length < 4294967296 :=
    Nat.lt_of_le_of_lt (resumeRecord_ok h).1 (by decide)
  rw [loadItem_fields hnul h, lengths_eq hsmall, readFields_flatten _ _ _ _ hlt,
    setFields_data hnul hsmall]

/-! ## Large numbers -/

theorem setDownloadItem_frame (i : Nat) (s : Text) (item : DownloadItem) :
    (i ≠ 4 → (setDownloadItem i s item).bytesTotal = item.bytesTotal) ∧
      (i ≠ 5 → (setDownloadItem i s item).bytesReceived = item.bytesReceived) ∧
      (i ≠ 11 → (setDownloadItem i s item).metadata.year = item.metadata.year) ∧
      (i ≠ 12 → (setDownloadItem i s item).metadata.track = item.metadata.track) ∧
      (i ≠ 13 → (setDownloadItem i s item).metadata.time = item.metadata.time) ∧
      (i ≠ 14 → (setDownloadItem i s item).metadata.size = item.metadata.size) := by
  unfold setDownloadItem
  split <;> simp

/-- A number comes back only when it is small, if the fields in front of it are as long as
was written. -/
theorem number_small (proj : DownloadItem → UInt32) {item a : DownloadItem} {ost : Text}
    (hnul : item.NulFree) (h : resumeRecord item = .ok ost)
    (hload : loadItem (cStr ost) = .ok a) {j : Nat} (hj : j < 16) {t : Text} {x : UInt32} {l : Nat}
    (hdata : item.data = item.data.take j ++ (showNat x.toNat ++ t) :: item.data.drop (j + 1))
    (hlengths : item.lengths = item.lengths.take j ++ l :: item.lengths.drop (j + 1))
    (hl : l ≠ 0) (haligned : item.lengths.take j = (item.data.take j).map List.length)
    (hset : ∀ s b, proj (setDownloadItem j s b) = UInt32.ofInt (atoi (cStr s)))
    (hframe : ∀ i, i ≠ j → ∀ s b, proj (setDownloadItem i s b) = proj b)
    (hx : proj a = x) : x.toNat < 2147483648 := by
  have hsize := (resumeRecord_ok h).1
  have hbefore : (item.data.take j).length = j := by
    rw [List.length_take]
    exact Nat.min_eq_left (Nat.le_of_lt hj)
  have hmax : maxSize < 4294967296 := by decide
  have hskip : skipsOthers (item.data.take j).length l = false := by
    rw [hbefore]
    simpa [skipsOthers] using hj
  rw [loadItem_fields hnul h, hdata, hlengths, haligned, List.flatten_append, List.flatten_cons,
    List.append_assoc] at hload
  rw [hdata, List.flatten_append, List.length_append] at hsize
  by_contra hlarge
  refine readFields_number (by omega) hl hskip ?_ ?_ (by omega) hload hx
  · rw [hbefore]
    exact hset
  · rw [hbefore]
    exact fun i hi => hframe i (Nat.ne_of_gt hi)

/-- Being as long as was written goes on for a field that is. -/
theorem aligned_succ {lengths : List Nat} {data : List Text} {j l : Nat} {s : Text}
    (h : lengths.take j = (data.take j).map List.length) (hl : lengths[j]? = some l)
    (hs : data[j]? = some s) (heq : l = s.length) :
    lengths.take (j + 1) = (data.take (j + 1)).map List.length := by
  rw [List.take_add_one, List.take_add_one, List.map_append, h, hl, hs, heq]
  rfl

theorem length_printLong_ne (x : UInt32) : (printLong x).length ≠ 0 := by
  rw [Ne, List.length_eq_zero_iff]
  exact printLong_ne_nil x

/-- A record whose numbers come back has small numbers: the first that is not is found where
it was written, and read as another. -/
theorem small_of_loadItem {item a : DownloadItem} {ost : Text} (hnul : item.NulFree)
    (h : resumeRecord item = .ok ost) (hload : loadItem (cStr ost) = .ok a)
    (hnumbers : a.numbers = item.numbers) : item.SmallNumbers := by
  simp only [DownloadItem.numbers, List.cons.injEq, and_true] at hnumbers
  obtain ⟨htotal, hreceived, hyear, htrack, htime, hsize⟩ := hnumbers
  have hframe := setDownloadItem_frame
  have hnil : ∀ x : UInt32, showNat x.toNat ++ [] = showNat x.toNat := fun x => List.append_nil _
  have htotal' : item.bytesTotal.toNat < 2147483648 := by
    refine number_small (·.bytesTotal) hnul h hload (j := 4) (t := []) (by decide) ?_ rfl
      (length_printLong_ne _) rfl (fun s b => rfl) (fun i hi s b => (hframe i s b).1 hi) htotal
    rw [hnil]
    rfl
  have hreceived' : item.bytesReceived.toNat < 2147483648 := by
    refine number_small (·.bytesReceived) hnul h hload (j := 5) (by decide) rfl rfl ?_
      (aligned_succ rfl rfl rfl (length_showNat_small htotal')) (fun s b => rfl)
      (fun i hi s b => (hframe i s b).2.1 hi) hreceived
    have hlong := length_printLong_ne item.bytesReceived
    split
    · omega
    · exact hlong
  have hfront := lengths_front htotal' hreceived'
  have hyear' : item.metadata.year.toNat < 2147483648 := by
    refine number_small (·.metadata.year) hnul h hload (j := 11) (t := []) (by decide) ?_ rfl
      (length_printLong_ne _) hfront (fun s b => rfl)
      (fun i hi s b => (hframe i s b).2.2.1 hi) hyear
    rw [hnil]
    rfl
  have hfront' := aligned_succ hfront rfl rfl (length_showNat_small hyear')
  have htrack' : item.metadata.track.toNat < 2147483648 := by
    refine number_small (·.metadata.track) hnul h hload (j := 12) (t := []) (by decide) ?_ rfl
      (length_printLong_ne _) hfront' (fun s b => rfl)
      (fun i hi s b => (hframe i s b).2.2.2.1 hi) htrack
    rw [hnil]
    rfl
  have hfront'' := aligned_succ hfront' rfl rfl (length_showNat_small htrack')
  have htime' : item.metadata.time.toNat < 2147483648 := by
    refine number_small (·.metadata.time) hnul h hload (j := 13) (t := []) (by decide) ?_ rfl
      (length_printLong_ne _) hfront'' (fun s b => rfl)
      (fun i hi s b => (hframe i s b).2.2.2.2.1 hi) htime
    rw [hnil]
    rfl
  have hsize' : item.metadata.size.toNat < 2147483648 := by
    refine number_small (·.metadata.size) hnul h hload (j := 14) (t := []) (by decide) ?_ rfl
      (length_printLong_ne _) (aligned_succ hfront'' rfl rfl (length_showNat_small htime'))
      (fun s b => rfl) (fun i hi s b => (hframe i s b).2.2.2.2.2 hi) hsize
    rw [hnil]
    rfl
  simp only [DownloadItem.SmallNumbers, DownloadItem.numbers, List.forall_mem_cons]
  exact ⟨htotal', hreceived', hyear', htrack', htime', hsize', nofun⟩

/-- A record comes back when all its numbers are below `2^31`, and only then. -/
theorem loadItem_record_iff {item : DownloadItem} {ost : Text} (hnul : item.NulFree)
    (h : resumeRecord item = .ok ost) :
    loadItem (cStr ost) = .ok item.restored ↔ item.SmallNumbers := by
  constructor
  · exact fun hload => small_of_loadItem hnul h hload rfl
  · exact fun hsmall => loadItem_record hnul hsmall h

/-! ## All items -/

/-- What is saved of the items from `index` on, by its key. -/
def savedUnder : Nat → List DownloadItem → List (Text × DownloadItem)
  | _, [] => []
  | index, item :: items =>
    if item.state.resumable then
      (resumeKey index, item.requeue) :: savedUnder (index + 1) items
    else savedUnder (index + 1) items

theorem resumeKey_inj {i j : Nat} (hi : i < 4294967296) (hj : j < 4294967296)
    (h : resumeKey i = resumeKey j) : i = j := by
  have heq : UInt32.ofNat i = UInt32.ofNat j := by
    rw [← ofInt_atoi_printLong (UInt32.ofNat i), ← ofInt_atoi_printLong (UInt32.ofNat j)]
    exact congrArg (fun s => UInt32.ofInt (atoi (cStr s))) h
  have hnat := congrArg UInt32.toNat heq
  rw [UInt32.toNat_ofNat_of_lt' hi, UInt32.toNat_ofNat_of_lt' hj] at hnat
  exact hnat

theorem savedUnder_keys {s : Text × DownloadItem} : ∀ {items : List DownloadItem} {index : Nat},
    s ∈ savedUnder index items → ∃ i, index ≤ i ∧ i < index + items.length ∧ s.1 = resumeKey i := by
  intro items
  induction items with
  | nil => exact fun h => absurd h List.not_mem_nil
  | cons item items ih =>
    intro index h
    have hlater : s ∈ savedUnder (index + 1) items →
        ∃ i, index ≤ i ∧ i < index + (item :: items).length ∧ s.1 = resumeKey i := by
      intro hs
      obtain ⟨i, hlow, hhigh, hkey⟩ := ih hs
      exact ⟨i, by omega, by rw [List.length_cons]; omega, hkey⟩
    rw [savedUnder] at h
    split at h
    · rcases List.mem_cons.mp h with rfl | h
      · exact ⟨index, Nat.le_refl _, by rw [List.length_cons]; omega, rfl⟩
      · exact hlater h
    · exact hlater h

theorem savedUnder_nodup : ∀ {items : List DownloadItem} {index : Nat},
    index + items.length ≤ 4294967296 → ((savedUnder index items).map Prod.fst).Nodup := by
  intro items
  induction items with
  | nil => exact fun _ => List.nodup_nil
  | cons item items ih =>
    intro index hcount
    rw [List.length_cons] at hcount
    have hrest : ((savedUnder (index + 1) items).map Prod.fst).Nodup := ih (by omega)
    rw [savedUnder]
    split
    · rw [List.map_cons, List.nodup_cons]
      refine ⟨fun hmem => ?_, hrest⟩
      obtain ⟨s, hs, hkey⟩ := List.mem_map.mp hmem
      obtain ⟨i, hlow, hhigh, hi⟩ := savedUnder_keys hs
      have := resumeKey_inj (by omega) (by omega) (hi.symm.trans hkey)
      omega
    · exact hrest

theorem savedUnder_items : ∀ (items : List DownloadItem) (index : Nat),
    (savedUnder index items).map Prod.snd =
      (items.filter (·.state.resumable)).map DownloadItem.requeue := by
  intro items
  induction items with
  | nil => exact fun _ => rfl
  | cons item items ih =>
    intro index
    rw [savedUnder, List.filter_cons]
    split
    · rw [List.map_cons, List.map_cons, ih]
    · exact ih _

/-- What saving leaves in the database: a record under each key, and what was there. -/
structure SavedIn (db db' : Database) (saved : List (Text × DownloadItem)) : Prop where
  working : db'.working = db.working
  keys : db'.keys.Perm (saved.map Prod.fst ++ db.keys)
  kept : ∀ key ∈ db.keys, db'.value key = db.value key
  records : ∀ s ∈ saved, ∃ ost, resumeRecord s.2 = .ok ost ∧ db'.value s.1 = some (cStr ost)

theorem keys_insert_of_not_mem {db : Database} {key : Text} (h : key ∉ db.keys) (content : Text) :
    (db.insert key content).keys = key :: db.keys := by
  have hfilter : db.entries.filter (fun e => e.1 != key) = db.entries := by
    rw [List.filter_eq_self]
    intro e he
    have hne : e.1 ≠ key := fun heq => h (List.mem_map.mpr ⟨e, he, heq⟩)
    simpa using hne
  show key :: (db.entries.filter fun e => e.1 != key).map Prod.fst = key :: db.keys
  rw [hfilter]
  rfl

theorem saveItems_savedIn : ∀ {items items' : List DownloadItem} {index : Nat}
    {db db' : Database}, saveItems index items db = .ok (items', db') →
      (∀ key ∈ db.keys, ∃ i, i < index ∧ key = resumeKey i) →
      index + items.length ≤ 4294967296 → SavedIn db db' (savedUnder index items) := by
  intro items
  induction items with
  | nil =>
    intro items' index db db' h _ _
    obtain ⟨-, rfl⟩ := Prod.mk.inj (Except.ok.inj h)
    exact ⟨rfl, List.Perm.refl _, fun _ _ => rfl, nofun⟩
  | cons item items ih =>
    intro items' index db db' h hkeys hcount
    rw [List.length_cons] at hcount
    rw [saveItems] at h
    rw [savedUnder]
    split at h
    · rename_i hres
      rw [if_pos hres]
      obtain ⟨ost, hrecord, h⟩ := bind_eq_ok.mp h
      have hfresh : resumeKey index ∉ db.keys := by
        intro hmem
        obtain ⟨i, hi, hkey⟩ := hkeys _ hmem
        have := resumeKey_inj (by omega) (by omega) hkey
        omega
      obtain ⟨r, hrest, h⟩ := bind_eq_ok.mp h
      obtain ⟨-, rfl⟩ := Prod.mk.inj (Except.ok.inj h)
      have hinsert := keys_insert_of_not_mem hfresh ost
      have hsaved := ih hrest (by
        intro key hkey
        rw [hinsert] at hkey
        rcases List.mem_cons.mp hkey with rfl | hkey
        · exact ⟨index, Nat.lt_succ_self _, rfl⟩
        · obtain ⟨i, hi, heq⟩ := hkeys key hkey
          exact ⟨i, Nat.lt_succ_of_lt hi, heq⟩) (by omega)
      refine ⟨hsaved.working, ?_, ?_, ?_⟩
      · have hperm := hsaved.keys
        rw [hinsert] at hperm
        exact hperm.trans List.perm_middle
      · intro key hkey
        have hne : key ≠ resumeKey index := fun heq => hfresh (heq ▸ hkey)
        rw [hsaved.kept key (by rw [hinsert]; exact List.mem_cons_of_mem _ hkey),
          Database.value_insert_of_ne db ost hne]
      · intro s hs
        rcases List.mem_cons.mp hs with rfl | hs
        · refine ⟨ost, hrecord, ?_⟩
          rw [hsaved.kept _ (by rw [hinsert]; exact List.mem_cons_self),
            Database.value_insert_self]
        · exact hsaved.records s hs
    · rename_i hres
      rw [if_neg hres]
      obtain ⟨r, hrest, h⟩ := bind_eq_ok.mp h
      obtain ⟨-, rfl⟩ := Prod.mk.inj (Except.ok.inj h)
      refine ih hrest (fun key hkey => ?_) (by omega)
      obtain ⟨i, hi, heq⟩ := hkeys key hkey
      exact ⟨i, Nat.lt_succ_of_lt hi, heq⟩

theorem loadItems_cons {db : Database} {key value : Text} (hvalue : db.value key = some value)
    (keys : List Text) :
    loadItems db (key :: keys) =
      loadItem value >>= fun item => loadItems db keys >>= fun items => .ok (item :: items) := by
  rw [loadItems, hvalue]

/-- Loading makes of the keys what `f` says, exactly when each record does. -/
theorem loadItems_ok_iff {db : Database} {f : Text → DownloadItem} : ∀ {keys : List Text},
    (∀ key ∈ keys, ∃ value, db.value key = some value) →
      (loadItems db keys = .ok (keys.map f) ↔
        ∀ key ∈ keys, ∀ value, db.value key = some value → loadItem value = .ok (f key)) := by
  intro keys
  induction keys with
  | nil => exact fun _ => ⟨fun _ => nofun, fun _ => rfl⟩
  | cons key keys ih =>
    intro hvalues
    obtain ⟨value, hvalue⟩ := hvalues key List.mem_cons_self
    have hrest := ih fun k hk => hvalues k (List.mem_cons_of_mem _ hk)
    have hhead : (∀ v, db.value key = some v → loadItem v = .ok (f key)) ↔
        loadItem value = .ok (f key) := by
      constructor
      · exact fun h => h value hvalue
      · intro h v hv
        rw [Option.some.inj (hvalue.symm.trans hv)] at h
        exact h
    rw [loadItems_cons hvalue, List.forall_mem_cons, ← hrest, hhead, List.map_cons]
    cases hitem : loadItem value with
    | error e => exact ⟨fun h => absurd h nofun, fun h => absurd h.1 nofun⟩
    | ok item =>
      rw [ok_bind]
      cases hitems : loadItems db keys with
      | error e => exact ⟨fun h => absurd h nofun, fun h => absurd h.2 nofun⟩
      | ok items =>
        rw [ok_bind]
        simp only [Except.ok.injEq, List.cons.injEq]

theorem keys_removeKeys {order : KeyOrder} : ∀ {n : Nat} {db : Database},
    databaseVersionKey ∉ db.keys → db.keys.length ≤ n → (removeKeys order n db).keys = [] := by
  intro n
  induction n with
  | zero => exact fun _ h => List.length_eq_zero_iff.mp (Nat.le_zero.mp h)
  | succ n ih =>
    intro db hversion hlen
    have hperm := order.perm db
    rw [removeKeys]
    split
    · rename_i hnone
      have hnil : order.order db = [] := by
        rw [List.eq_nil_iff_forall_not_mem]
        intro key hkey
        have hne : key ≠ databaseVersionKey :=
          fun heq => hversion (heq ▸ hperm.mem_iff.mp hkey)
        have hmem : key ∈ order.nextKeys db := List.mem_filter.mpr ⟨hkey, by simpa using hne⟩
        rw [hnone] at hmem
        exact absurd hmem List.not_mem_nil
      rw [hnil] at hperm
      exact List.nil_perm.mp hperm
    · rename_i key keys hnext
      have hmem : key ∈ order.nextKeys db := by
        rw [hnext]
        exact List.mem_cons_self
      have hkey : key ∈ db.keys := hperm.mem_iff.mp (List.mem_filter.mp hmem).1
      have hkeys : (db.remove key).keys = db.keys.filter (· != key) := by
        unfold Database.keys Database.remove
        rw [List.filter_map]
        rfl
      apply ih
      · rw [hkeys]
        exact fun h => hversion (List.mem_filter.mp h).1
      · rw [hkeys]
        have hless : (db.keys.filter (· != key)).length < db.keys.length :=
          List.length_filter_lt_length_iff_exists.mpr ⟨key, hkey, by simp⟩
        omega

theorem resumeKey_ne_version (index : Nat) : resumeKey index ≠ databaseVersionKey := by
  intro h
  have hmem : (70 : UInt8) ∈ resumeKey index := by
    rw [h]
    decide
  unfold resumeKey printLong showInt at hmem
  have hdigits := showNat_digits (toLong (UInt32.ofNat index)).natAbs 70
  split at hmem
  · rcases List.mem_cons.mp hmem with h45 | hmem
    · exact absurd h45 (by decide)
    · exact absurd (hdigits hmem) (by decide)
  · exact absurd (hdigits hmem) (by decide)

/-- What was saved under a key, as it is restored. -/
def restoredUnder (items : List DownloadItem) (key : Text) : DownloadItem :=
  match (savedUnder 0 items).lookup key with
  | none => .new
  | some item => item.restored

/-- What was saved, as it is restored, in the order in which the database is gone through. -/
def restoredFrom (order : KeyOrder) (db : Database) (items : List DownloadItem) :
    List DownloadItem :=
  (order.nextKeys db).map (restoredUnder items)

/-- The keys that are gone through are those that were saved under. -/
theorem nextKeys_perm (order : KeyOrder) {db db' : Database} {items : List DownloadItem}
    (hempty : db.keys = []) (h : SavedIn db db' (savedUnder 0 items)) :
    (order.nextKeys db').Perm ((savedUnder 0 items).map Prod.fst) := by
  have hkeys := h.keys
  rw [hempty, List.append_nil] at hkeys
  have hall : order.nextKeys db' = order.order db' := by
    apply List.filter_eq_self.mpr
    intro key hkey
    have hmem := hkeys.mem_iff.mp ((order.perm db').mem_iff.mp hkey)
    obtain ⟨s, hs, rfl⟩ := List.mem_map.mp hmem
    obtain ⟨i, -, -, heq⟩ := savedUnder_keys hs
    have hne := resumeKey_ne_version i
    rw [← heq] at hne
    simpa using hne
  rw [hall]
  exact (order.perm db').trans hkeys

theorem restoredUnder_of_mem {items : List DownloadItem} (hcount : items.length ≤ 4294967296)
    {s : Text × DownloadItem} (hs : s ∈ savedUnder 0 items) :
    restoredUnder items s.1 = s.2.restored := by
  unfold restoredUnder
  rw [lookup_of_mem (savedUnder_nodup (by omega)) hs]

/-- Whatever order the database is gone through in, each item that was resumable is restored
once. -/
theorem restoredFrom_perm {order : KeyOrder} {db db' : Database} {items : List DownloadItem}
    (hcount : items.length ≤ 4294967296) (hempty : db.keys = [])
    (h : SavedIn db db' (savedUnder 0 items)) :
    (restoredFrom order db' items).Perm
      ((items.filter (·.state.resumable)).map fun item => item.requeue.restored) := by
  have hmap : ((savedUnder 0 items).map Prod.fst).map (restoredUnder items) =
      ((savedUnder 0 items).map Prod.snd).map DownloadItem.restored := by
    rw [List.map_map, List.map_map]
    apply List.map_congr_left
    exact fun s hs => restoredUnder_of_mem hcount hs
  have hperm := (nextKeys_perm order hempty h).map (restoredUnder items)
  rw [hmap, savedUnder_items, List.map_map] at hperm
  exact hperm

/-- An item that is saved is resumable, and the other way round. -/
theorem forall_savedUnder {P : DownloadItem → Prop} (items : List DownloadItem) (index : Nat) :
    (∀ s ∈ savedUnder index items, P s.2) ↔
      ∀ item ∈ items, item.state.resumable = true → P item.requeue := by
  have hmem : ∀ a, a ∈ (savedUnder index items).map Prod.snd ↔
      a ∈ (items.filter (·.state.resumable)).map DownloadItem.requeue := by
    intro a
    rw [savedUnder_items]
  constructor
  · intro h item hitem hres
    have hsnd := (hmem item.requeue).mpr
      (List.mem_map_of_mem (List.mem_filter.mpr ⟨hitem, hres⟩))
    obtain ⟨s, hs, heq⟩ := List.mem_map.mp hsnd
    rw [← heq]
    exact h s hs
  · intro h s hs
    obtain ⟨item, hitem, heq⟩ := List.mem_map.mp ((hmem s.2).mp (List.mem_map_of_mem hs))
    obtain ⟨hin, hres⟩ := List.mem_filter.mp hitem
    rw [← heq]
    exact h item hin hres

theorem requeue_nulFree {item : DownloadItem} (h : item.NulFree) : item.requeue.NulFree := by
  unfold DownloadItem.requeue
  split
  · exact h
  · exact h

theorem requeue_smallNumbers (item : DownloadItem) :
    item.requeue.SmallNumbers ↔ item.SmallNumbers := by
  unfold DownloadItem.requeue
  split <;> exact Iff.rfl

/-- From an empty resume database what was saved comes back when its numbers are small. -/
theorem restored_after_save_iff (order : KeyOrder) {db db' : Database}
    {items items' : List DownloadItem} (hworking : db.working = true) (hempty : db.keys = [])
    (hcount : items.length ≤ 4294967296) (hnul : ∀ item ∈ items, item.NulFree)
    (hsave : saveResumableDownloadItems db items = .ok (items', db')) :
    (restoredFrom order db' items).Perm
        ((items.filter (·.state.resumable)).map fun item => item.requeue.restored) ∧
      ((∃ db'', loadResumableDownloadItems order db' = .ok (restoredFrom order db' items, db'') ∧
          db''.keys = []) ↔
        ∀ item ∈ items, item.state.resumable = true → item.SmallNumbers) := by
  unfold saveResumableDownloadItems at hsave
  rw [if_pos hworking] at hsave
  have hsaved := saveItems_savedIn hsave (by rw [hempty]; exact nofun) (by omega)
  refine ⟨restoredFrom_perm hcount hempty hsaved, ?_⟩
  have hkeys := nextKeys_perm order hempty hsaved
  have hnulSaved := (forall_savedUnder items 0).mpr fun item hitem _ =>
    requeue_nulFree (hnul item hitem)
  -- each key that is gone through has the record of an item under it
  have hrecord : ∀ key ∈ order.nextKeys db', ∃ s ∈ savedUnder 0 items, key = s.1 ∧
      ∃ ost, resumeRecord s.2 = .ok ost ∧ db'.value key = some (cStr ost) := by
    intro key hkey
    obtain ⟨s, hs, rfl⟩ := List.mem_map.mp (hkeys.mem_iff.mp hkey)
    exact ⟨s, hs, rfl, hsaved.records s hs⟩
  have hload := loadItems_ok_iff (f := restoredUnder items) fun key hkey => by
    obtain ⟨s, -, -, ost, -, hvalue⟩ := hrecord key hkey
    exact ⟨_, hvalue⟩
  have hsmall : (∀ key ∈ order.nextKeys db', ∀ value, db'.value key = some value →
      loadItem value = .ok (restoredUnder items key)) ↔
        ∀ s ∈ savedUnder 0 items, s.2.SmallNumbers := by
    constructor
    · intro h s hs
      obtain ⟨ost, hrec, hvalue⟩ := hsaved.records s hs
      have hitem := h s.1 (hkeys.mem_iff.mpr (List.mem_map_of_mem hs)) _ hvalue
      rw [restoredUnder_of_mem hcount hs] at hitem
      exact (loadItem_record_iff (hnulSaved s hs) hrec).mp hitem
    · intro h key hkey value hvalue
      obtain ⟨s, hs, rfl, ost, hrec, hvalue'⟩ := hrecord key hkey
      obtain rfl := Option.some.inj (hvalue'.symm.trans hvalue)
      rw [restoredUnder_of_mem hcount hs]
      exact (loadItem_record_iff (hnulSaved s hs) hrec).mpr (h s hs)
  have hcleared : (removeKeys order (order.nextKeys db').length db').keys = [] := by
    have hperm := hsaved.keys
    rw [hempty, List.append_nil] at hperm
    apply keys_removeKeys
    · intro hversion
      obtain ⟨s, hs, hkey⟩ := List.mem_map.mp (hperm.mem_iff.mp hversion)
      obtain ⟨i, -, -, heq⟩ := savedUnder_keys hs
      exact resumeKey_ne_version i (heq.symm.trans hkey)
    · rw [hkeys.length_eq, hperm.length_eq]
  have hrun : (∃ db'', loadResumableDownloadItems order db' =
      .ok (restoredFrom order db' items, db'') ∧ db''.keys = []) ↔
        loadItems db' (order.nextKeys db') = .ok (restoredFrom order db' items) := by
    unfold loadResumableDownloadItems
    rw [if_pos (hsaved.working.trans hworking)]
    cases loadItems db' (order.nextKeys db') with
    | error e => exact ⟨fun ⟨_, h, _⟩ => absurd h nofun, fun h => absurd h nofun⟩
    | ok loaded =>
      rw [ok_bind]
      constructor
      · rintro ⟨db'', h, -⟩
        rw [(Prod.mk.inj (Except.ok.inj h)).1]
      · intro h
        rw [Except.ok.inj h]
        exact ⟨_, rfl, hcleared⟩
  rw [hrun]
  refine (hload.trans hsmall).trans ((forall_savedUnder items 0).trans ?_)
  simp only [requeue_smallNumbers]

/-- What is saved comes back from an empty resume database, in whatever order gdbm keeps it, and
the database is empty again, exactly when the numbers of all that is saved are below `2^31`. -/
theorem load_after_save_iff (order : KeyOrder) {db db' : Database}
    {items items' : List DownloadItem} (hworking : db.working = true) (hempty : db.keys = [])
    (hcount : items.length ≤ 4294967296) (hnul : ∀ item ∈ items, item.NulFree)
    (hsave : saveResumableDownloadItems db items = .ok (items', db')) :
    (restoredFrom order db' items).Perm
        ((items.filter (·.state.resumable)).map fun item => item.requeue.restored) ∧
      ((∃ db'', loadResumableDownloadItems order db' = .ok (restoredFrom order db' items, db'') ∧
          db''.keys = []) ↔
        ∀ item ∈ items, item.state.resumable = true → item.SmallNumbers) := by
  exact restored_after_save_iff order hworking hempty hcount hnul hsave

/-- A gdbm that keeps the keys as they come. -/
def KeyOrder.stored : KeyOrder := ⟨Database.keys, fun _ => List.Perm.refl _⟩

/-- An item in error, with a time and the largest year, and a paused one. -/
def resumableItems : List DownloadItem :=
  [{ DownloadItem.new with
      src := bytes "http://h/a"
      dest := bytes "a b"
      bytesTotal := 5000
      bytesReceived := 20
      mTime := bytes "Mon 1 Jan"
      metadata := { MetaData.new with comment := [32, 10], year := 0x7FFFFFFF }
      state := .error },
    { DownloadItem.new with src := bytes "http://h/b", state := .paused }]

theorem load_after_save_two :
    ∃ items' db' db'', saveResumableDownloadItems .empty resumableItems = .ok (items', db') ∧
      loadResumableDownloadItems .stored db' =
        .ok (restoredFrom .stored db' resumableItems, db'') ∧ db''.keys = [] := by
  obtain ⟨items', db', hsave⟩ :
      ∃ items' db', saveResumableDownloadItems .empty resumableItems = .ok (items', db') :=
    ⟨_, _, rfl⟩
  obtain ⟨-, hiff⟩ := load_after_save_iff .stored (by rfl) (by rfl) (by decide) (by decide)
    hsave
  have hsmall : ∀ item ∈ resumableItems, item.state.resumable = true → item.SmallNumbers := by
    intro item hitem _
    rcases List.mem_pair.mp hitem with rfl | rfl
    · simp [DownloadItem.SmallNumbers, DownloadItem.numbers, MetaData.new]
    · simp [DownloadItem.SmallNumbers, DownloadItem.numbers, DownloadItem.new, MetaData.new]
  obtain ⟨db'', hload, hempty⟩ := hiff.mpr hsmall
  exact ⟨items', db', db'', hsave, hload, hempty⟩

/-- A paused item of `2^31` bytes. -/
def largeItem : DownloadItem :=
  { DownloadItem.new with
    src := bytes "http://h/a"
    bytesTotal := 0x80000000
    state := .paused }

/-- It comes back with another size, and in no state that would resume it. -/
theorem load_after_save_large :
    largeItem.NulFree ∧ ∃ items' db' item db'',
      saveResumableDownloadItems .empty [largeItem] = .ok (items', db') ∧
        loadResumableDownloadItems .stored db' = .ok ([item], db'') ∧
          item.bytesTotal = 2147483647 ∧ item.metadata.size = 4 ∧ item.state = .null :=
  ⟨by decide, _, _, _, _, rfl, rfl, rfl, rfl, rfl⟩

end FreeAmp.Base
