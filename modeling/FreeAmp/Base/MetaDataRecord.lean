/-
  Base/MetaDataRecord.lean --- the record of a track, from
  `MusicCatalog::WriteMetaDataToDatabase` and `MusicCatalog::ReadMetaDataFromDatabase`
  in `base/src/musiccatalog.cpp`.

  `m_guidTable`, which both fill in on the way, is left out: neither reads it but to
  decide whether to fill it.
-/
import FreeAmp.Base.Database

namespace FreeAmp.Base

open FreeAmp.Lib

/-- `MetadataStorageType`, by the letter a record of it begins with. -/
inductive MetadataStorageType where
  /-- `kTypeTrack` -/
  | track
  /-- `kTypeStream` -/
  | stream
  deriving DecidableEq, Repr, Inhabited

def MetadataStorageType.letter : MetadataStorageType → Text
  | .track => [77]
  | .stream => [83]

def MetaData.new : MetaData := ⟨[], [], [], [], [], 0, 0, 0, 0, 0, []⟩

/-- The fields of a record, in the order in which their lengths and they are written. -/
def MetaData.fields (metadata : MetaData) : List Text :=
  [metadata.artist, metadata.album, metadata.title, metadata.comment, metadata.genre,
    printLong metadata.year, printLong metadata.track, printLong metadata.time,
    printLong metadata.size, printLong metadata.playCount, metadata.guid]

/-- The string `WriteMetaDataToDatabase` puts together. -/
def metaDataRecord (metadata : MetaData) (type : MetadataStorageType) :
    Except RecordFault Text :=
  appendAll ([type.letter, kDatabaseDelimiter, showNat 11, kDatabaseDelimiter] ++
    metadata.fields.map (fun s => printLong (UInt32.ofNat s.length) ++ kDatabaseDelimiter) ++
    metadata.fields)

def writeMetaDataToDatabase (db : Database) (url : Text) (metadata : MetaData)
    (type : MetadataStorageType) : Except RecordFault Database :=
  if !db.working then .ok db
  else do
    let ost ← metaDataRecord metadata type
    .ok (db.insert url ost)

/-- The `switch` over the fields that are read. -/
def setMetaData (j : Nat) (substring : Text) (metadata : MetaData) : MetaData :=
  match j with
  | 0 => { metadata with artist := substring }
  | 1 => { metadata with album := substring }
  | 2 => { metadata with title := substring }
  | 3 => { metadata with comment := substring }
  | 4 => { metadata with genre := substring }
  | 5 => { metadata with year := UInt32.ofInt (atoi (cStr substring)) }
  | 6 => { metadata with track := UInt32.ofInt (atoi (cStr substring)) }
  | 7 => { metadata with time := UInt32.ofInt (atoi (cStr substring)) }
  | 8 => { metadata with size := UInt32.ofInt (atoi (cStr substring)) }
  | 9 => { metadata with playCount := UInt32.ofInt (atoi (cStr substring)) }
  | 10 => { metadata with guid := substring }
  | _ => metadata

/-- `if (fieldLength[j] == 0) continue;`, which leaves `count` as it is -/
def skipsEmpty (_ fieldLength : Nat) : Bool := fieldLength == 0

/-- What `ReadMetaDataFromDatabase` makes of a record. -/
def readMetaData (dbasedata : Text) : Except RecordFault MetaData :=
  if dbasedata.length < 2 then .error .badRecord
  else do
    let count := readCount (dbasedata.drop 2)
    let r ← readLengths count.1 count.2
    readFields skipsEmpty setMetaData r.2 0 0 r.1 .new

def readMetaDataFromDatabase (db : Database) (url : Text) :
    Except RecordFault (Option MetaData) :=
  if !db.working then .ok none
  else
    match db.value url with
    | none => .ok none
    | some dbasedata => do
        let metadata ← readMetaData dbasedata
        .ok (some metadata)

/-! ## Reading what was written -/

/-- The string fields have no NUL in them. -/
def MetaData.NulFree (metadata : MetaData) : Prop :=
  ∀ s ∈ [metadata.artist, metadata.album, metadata.title, metadata.comment, metadata.genre,
    metadata.guid], Base.NulFree s

instance (metadata : MetaData) : Decidable metadata.NulFree :=
  inferInstanceAs (Decidable (∀ s ∈ [metadata.artist, metadata.album, metadata.title,
    metadata.comment, metadata.genre, metadata.guid], Base.NulFree s))

theorem nulFree_fields {metadata : MetaData} (h : metadata.NulFree) :
    ∀ s ∈ metadata.fields, NulFree s := by
  have hnum := nulFree_printLong
  simp only [MetaData.NulFree, MetaData.fields, List.forall_mem_cons] at h ⊢
  obtain ⟨hartist, halbum, htitle, hcomment, hgenre, hguid, hnil⟩ := h
  exact ⟨hartist, halbum, htitle, hcomment, hgenre, hnum _, hnum _, hnum _, hnum _, hnum _,
    hguid, hnil⟩

/-- Passing over a field makes no difference when setting it to nothing makes none. -/
theorem setFields_cons {j : Nat} {s : Text} {fields : List Text} {a : MetaData}
    (h : s = [] → setMetaData j s a = a) :
    setFields skipsEmpty setMetaData j (s :: fields) a =
      setFields skipsEmpty setMetaData (j + 1) fields (setMetaData j s a) := by
  rw [setFields]
  split
  · rename_i hskip
    rw [h (by simpa [skipsEmpty] using hskip)]
  · rfl

theorem setFields_cons_number {j : Nat} {x : UInt32} {fields : List Text} {a : MetaData} :
    setFields skipsEmpty setMetaData j (printLong x :: fields) a =
      setFields skipsEmpty setMetaData (j + 1) fields (setMetaData j (printLong x) a) :=
  setFields_cons fun h => absurd h (printLong_ne_nil x)

/-- The loop makes of the fields the metadata they are the fields of. -/
theorem setFields_fields (metadata : MetaData) :
    setFields skipsEmpty setMetaData 0 metadata.fields .new = metadata := by
  unfold MetaData.fields
  -- the string fields begin as empty strings
  rw [setFields_cons (fun h => by rw [h]; rfl), setFields_cons (fun h => by rw [h]; rfl),
    setFields_cons (fun h => by rw [h]; rfl), setFields_cons (fun h => by rw [h]; rfl),
    setFields_cons (fun h => by rw [h]; rfl)]
  simp only [setFields_cons_number]
  rw [setFields_cons (fun h => by rw [h]; rfl), setFields]
  simp only [setMetaData, MetaData.new, ofInt_atoi_printLong]

theorem le_length_flatten {s : Text} {parts : List Text} (h : s ∈ parts) :
    s.length ≤ parts.flatten.length := by
  exact (List.sublist_flatten_of_mem h).length_le

/-- What a record is, when it is not too long for a string. -/
theorem metaDataRecord_ok {metadata : MetaData} {type : MetadataStorageType} {ost : Text}
    (h : metaDataRecord metadata type = .ok ost) :
    (∀ s ∈ metadata.fields, s.length ≤ maxSize) ∧ metadata.fields.flatten.length ≤ maxSize ∧
      ost = type.letter ++ (32 :: (showNat 11 ++
        (32 :: (showLengths (metadata.fields.map List.length) ++ metadata.fields.flatten)))) := by
  obtain ⟨hrecord, hsize⟩ := appendAll_ok h
  rw [List.flatten_append, List.length_append] at hsize
  have hfields : metadata.fields.flatten.length ≤ maxSize := by omega
  have hle : ∀ s ∈ metadata.fields, s.length ≤ maxSize :=
    fun s hs => Nat.le_trans (le_length_flatten hs) hfields
  have hprint : metadata.fields.map (fun s => printLong (UInt32.ofNat s.length) ++
      kDatabaseDelimiter) = metadata.fields.map fun s => showNat s.length ++ kDatabaseDelimiter := by
    apply List.map_congr_left
    intro s hs
    rw [printLong_ofNat (Nat.lt_of_le_of_lt (hle s hs) (by decide))]
  refine ⟨hle, hfields, ?_⟩
  rw [hrecord, hprint, List.flatten_append, List.flatten_append]
  simp only [showLengths, List.flatMap_def, List.map_map, Function.comp_def, kDatabaseDelimiter,
    List.flatten_cons, List.flatten_nil, List.append_assoc, List.append_nil, List.cons_append,
    List.nil_append]

/-- A record is read back, unless the length of its last field has ten digits. -/
theorem readMetaData_record {metadata : MetaData} {type : MetadataStorageType} {ost : Text}
    (h : metaDataRecord metadata type = .ok ost) :
    readMetaData ost =
      if metadata.guid.length < 10 ^ 9 then .ok metadata else .error .bufferOverflow := by
  obtain ⟨hle, hsize, rfl⟩ := metaDataRecord_ok h
  have hletter : type.letter.length = 1 := by cases type <;> rfl
  have hle' : ∀ s ∈ metadata.fields, s.length ≤ uLongMax :=
    fun s hs => Nat.le_trans (hle s hs) (by decide)
  have hread : readLengths 11
      (showLengths (metadata.fields.map List.length) ++ metadata.fields.flatten) =
        if metadata.guid.length < 10 ^ 9 then
          .ok (metadata.fields.map List.length, metadata.fields.flatten)
        else .error .bufferOverflow := by
    refine readLengths_show metadata.guid.length (hle' _ (by simp [MetaData.fields])) _
      (metadata.fields.dropLast.map List.length) fun n hn => ?_
    obtain ⟨s, hs, rfl⟩ := List.mem_map.mp hn
    exact hle' s (List.dropLast_subset _ hs)
  have hdrop : ∀ s : Text, (type.letter ++ (32 :: s)).drop 2 = s := by
    intro s
    rw [List.append_cons, List.drop_left' (by rw [List.length_append, hletter]; rfl)]
  unfold readMetaData
  rw [if_neg (by simp only [List.length_append, List.length_cons, hletter]; omega), hdrop,
    readCount_show (by decide)]
  show (readLengths 11 (32 :: _) >>= _) = _
  rw [readLengths_space 9, hread]
  split
  · show readFields _ _ _ 0 0 _ _ = _
    rw [readFields_flatten _ _ _ _ (Nat.lt_of_le_of_lt hsize (by decide)), setFields_fields]
  · rfl

theorem nulFree_record {metadata : MetaData} {type : MetadataStorageType} {ost : Text}
    (hnul : metadata.NulFree) (h : metaDataRecord metadata type = .ok ost) : NulFree ost := by
  obtain ⟨-, -, rfl⟩ := metaDataRecord_ok h
  have hletter : NulFree type.letter := by cases type <;> exact nulFree_nil.cons (by decide)
  have hfields := NulFree.flatten (nulFree_fields hnul)
  have hdata := (nulFree_showLengths (metadata.fields.map List.length)).append hfields
  have hcount := (nulFree_showNat 11).append (hdata.cons (by decide : (32 : UInt8) ≠ 0))
  exact hletter.append (hcount.cons (by decide))

theorem writeMetaDataToDatabase_ok {db db' : Database} {url : Text} {metadata : MetaData}
    {type : MetadataStorageType} (hworking : db.working = true)
    (h : writeMetaDataToDatabase db url metadata type = .ok db') :
    ∃ ost, metaDataRecord metadata type = .ok ost ∧ db' = db.insert url ost := by
  unfold writeMetaDataToDatabase at h
  rw [hworking] at h
  obtain ⟨ost, hrecord, h⟩ := bind_eq_ok.mp h
  exact ⟨ost, hrecord, (Except.ok.inj h).symm⟩

/-- What is read of a track after its metadata has been written. -/
theorem readMetaDataFromDatabase_write {db db' : Database} {url : Text} {metadata : MetaData}
    {type : MetadataStorageType} (hworking : db.working = true) (hnul : metadata.NulFree)
    (h : writeMetaDataToDatabase db url metadata type = .ok db') :
    readMetaDataFromDatabase db' url =
      if metadata.guid.length < 10 ^ 9 then .ok (some metadata) else .error .bufferOverflow := by
  obtain ⟨ost, hrecord, rfl⟩ := writeMetaDataToDatabase_ok hworking h
  unfold readMetaDataFromDatabase
  rw [Database.working_insert, hworking, Database.value_insert_self,
    (nulFree_record hnul hrecord).cStr_eq]
  show (readMetaData ost >>= _) = _
  rw [readMetaData_record hrecord]
  split <;> rfl

theorem readMetaDataFromDatabase_congr {db db' : Database} {url : Text}
    (hworking : db'.working = db.working) (hvalue : db'.value url = db.value url) :
    readMetaDataFromDatabase db' url = readMetaDataFromDatabase db url := by
  unfold readMetaDataFromDatabase
  rw [hworking, hvalue]

theorem readMetaDataFromDatabase_ne_none {db : Database} {url data : Text}
    (hworking : db.working = true) (hvalue : db.value url = some data) :
    readMetaDataFromDatabase db url ≠ .ok none := by
  intro hnone
  unfold readMetaDataFromDatabase at hnone
  rw [hworking, hvalue] at hnone
  simp only [Bool.not_true, Bool.false_eq_true, if_false] at hnone
  obtain ⟨m, hdata, hnone⟩ := bind_eq_ok.mp hnone
  exact absurd hnone nofun

theorem nulFree_readMetaData {dbasedata : Text} {metadata : MetaData} (hnul : NulFree dbasedata)
    (h : readMetaData dbasedata = .ok metadata) : metadata.NulFree := by
  unfold readMetaData at h
  split at h
  · exact absurd h nofun
  · simp only at h
    cases hlengths : readLengths (readCount (dbasedata.drop 2)).1
        (readCount (dbasedata.drop 2)).2 with
    | error f =>
      rw [hlengths] at h
      exact absurd h nofun
    | ok r =>
      rw [hlengths] at h
      have hdata : NulFree r.2 := hnul.of_subset (List.Subset.trans (readLengths_subset hlengths)
        (List.Subset.trans (readCount_subset _) (List.drop_subset _ _)))
      refine readFields_nulFree hdata ?_ h (by decide)
      intro j s a hs ha
      simp only [MetaData.NulFree, List.forall_mem_cons] at ha ⊢
      obtain ⟨hartist, halbum, htitle, hcomment, hgenre, hguid, hnil⟩ := ha
      unfold setMetaData
      split <;> simp_all

theorem nulFree_readMetaDataFromDatabase {db : Database} {url : Text} {metadata : MetaData}
    (h : readMetaDataFromDatabase db url = .ok (some metadata)) : metadata.NulFree := by
  unfold readMetaDataFromDatabase at h
  split at h
  · exact absurd h nofun
  · split at h
    · exact absurd h nofun
    · rename_i dbasedata hvalue
      obtain ⟨m, hread, h⟩ := bind_eq_ok.mp h
      rw [← Option.some.inj (Except.ok.inj h)]
      exact nulFree_readMetaData (Database.nulFree_value hvalue) hread

/-- A record whose fields leave room for the numbers before them is put together. -/
theorem metaDataRecord_of_le {metadata : MetaData} (type : MetadataStorageType)
    (h : metadata.fields.flatten.length + 137 ≤ maxSize) :
    ∃ ost, metaDataRecord metadata type = .ok ost := by
  refine ⟨_, appendAll_of_le ?_⟩
  have hletter : type.letter.length = 1 := by cases type <;> rfl
  have hcount : (showNat 11).length = 2 := by decide
  have hdelimiter : kDatabaseDelimiter.length = 1 := rfl
  have hlengths : (metadata.fields.map fun s => printLong (UInt32.ofNat s.length) ++
      kDatabaseDelimiter).flatten.length ≤ 132 := by
    refine Nat.le_trans (length_flatten_le (k := 12) fun t ht => ?_) (by rfl)
    obtain ⟨s, hs, rfl⟩ := List.mem_map.mp ht
    rw [List.length_append]
    exact Nat.add_le_add_right (length_printLong_le _) 1
  simp only [List.flatten_append, List.length_append, List.flatten_cons, List.flatten_nil,
    List.append_nil, hletter, hcount, hdelimiter]
  omega

theorem writeMetaDataToDatabase_of_le (url : Text) (metadata : MetaData)
    (h : metadata.fields.flatten.length + 137 ≤ maxSize) :
    ∃ db', writeMetaDataToDatabase .empty url metadata .track = .ok db' := by
  obtain ⟨ost, hrecord⟩ := metaDataRecord_of_le .track h
  refine ⟨Database.empty.insert url ost, ?_⟩
  unfold writeMetaDataToDatabase
  rw [hrecord]
  rfl

/-- Metadata that has been written is read back as it was, exactly when its GUID has fewer
than `10^9` bytes. -/
theorem readMetaData_after_write_iff {db db' : Database} {url : Text} {metadata : MetaData}
    {type : MetadataStorageType} (hworking : db.working = true) (hnul : metadata.NulFree)
    (h : writeMetaDataToDatabase db url metadata type = .ok db') :
    readMetaDataFromDatabase db' url = .ok (some metadata) ↔ metadata.guid.length < 10 ^ 9 := by
  rw [readMetaDataFromDatabase_write hworking hnul h]
  constructor
  · intro hread
    by_contra hlong
    rw [if_neg hlong] at hread
    exact absurd hread nofun
  · intro hshort
    rw [if_pos hshort]

/-- An empty title, a comment of digits and a blank, and every number at its end. -/
def oddMetaData : MetaData :=
  { MetaData.new with
    artist := [32, 10]
    comment := [49, 50, 32]
    year := 0xFFFFFFFF
    size := 0x80000000 }

theorem readMetaData_after_write_odd :
    ∃ db', writeMetaDataToDatabase .empty [117] oddMetaData .track = .ok db' ∧
      readMetaDataFromDatabase db' [117] = .ok (some oddMetaData) := by
  obtain ⟨db', hwrite⟩ := writeMetaDataToDatabase_of_le [117] oddMetaData (by decide)
  have hnul : oddMetaData.NulFree := by decide
  exact ⟨db', hwrite, (readMetaData_after_write_iff rfl hnul hwrite).mpr (by decide)⟩

/-- Nothing but a GUID. -/
def MetaData.ofGuid (guid : Text) : MetaData := { MetaData.new with guid := guid }

theorem nulFree_ofGuid {guid : Text} (h : NulFree guid) : (MetaData.ofGuid guid).NulFree := by
  unfold MetaData.NulFree
  simp only [MetaData.ofGuid, MetaData.new, List.forall_mem_cons, List.not_mem_nil,
    IsEmpty.forall_iff, implies_true, and_true]
  exact ⟨nulFree_nil, nulFree_nil, nulFree_nil, nulFree_nil, nulFree_nil, h⟩

theorem length_fields_ofGuid (guid : Text) :
    (MetaData.ofGuid guid).fields.flatten.length = guid.length + 5 := by
  have hzero : printLong 0 = [48] := by decide
  simp only [MetaData.fields, MetaData.ofGuid, MetaData.new, hzero, List.flatten_cons,
    List.flatten_nil, List.length_append, List.length_nil, List.length_cons]
  omega

/-- Such metadata does not come back when the GUID has `10^9` bytes. -/
theorem readMetaData_ofGuid {guid : Text} (hnul : NulFree guid) (hlen : guid.length = 10 ^ 9) :
    ∃ db', writeMetaDataToDatabase .empty [117] (.ofGuid guid) .track = .ok db' ∧
      readMetaDataFromDatabase db' [117] = .error .bufferOverflow := by
  obtain ⟨db', hwrite⟩ := writeMetaDataToDatabase_of_le [117] (.ofGuid guid)
    (by rw [length_fields_ofGuid, hlen]; decide)
  refine ⟨db', hwrite, ?_⟩
  rw [readMetaDataFromDatabase_write rfl (nulFree_ofGuid hnul) hwrite, if_neg]
  show ¬ guid.length < 10 ^ 9
  rw [hlen]
  exact Nat.lt_irrefl _

/-- The length of a GUID of `10^9` bytes does not fit the reader's buffer. -/
theorem readMetaData_after_write_long :
    NulFree (List.replicate (10 ^ 9) 120) ∧
      ∃ db', writeMetaDataToDatabase .empty [117] (.ofGuid (List.replicate (10 ^ 9) 120)) .track =
          .ok db' ∧
        readMetaDataFromDatabase db' [117] = .error .bufferOverflow := by
  have hnul : NulFree (List.replicate (10 ^ 9) 120) :=
    fun h0 => absurd (List.eq_of_mem_replicate h0) (by decide)
  exact ⟨hnul, readMetaData_ofGuid hnul List.length_replicate⟩

end FreeAmp.Base
