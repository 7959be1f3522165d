/-
  Aps/Profiles.lean --- the profiles of an `APSInterface` and the file they are kept in, from
  `base/aps/apsinterface.cpp`.

  The file is the number of the profiles, a flag, and strings with their lengths before
  them.  Every string is written and read with an item count of 1, which an empty string
  does not give: the file ends there, and cannot be loaded.

  A write or a file that cannot be opened is left out.
-/
import FreeAmp.Base.PlaylistSort
import FreeAmp.Lib.SortedMap
import FreeAmp.Aps.Convert

namespace FreeAmp.Aps

open FreeAmp.Base FreeAmp.Lib

instance : IsStrictTotalOrder Text (· < ·) where
  irrefl := List.lt_irrefl
  trans _ _ _ := List.lt_trans
  trichotomous s t := by
    intro hst hts
    exact List.le_antisymm hts hst

/-- What of an `APSInterface` is kept in `profiles.txt`. -/
structure Profiles where
  profileMap : SortedMap Text Text
  currentProfile : Text
  collectionID : Text
  relatableOn : Bool
  deriving DecidableEq

namespace Profiles

/-- Those of a new `APSInterface`. -/
def fresh : Profiles := ⟨.empty, [], [], true⟩

/-! ## `WriteProfileMap` -/

/-- `fwrite` of the length of a string and of the string; after an empty one the function
returns. -/
def writeStrings : List Text → Text
  | [] => []
  | s :: rest =>
    toLittle sizeofInt s.length ++ if s = [] then [] else s ++ writeStrings rest

/-- The text that stands for an absent value. -/
def orNull (s : Text) : Text := if s = [] then bytes "NULL" else s

/-- The strings in the order in which they are written. -/
def strings (p : Profiles) : List Text :=
  orNull p.currentProfile :: orNull p.collectionID ::
    p.profileMap.entries.flatMap fun i => [i.1, i.2]

/-- `WriteProfileMap`: the bytes that the file holds when it is closed. -/
def writeProfileMap (p : Profiles) : Text :=
  toLittle sizeofInt p.profileMap.entries.length ++
    ((if p.relatableOn then [1] else [0]) ++ writeStrings p.strings)

/-! ## `LoadProfileMap` -/

/-- How `LoadProfileMap` stops before it has read the file. -/
inductive LoadError where
  /-- it returns `APS_PARAMERROR` -/
  | paramError
  /-- the buffer is written or read beyond its end, or there is no array of the size -/
  | fault
  deriving DecidableEq, Repr

def bufLen : Nat := 2048

/-- `fread(&n, sizeof(int), 1, pfIn)` -/
def readInt : Reader LoadError Int := fun file pos =>
  if pos + sizeofInt ≤ file.length then
    .ok (toLong (UInt32.ofNat (ofLittle ((file.drop pos).take sizeofInt))), pos + sizeofInt)
  else .error .paramError

/-- `fread(&bIsOn, sizeof(bool), 1, pfIn)` -/
def readFlag : Reader LoadError Bool := fun file pos =>
  match file[pos]? with
  | some c => .ok (c != 0, pos + 1)
  | none => .error .paramError

/-- `fread` of a length and of as many bytes into `pBuffer`, which holds zeros.  A negative
length is a large one. -/
def readField : Reader LoadError Text := fun file pos => do
  let (nStrLen, pos) ← readInt file pos
  let there := file.length - pos
  if nStrLen = 0 then .error .paramError
  else if nStrLen < 0 ∨ there < nStrLen.toNat then
    .error (if bufLen < there then .fault else .paramError)
  else if bufLen ≤ nStrLen.toNat then .error .fault
  else .ok (cStr ((file.drop pos).take nStrLen.toNat), pos + nStrLen.toNat)

/-- A name and its GUID. -/
def readEntry : Reader LoadError (Text × Text) := fun file pos => do
  let (name, pos) ← readField file pos
  let (guid, pos) ← readField file pos
  .ok ((name, guid), pos)

/-- What the file holds. -/
structure Loaded where
  relatableOn : Bool
  currentProfile : Text
  collectionID : Text
  entries : List (Text × Text)
  deriving DecidableEq, Repr

/-- `LoadProfileMap` up to where the file has been read. -/
def readProfileMap (file : Text) : Except LoadError Loaded := do
  let (nNumProfiles, pos) ← readInt file 0
  let (bIsOn, pos) ← readFlag file pos
  let (strCurrentProfileName, pos) ← readField file pos
  let (strCollectionID, pos) ← readField file pos
  -- `new string[nNumProfiles]`
  if nNumProfiles < 0 then .error .fault
  else do
    let (entries, _) ← readMany readEntry nNumProfiles.toNat file pos
    .ok ⟨bIsOn, strCurrentProfileName, strCollectionID, entries⟩

/-- `ChangeProfile`, which only knows the profiles of the map. -/
def changeProfile (p : Profiles) (name : Text) : Option Profiles :=
  if name ∈ p.profileMap.keys then some { p with currentProfile := name } else none

/-- What is done with the file once it has been read. -/
def apply (p : Profiles) (l : Loaded) : Profiles :=
  let p : Profiles :=
    { p with
      collectionID := if l.collectionID = bytes "NULL" then [] else l.collectionID,
      relatableOn := l.relatableOn,
      profileMap := (l.entries.filter fun i => i.1 ≠ [] ∧ i.2 ≠ []).foldl
        (fun m i => m.insert i.1 i.2) p.profileMap }
  if l.currentProfile = [] then p else (p.changeProfile l.currentProfile).getD p

/-- `LoadProfileMap`, where there is a result. -/
def loadProfileMap (p : Profiles) (file : Option Text) : Option Profiles :=
  match file with
  | none => some p
  | some file =>
    match readProfileMap file with
    | .ok l => some (p.apply l)
    | .error .paramError => some p
    | .error .fault => none

/-! ## Reading what was written -/

/-- A string that fits into the buffer and is read back whole. -/
def Storable (s : Text) : Prop := NulFree s ∧ s.length < bufLen

instance (s : Text) : Decidable (Storable s) := inferInstanceAs (Decidable (_ ∧ _))

/-- A string with its length before it. -/
def encodeField (s : Text) : Text := toLittle sizeofInt s.length ++ s

def encodeEntry (i : Text × Text) : Text := encodeField i.1 ++ encodeField i.2

theorem toLong_ofNat_small {n : Nat} (h : n < 2 ^ 31) : toLong (UInt32.ofNat n) = n := by
  simp only [toLong, UInt32.toNat_ofNat']
  split <;> omega

theorem readInt_append {n : Nat} (h : n < 256 ^ sizeofInt) (before after : Text) :
    readInt (before ++ (toLittle sizeofInt n ++ after)) before.length =
      .ok (toLong (UInt32.ofNat n), before.length + sizeofInt) := by
  have hroom : before.length + sizeofInt ≤
      (before ++ (toLittle sizeofInt n ++ after)).length := by
    simp only [List.length_append, length_toLittle]
    omega
  rw [readInt, if_pos hroom, List.drop_left, List.take_left' (length_toLittle _ _),
    ofLittle_toLittle h]

theorem reads_int {n : Nat} (h : n < 256 ^ sizeofInt) :
    Reads readInt (toLittle sizeofInt n) (toLong (UInt32.ofNat n)) := by
  intro before after
  rw [List.append_assoc, readInt_append h, length_toLittle]

theorem reads_flag (on : Bool) : Reads readFlag (if on then [1] else [0]) on := by
  intro before after
  cases on <;> simp [readFlag]

theorem storable_length {s : Text} (h : Storable s) : s.length < 256 ^ sizeofInt :=
  Nat.lt_trans h.2 (by decide)

theorem reads_field {s : Text} (hne : s ≠ []) (h : Storable s) :
    Reads readField (encodeField s) s := by
  intro before after
  have hint := readInt_append (storable_length h) before (s ++ after)
  have hpos : 0 < s.length := List.length_pos_iff.mpr hne
  have hsmall := h.2
  rw [bufLen] at hsmall
  rw [toLong_ofNat_small (by omega)] at hint
  have hfile : before ++ encodeField s ++ after =
      before ++ (toLittle sizeofInt s.length ++ (s ++ after)) := by
    rw [encodeField, List.append_assoc, List.append_assoc]
  have hthere : (before ++ (toLittle sizeofInt s.length ++ (s ++ after))).length -
      (before.length + sizeofInt) = s.length + after.length := by
    simp only [List.length_append, length_toLittle]
    omega
  have hbytes : ((before ++ (toLittle sizeofInt s.length ++ (s ++ after))).drop
      (before.length + sizeofInt)).take s.length = s := by
    rw [← List.drop_drop, List.drop_left, List.drop_left' (length_toLittle _ _), List.take_left]
  rw [hfile, readField, hint]
  simp only [ok_bind, hthere, Int.toNat_natCast, hbytes]
  rw [if_neg (by omega), if_neg (by omega), if_neg (by rw [bufLen]; omega), h.1.cStr_eq,
    encodeField, List.length_append, length_toLittle, Nat.add_assoc]

theorem reads_entry {i : Text × Text} (hne : i.1 ≠ [] ∧ i.2 ≠ [])
    (h : Storable i.1 ∧ Storable i.2) : Reads readEntry (encodeEntry i) i :=
  (reads_field hne.1 h.1).bind (g := fun name file pos => do
    let (guid, pos) ← readField file pos
    .ok ((name, guid), pos)) ((reads_field hne.2 h.2).map (i.1, ·))

theorem writeStrings_cons_nil (rest : List Text) :
    writeStrings ([] :: rest) = toLittle sizeofInt 0 := by
  simp [writeStrings]

theorem writeStrings_cons {s : Text} (hne : s ≠ []) (rest : List Text) :
    writeStrings (s :: rest) = encodeField s ++ writeStrings rest := by
  rw [writeStrings, if_neg hne, encodeField, List.append_assoc]

theorem writeStrings_entries : ∀ {entries : List (Text × Text)},
    (∀ i ∈ entries, i.1 ≠ [] ∧ i.2 ≠ []) →
      writeStrings (entries.flatMap fun i => [i.1, i.2]) = entries.flatMap encodeEntry := by
  intro entries
  induction entries with
  | nil => intro _; rfl
  | cons i entries ih =>
    intro h
    obtain ⟨hname, hguid⟩ := h i List.mem_cons_self
    show writeStrings (i.1 :: i.2 :: entries.flatMap fun i => [i.1, i.2]) = _
    rw [writeStrings_cons hname, writeStrings_cons hguid,
      ih fun j hj => h j (List.mem_cons_of_mem i hj), List.flatMap_cons, encodeEntry,
      List.append_assoc]

theorem orNull_ne_nil (s : Text) : orNull s ≠ [] := by
  unfold orNull
  split
  · decide
  · assumption

theorem storable_orNull {s : Text} (h : Storable s) : Storable (orNull s) := by
  unfold orNull
  split
  · decide
  · exact h

/-- What every `APSInterface` is known to keep. -/
structure Kept (p : Profiles) : Prop where
  names : ∀ i ∈ p.profileMap.entries, i.1 ≠ []
  entries : ∀ i ∈ p.profileMap.entries, Storable i.1 ∧ Storable i.2
  current : Storable p.currentProfile
  known : p.currentProfile = [] ∨ p.currentProfile ∈ p.profileMap.keys
  collection : Storable p.collectionID

/-- The bytes before the entries. -/
def headBytes (p : Profiles) : Text :=
  toLittle sizeofInt p.profileMap.entries.length ++
    ((if p.relatableOn then [1] else [0]) ++
      (encodeField (orNull p.currentProfile) ++ encodeField (orNull p.collectionID)))

theorem writeProfileMap_eq (p : Profiles) :
    p.writeProfileMap = p.headBytes ++
      writeStrings (p.profileMap.entries.flatMap fun i => [i.1, i.2]) := by
  rw [writeProfileMap, strings, writeStrings_cons (orNull_ne_nil _),
    writeStrings_cons (orNull_ne_nil _), headBytes]
  simp only [List.append_assoc]

theorem readProfileMap_eq {p : Profiles} (h : Kept p)
    (hcount : p.profileMap.entries.length < 256 ^ sizeofInt) (rest : Text) :
    readProfileMap (p.headBytes ++ rest) =
      if toLong (UInt32.ofNat p.profileMap.entries.length) < 0 then .error .fault
      else
        (readMany readEntry (toLong (UInt32.ofNat p.profileMap.entries.length)).toNat
          (p.headBytes ++ rest) p.headBytes.length).map fun r =>
            ⟨p.relatableOn, orNull p.currentProfile, orNull p.collectionID, r.1⟩ := by
  have hint := reads_int hcount [] ((if p.relatableOn then [1] else [0]) ++
    (encodeField (orNull p.currentProfile) ++ (encodeField (orNull p.collectionID) ++ rest)))
  have hflag := reads_flag p.relatableOn (toLittle sizeofInt p.profileMap.entries.length)
    (encodeField (orNull p.currentProfile) ++ (encodeField (orNull p.collectionID) ++ rest))
  have hcurrent := reads_field (orNull_ne_nil _) (storable_orNull h.current)
    (toLittle sizeofInt p.profileMap.entries.length ++ (if p.relatableOn then [1] else [0]))
    (encodeField (orNull p.collectionID) ++ rest)
  have hcollection := reads_field (orNull_ne_nil _) (storable_orNull h.collection)
    (toLittle sizeofInt p.profileMap.entries.length ++ ((if p.relatableOn then [1] else [0]) ++
      encodeField (orNull p.currentProfile))) rest
  simp only [List.append_assoc, List.nil_append, List.length_append, List.length_nil,
    Nat.zero_add] at hint hflag hcurrent hcollection
  simp only [readProfileMap, headBytes, List.append_assoc, hint, ok_bind, hflag,
    List.length_append]
  simp only [Nat.add_assoc] at hcurrent hcollection
  simp only [hcurrent, ok_bind, hcollection, Nat.add_assoc]
  split
  · rfl
  · cases readMany readEntry _ _ _ <;> rfl

theorem readMany_entries {entries : List (Text × Text)}
    (hne : ∀ i ∈ entries, i.1 ≠ [] ∧ i.2 ≠ [])
    (hstorable : ∀ i ∈ entries, Storable i.1 ∧ Storable i.2) (before : Text) :
    readMany readEntry entries.length
        (before ++ writeStrings (entries.flatMap fun i => [i.1, i.2])) before.length =
      .ok (entries, before.length + (entries.flatMap encodeEntry).length) := by
  have hread := Reads.many (fun i hi => reads_entry (hne i hi) (hstorable i hi)) before []
  rw [List.append_nil] at hread
  rw [writeStrings_entries hne, hread]

theorem readField_empty (before : Text) :
    readField (before ++ toLittle sizeofInt 0) before.length = .error .paramError := by
  have hint := @readInt_append 0 (by decide) before []
  rw [List.append_nil] at hint
  rw [readField, hint]
  rfl

theorem readMany_empty : ∀ {entries : List (Text × Text)},
    (∀ i ∈ entries, i.1 ≠ []) → (∀ i ∈ entries, Storable i.1 ∧ Storable i.2) →
      (∃ i ∈ entries, i.2 = []) → ∀ before : Text,
        readMany readEntry entries.length
          (before ++ writeStrings (entries.flatMap fun i => [i.1, i.2])) before.length =
            .error .paramError := by
  intro entries
  induction entries with
  | nil =>
    intro _ _ hempty
    obtain ⟨i, hi, -⟩ := hempty
    exact absurd hi List.not_mem_nil
  | cons i entries ih =>
    intro hne hstorable hempty before
    obtain ⟨hname, hguid⟩ := hstorable i List.mem_cons_self
    have hnamed := hne i List.mem_cons_self
    have hfile : writeStrings ((i :: entries).flatMap fun i => [i.1, i.2]) =
        encodeField i.1 ++ writeStrings (i.2 :: entries.flatMap fun i => [i.1, i.2]) :=
      writeStrings_cons hnamed _
    have hfirst := reads_field hnamed hname before
      (writeStrings (i.2 :: entries.flatMap fun i => [i.1, i.2]))
    rw [List.length_cons, readMany, hfile, ← List.append_assoc, readEntry]
    simp only [hfirst, ok_bind]
    by_cases hzero : i.2 = []
    · have hsecond := readField_empty (before ++ encodeField i.1)
      rw [List.length_append] at hsecond
      rw [hzero, writeStrings_cons_nil, hsecond]
      rfl
    · have hsecond := reads_field hzero hguid (before ++ encodeField i.1)
        (writeStrings (entries.flatMap fun i => [i.1, i.2]))
      have hrest := ih (fun j hj => hne j (List.mem_cons_of_mem i hj))
        (fun j hj => hstorable j (List.mem_cons_of_mem i hj))
        (by
          obtain ⟨j, hj, hnil⟩ := hempty
          rcases List.mem_cons.mp hj with rfl | hj
          · exact absurd hnil hzero
          · exact ⟨j, hj, hnil⟩)
        (before ++ encodeField i.1 ++ encodeField i.2)
      rw [List.append_assoc (before ++ encodeField i.1) (encodeField i.2),
        List.length_append, List.length_append] at hrest
      rw [List.append_assoc (before ++ encodeField i.1) (encodeField i.2),
        List.length_append] at hsecond
      rw [writeStrings_cons hzero, hsecond]
      simp only [ok_bind, hrest]
      rfl

/-- Fewer entries than `int` has positive values are ever loaded. -/
theorem length_readMany {φ α : Type} {read : Reader φ α} : ∀ {n : Nat} {file : Text} {pos : Nat}
    {r : List α × Nat}, readMany read n file pos = .ok r → r.1.length = n := by
  intro n
  induction n with
  | zero =>
    intro file pos r h
    obtain rfl := Except.ok.inj h
    rfl
  | succ n ih =>
    intro file pos r h
    obtain ⟨⟨x, pos'⟩, -, hrest⟩ := bind_eq_ok.mp h
    obtain ⟨⟨xs, pos''⟩, hxs, hr⟩ := bind_eq_ok.mp hrest
    obtain rfl := Except.ok.inj hr
    rw [List.length_cons, ih hxs]

theorem readInt_lt {file : Text} {pos : Nat} {r : Int × Nat} (h : readInt file pos = .ok r) :
    r.1 ≤ 2147483647 := by
  rw [readInt] at h
  split at h
  · obtain rfl := Except.ok.inj h
    exact toLong_high _
  · exact absurd h nofun

theorem length_readProfileMap {file : Text} {l : Loaded} (h : readProfileMap file = .ok l) :
    l.entries.length < 2 ^ 31 := by
  obtain ⟨⟨n, pos⟩, hn, h⟩ := bind_eq_ok.mp h
  obtain ⟨⟨on, pos⟩, -, h⟩ := bind_eq_ok.mp h
  obtain ⟨⟨current, pos⟩, -, h⟩ := bind_eq_ok.mp h
  obtain ⟨⟨collection, pos⟩, -, h⟩ := bind_eq_ok.mp h
  simp only at h
  have hle : n ≤ 2147483647 := readInt_lt hn
  split at h
  · exact absurd h nofun
  · obtain ⟨⟨entries, pos⟩, hentries, h⟩ := bind_eq_ok.mp h
    obtain rfl := Except.ok.inj h
    have hlen := length_readMany hentries
    simp only at hlen ⊢
    omega

/-! ## What comes back -/

/-- The profiles that come back from the file they are written to: every GUID and, if there
is none, the name of the current profile can be told from an absent value. -/
structure Restorable (p : Profiles) : Prop where
  guids : ∀ i ∈ p.profileMap.entries, i.2 ≠ []
  collection : p.collectionID ≠ bytes "NULL"
  current : p.currentProfile = [] → bytes "NULL" ∉ p.profileMap.keys
  count : p.profileMap.entries.length < 2 ^ 31

/-- A file with these profiles is loaded into a new `APSInterface` as what it was. -/
def ComesBack (p : Profiles) (file : Option Text) : Prop :=
  fresh.loadProfileMap file = some p

theorem changeProfile_getD (p : Profiles) (name : Text) :
    (p.changeProfile name).getD p =
      { p with currentProfile := if name ∈ p.profileMap.keys then name else p.currentProfile } := by
  unfold changeProfile
  split <;> rfl

theorem length_apply (l : Loaded) :
    (fresh.apply l).profileMap.entries.length ≤ l.entries.length := by
  have hmap : (fresh.apply l).profileMap =
      .ofEntries (l.entries.filter fun i => i.1 ≠ [] ∧ i.2 ≠ []) := by
    simp only [apply, changeProfile_getD]
    split <;> split <;> rfl
  rw [hmap]
  exact (SortedMap.length_ofEntries_le _).trans (List.length_filter_le _ _)

theorem count_of_comesBack {p : Profiles} {file : Option Text} (h : ComesBack p file) :
    p.profileMap.entries.length < 2 ^ 31 := by
  unfold ComesBack loadProfileMap at h
  cases file with
  | none =>
    obtain rfl := Option.some.inj h
    decide
  | some file =>
    simp only at h
    cases hread : readProfileMap file with
    | error e =>
      rw [hread] at h
      cases e with
      | paramError =>
        obtain rfl := Option.some.inj h
        decide
      | fault => exact absurd h nofun
    | ok l =>
      rw [hread] at h
      obtain rfl := Option.some.inj h
      have hloaded := length_readProfileMap hread
      have hle := length_apply l
      omega

theorem load_written {p : Profiles} (h : Kept p) (hguids : ∀ i ∈ p.profileMap.entries, i.2 ≠ [])
    (hcount : p.profileMap.entries.length < 2 ^ 31) :
    fresh.loadProfileMap (some p.writeProfileMap) =
      some (fresh.apply ⟨p.relatableOn, orNull p.currentProfile, orNull p.collectionID,
        p.profileMap.entries⟩) := by
  have hentries := readMany_entries (fun i hi => ⟨h.names i hi, hguids i hi⟩) h.entries
    p.headBytes
  have hread := readProfileMap_eq h (Nat.lt_trans hcount (by decide))
    (writeStrings (p.profileMap.entries.flatMap fun i => [i.1, i.2]))
  rw [toLong_ofNat_small hcount, if_neg (by omega), Int.toNat_natCast, hentries] at hread
  rw [loadProfileMap, writeProfileMap_eq, hread]
  rfl

theorem load_empty {p : Profiles} (h : Kept p) (hempty : ∃ i ∈ p.profileMap.entries, i.2 = [])
    (hcount : p.profileMap.entries.length < 2 ^ 31) :
    fresh.loadProfileMap (some p.writeProfileMap) = some fresh := by
  have hentries := readMany_empty h.names h.entries hempty p.headBytes
  have hread := readProfileMap_eq h (Nat.lt_trans hcount (by decide))
    (writeStrings (p.profileMap.entries.flatMap fun i => [i.1, i.2]))
  rw [toLong_ofNat_small hcount, if_neg (by omega), Int.toNat_natCast, hentries] at hread
  rw [loadProfileMap, writeProfileMap_eq, hread]
  rfl

theorem orNull_nil : orNull [] = bytes "NULL" := rfl

theorem orNull_of_ne {s : Text} (h : s ≠ []) : orNull s = s := by
  rw [orNull, if_neg h]

/-- The map, the flag and the collection of what was written. -/
theorem apply_written {p : Profiles} (h : Kept p)
    (hguids : ∀ i ∈ p.profileMap.entries, i.2 ≠ []) :
    fresh.apply ⟨p.relatableOn, orNull p.currentProfile, orNull p.collectionID,
        p.profileMap.entries⟩ =
      { p with
        currentProfile := if orNull p.currentProfile ∈ p.profileMap.keys then
          orNull p.currentProfile else [],
        collectionID := if orNull p.collectionID = bytes "NULL" then [] else p.collectionID } := by
  have hall : (p.profileMap.entries.filter fun i => i.1 ≠ [] ∧ i.2 ≠ []) =
      p.profileMap.entries := by
    rw [List.filter_eq_self]
    intro i hi
    simp [h.names i hi, hguids i hi]
  have hmap : p.profileMap.entries.foldl (fun m i => m.insert i.1 i.2) fresh.profileMap =
      p.profileMap := SortedMap.ofEntries_entries p.profileMap
  have hcollection : (if orNull p.collectionID = bytes "NULL" then [] else
      orNull p.collectionID) =
        if orNull p.collectionID = bytes "NULL" then [] else p.collectionID := by
    by_cases hnil : p.collectionID = []
    · rw [hnil, orNull_nil, if_pos rfl, if_pos rfl]
    · rw [orNull_of_ne hnil]
  simp only [apply, hall, hmap, orNull_ne_nil, if_false, hcollection, changeProfile_getD]
  rfl

/-- Profiles come back from the file they are written to exactly when they are restorable. -/
theorem comesBack_iff {p : Profiles} (h : Kept p) :
    ComesBack p (some p.writeProfileMap) ↔ Restorable p := by
  constructor
  · intro hback
    have hcount := count_of_comesBack hback
    have hguids : ∀ i ∈ p.profileMap.entries, i.2 ≠ [] := by
      intro i hi hnil
      rw [ComesBack, load_empty h ⟨i, hi, hnil⟩ hcount] at hback
      obtain rfl := Option.some.inj hback
      exact absurd hi List.not_mem_nil
    rw [ComesBack, load_written h hguids hcount, apply_written h hguids] at hback
    have heq := Option.some.inj hback
    refine ⟨hguids, ?_, ?_, hcount⟩
    · intro hnull
      have hcollection := congrArg collectionID heq
      simp only [hnull] at hcollection
      exact absurd hcollection (by decide)
    · intro hnil hnull
      have hcurrent := congrArg currentProfile heq
      simp only [hnil, orNull_nil, hnull, if_true] at hcurrent
      exact absurd hcurrent (by decide)
  · intro hgood
    rw [ComesBack, load_written h hgood.guids hgood.count, apply_written h hgood.guids]
    congr 1
    have hcurrent : (if orNull p.currentProfile ∈ p.profileMap.keys then
        orNull p.currentProfile else []) = p.currentProfile := by
      by_cases hnil : p.currentProfile = []
      · rw [hnil, orNull_nil, if_neg (hgood.current hnil)]
      · rw [orNull_of_ne hnil, if_pos (h.known.resolve_left hnil)]
    have hcollection : (if orNull p.collectionID = bytes "NULL" then [] else p.collectionID) =
        p.collectionID := by
      by_cases hnil : p.collectionID = []
      · rw [hnil, orNull_nil, if_pos rfl]
      · rw [orNull_of_ne hnil, if_neg hgood.collection]
    rw [hcurrent, hcollection]

end Profiles

end FreeAmp.Aps
