/-
  Plm/Id3v1.lean --- reading an ID3v1 tag, from `plm/metadata/id3v1/id3v1.cpp`.

      killTrailingSpaces_iff    which strings are trimmed
      readMetaData_right_iff    when the fields of a tag replace what is there, each by itself
      readMetaData_render       a tag that `id3::v1::render` writes, from `tag_render.cpp`, is read

  All fields go through one buffer.  The genre, which is a number in the tag, is compared
  with what the comment has left in it.
-/
import FreeAmp.Base.Database
import FreeAmp.Lib.SeekFile
import Mathlib.Data.List.DropRight

namespace FreeAmp.Plm.Id3v1

open FreeAmp.Base FreeAmp.Lib

def genreStrings : List String := [
    "Blues", "Classic Rock", "Country", "Dance", "Disco", "Funk", "Grunge", "Hip-Hop", "Jazz",
    "Metal", "New Age", "Oldies", "Other", "Pop", "R&B", "Rap", "Reggae", "Rock", "Techno",
    "Industrial", "Alternative", "Ska", "Death Metal", "Pranks", "Soundtrack", "Euro-Techno",
    "Ambient", "Trip-Hop", "Vocal", "Jazz+Funk", "Fusion", "Trance", "Classical", "Instrumental",
    "Acid", "House", "Game", "Sound Clip", "Gospel", "Noise", "Alternative Rock", "Bass", "Soul",
    "Punk", "Space", "Meditative", "Instrumental Pop", "Instrumental Rock", "Ethnic", "Gothic",
    "Darkwave", "Techno-Industrial", "Electronic", "Pop-Folk", "Eurodance", "Dream",
    "Southern Rock", "Comedy", "Cult", "Gangsta", "Top 40", "Christian Rap", "Pop/Funk", "Jungle",
    "Native American", "Cabaret", "New Wave", "Psychadelic", "Rave", "Showtunes", "Trailer",
    "Lo-Fi", "Tribal", "Acid Punk", "Acid Jazz", "Polka", "Retro", "Musical", "Rock & Roll",
    "Hard Rock", "Folk", "Folk-Rock", "National Folk", "Swing", "Fast Fusion", "Bebob", "Latin",
    "Revival", "Celtic", "Bluegrass", "Avantgarde", "Gothic Rock", "Progressive Rock",
    "Psychedelic Rock", "Symphonic Rock", "Slow Rock", "Big Band", "Chorus", "Easy Listening",
    "Acoustic", "Humour", "Speech", "Chanson", "Opera", "Chamber Music", "Sonata", "Symphony",
    "Booty Bass", "Primus", "Porn Groove", "Satire", "Slow Jam", "Club", "Tango", "Samba",
    "Folklore", "Ballad", "Power Ballad", "Rhythmic Soul", "Freestyle", "Duet", "Punk Rock",
    "Drum Solo", "Acapella", "Euro-House", "Dance Hall", "Goa", "Drum & Bass", "Club-House",
    "Hardcore", "Terror", "Indie", "BritPop", "Negerpunk", "Polsk Punk", "Beat",
    "Christian Gangsta Rap", "Heavy Metal", "Black Metal", "Crossover", "Contemporary Christian",
    "Christian Rock", "Merengue", "Salsa", "Thrash Metal", "Anime", "Jpop", "Synthpop"]

/-! ## `KillTrailingSpaces` -/

/-- The loop with `cp` at this place of the string; none when it reads before the string. -/
def killFrom (string : Text) : Nat → Option Text
  | 0 => none
  | cp + 1 =>
    if string[cp]? = some 32 ∧ cp ≠ 0 then killFrom string cp else some (string.take (cp + 1))

def killTrailingSpaces (string : Text) : Option Text := killFrom string string.length

/-! ## `ReadMetaData` -/

/-- `strncpy(buffer, field, n)` with a NUL behind it, and the field at this place of the tag. -/
def fieldAt (id3 : Text) (place n : Nat) : Text := cStr ((id3.drop place).take n)

/-- The text of a field when it is longer. -/
def longer (buffer old : Text) : Text := if old.length < buffer.length then buffer else old

/-- `id3.v1_1.zero` -/
def zero (id3 : Text) : UInt8 := id3.getD 125 0

/-- `id3.v1_1.track`, a `char`. -/
def track (id3 : Text) : UInt8 := id3.getD 126 0

/-- `id3.v1_0.genre`, a `char`. -/
def genre (id3 : Text) : UInt8 := id3.getD 127 0

def signedChar (c : UInt8) : Int := if c < 128 then c.toNat else c.toNat - 256

/-- What becomes of the track. -/
def readTrack (id3 : Text) (old : UInt32) : UInt32 :=
  if zero id3 = 0 ∧ track id3 ≠ 0 then UInt32.ofInt (signedChar (track id3)) else old

def unknownGenre : Text := bytes "\x7bunknown\x7d"

/-- What becomes of the genre; `buffer` is what the comment has left. -/
def readGenre (id3 buffer old : Text) : Text :=
  match genreStrings[(genre id3).toNat]? with
  | some name =>
    if 0 ≤ signedChar (genre id3) then
      if old.length < buffer.length then bytes name else old
    else if old = [] then unknownGenre else old
  | none => if old = [] then unknownGenre else old

/-- The comment of the tag, as it is copied. -/
def commentField (id3 : Text) : Text := fieldAt id3 97 (if zero id3 ≠ 0 then 30 else 28)

/-- `ReadMetaData`, where there is a tag; none when it reads outside `buffer`. -/
def readTag (id3 : Text) (metadata : MetaData) : Option MetaData := do
  let artist ← killTrailingSpaces (fieldAt id3 33 30)
  let album ← killTrailingSpaces (fieldAt id3 63 30)
  let title ← killTrailingSpaces (fieldAt id3 3 30)
  let year ← killTrailingSpaces (fieldAt id3 93 4)
  let comment ← killTrailingSpaces (commentField id3)
  pure { metadata with
    artist := longer artist metadata.artist
    album := longer album metadata.album
    title := longer title metadata.title
    year := UInt32.ofInt (atoi year)
    comment := longer comment metadata.comment
    track := readTrack id3 metadata.track
    genre := readGenre id3 comment metadata.genre }

/-- `strrchr(url, '.')` -/
def fromLastDot (url : Text) : Option Text :=
  if 46 ∈ url then some (46 :: (url.reverse.takeWhile (· != 46)).reverse) else none

/-- The URL ends like that of an mp3 file. -/
def isMp3 (url : Text) : Bool :=
  match fromLastDot url with
  | some ptr => (cStr ptr).map toLower == bytes ".mp3"
  | none => false

/-- `ReadMetaData`; `fp`: the file, if it can be opened. -/
def readMetaData (url : Text) (fp : Option Text) (metadata : MetaData) :
    Option (Bool × MetaData) :=
  if !isMp3 url then some (false, metadata)
  else
    match fp.bind fun file => (SeekFile.opened file).seekBack 128 with
    | none => some (false, metadata)
    | some fp =>
      let id3 := fp.ahead 128
      if id3.length = 128 ∧ id3.take 3 = bytes "TAG" then
        (readTag id3 metadata).map fun metadata => (true, metadata)
      else some (false, metadata)

/-! ## What is to become of the metadata -/

/-- Without the spaces at the end. -/
def trimmed (string : Text) : Text := string.rdropWhile (· == 32)

/-- The name of the genre, if the number has one. -/
def genreName (id3 : Text) : Option Text := (genreStrings[(genre id3).toNat]?).map bytes

/-- Each field that is longer replaces what is there; the year and the track always do. -/
def replaced (id3 : Text) (metadata : MetaData) : MetaData :=
  { metadata with
    artist := longer (trimmed (fieldAt id3 33 30)) metadata.artist
    album := longer (trimmed (fieldAt id3 63 30)) metadata.album
    title := longer (trimmed (fieldAt id3 3 30)) metadata.title
    year := UInt32.ofInt (atoi (trimmed (fieldAt id3 93 4)))
    comment := longer (trimmed (commentField id3)) metadata.comment
    track := if zero id3 = 0 ∧ track id3 ≠ 0 then UInt32.ofNat (track id3).toNat
      else metadata.track
    genre := match genreName id3 with
      | some name => longer name metadata.genre
      | none => metadata.genre }

/-- What goes through the buffer. -/
def bufferTexts (id3 : Text) : List Text :=
  [fieldAt id3 33 30, fieldAt id3 63 30, fieldAt id3 3 30, fieldAt id3 93 4, commentField id3]

/-- A file with a tag at its end. -/
def tagOf (file : Text) : Text := file.drop (file.length - 128)

def HasTag (file : Text) : Prop := 128 ≤ file.length ∧ (tagOf file).take 3 = bytes "TAG"

/-- All strings are trimmed in the buffer, and the metadata are replaced. -/
def ReadsRight (url file : Text) (metadata : MetaData) : Prop :=
  (∀ text ∈ bufferTexts (tagOf file), killTrailingSpaces text = some (trimmed text)) ∧
    readMetaData url (some file) metadata = some (true, replaced (tagOf file) metadata)

/-! ## When it does -/

/-- The genre comes out right by the length of the comment. -/
def GenreFits (id3 : Text) (old : Text) : Prop :=
  (genreName id3 = none → old ≠ []) ∧
    ∀ name, genreName id3 = some name →
      (genre id3 < 128 → old = name ∨
        (old.length < (trimmed (commentField id3)).length ↔ old.length < name.length)) ∧
      (¬genre id3 < 128 → old ≠ [] ∧ name.length ≤ old.length)

/-- The condition on a tag and on what is there. -/
structure Readable (id3 : Text) (metadata : MetaData) : Prop where
  texts : ∀ text ∈ bufferTexts id3, ∃ c ∈ text, c ≠ 32
  genre : GenreFits id3 metadata.genre
  track : zero id3 = 0 → track id3 < 128

/-! ## Strings -/

theorem trimmed_concat_space (s : Text) : trimmed (s ++ [32]) = trimmed s :=
  List.rdropWhile_concat_pos _ _ _ rfl

theorem trimmed_concat_of_ne (s : Text) {c : UInt8} (h : c ≠ 32) : trimmed (s ++ [c]) = s ++ [c] :=
  List.rdropWhile_concat_neg _ _ _ (by simpa using h)

/-- What the loop leaves, where there is something to stop at. -/
theorem killFrom_eq {s : Text} : ∀ cp ≤ s.length, (∃ c ∈ s.take cp, c ≠ 32) →
    killFrom s cp = some (trimmed (s.take cp)) := by
  intro cp
  induction cp with
  | zero => exact fun _ ⟨c, hc, _⟩ => absurd hc List.not_mem_nil
  | succ cp ih =>
    intro hle hsome
    have hlt : cp < s.length := hle
    have htake : s.take (cp + 1) = s.take cp ++ [s[cp]] := List.take_succ_eq_append_getElem hlt
    rw [killFrom, List.getElem?_eq_getElem hlt]
    by_cases hspace : s[cp] = 32
    · have hbefore : ∃ c ∈ s.take cp, c ≠ 32 := by
        obtain ⟨c, hc, hne⟩ := hsome
        rw [htake, hspace] at hc
        rcases List.mem_append.mp hc with hc | hc
        · exact ⟨c, hc, hne⟩
        · exact absurd (List.mem_singleton.mp hc) hne
      have hpos : cp ≠ 0 := by
        rintro rfl
        obtain ⟨c, hc, -⟩ := hbefore
        exact List.not_mem_nil hc
      rw [if_pos ⟨congrArg some hspace, hpos⟩, ih hlt.le hbefore, htake, hspace,
        trimmed_concat_space]
    · rw [if_neg fun h => hspace (Option.some.inj h.1), htake, trimmed_concat_of_ne _ hspace]

theorem killFrom_ne_nil {s r : Text} (hs : s ≠ []) :
    ∀ {cp : Nat}, killFrom s cp = some r → r ≠ [] := by
  intro cp
  induction cp with
  | zero => exact nofun
  | succ cp ih =>
    intro h
    rw [killFrom] at h
    split at h
    · exact ih h
    · rw [← Option.some.inj h]
      intro hnil
      rcases List.take_eq_nil_iff.mp hnil with hzero | hnil
      · exact absurd hzero (Nat.succ_ne_zero cp)
      · exact hs hnil

/-- The strings that are trimmed are those with something beside spaces. -/
theorem killTrailingSpaces_iff (s : Text) :
    killTrailingSpaces s = some (trimmed s) ↔ ∃ c ∈ s, c ≠ 32 := by
  have hall : s.take s.length = s := List.take_length
  constructor
  · intro h
    by_contra hnone
    have hspaces : ∀ c ∈ s, c = 32 := fun c hc => not_not.mp fun hne => hnone ⟨c, hc, hne⟩
    have htrimmed : trimmed s = [] := by
      refine List.rdropWhile_eq_nil_iff.mpr fun c hc => ?_
      rw [hspaces c hc]
      rfl
    rw [htrimmed] at h
    cases s with
    | nil => cases h
    | cons c s => exact killFrom_ne_nil (List.cons_ne_nil c s) h rfl
  · intro hsome
    have hkill := killFrom_eq s.length (Nat.le_refl _) (by rwa [hall])
    rwa [hall] at hkill

/-! ## The genre and the track -/

theorem genreName_some {id3 name : Text} (h : genreName id3 = some name) :
    ∃ s ∈ genreStrings, genreStrings[(genre id3).toNat]? = some s ∧ name = bytes s := by
  obtain ⟨s, hs, rfl⟩ := Option.map_eq_some_iff.mp h
  exact ⟨s, List.mem_of_getElem? hs, hs, rfl⟩

set_option maxRecDepth 4000 in
theorem names_ne : ∀ s ∈ genreStrings, bytes s ≠ [] ∧ bytes s ≠ unknownGenre := by decide

theorem signedChar_nonneg (c : UInt8) : 0 ≤ signedChar c ↔ c < 128 := by
  unfold signedChar
  have hlt : c.toNat < 256 := c.toNat_lt
  split
  · rename_i h
    exact iff_of_true (Int.natCast_nonneg _) h
  · rename_i h
    exact iff_of_false (by omega) h

theorem longer_eq_self {buffer old : Text} :
    longer buffer old = old ↔ buffer.length ≤ old.length := by
  unfold longer
  split
  · rename_i h
    exact iff_of_false (fun heq => absurd h (by rw [heq]; exact Nat.lt_irrefl _))
      (Nat.not_le.mpr h)
  · rename_i h
    exact iff_of_true rfl (Nat.not_lt.mp h)

theorem readGenre_iff (id3 old : Text) :
    (readGenre id3 (trimmed (commentField id3)) old =
      match genreName id3 with
      | some name => longer name old
      | none => old) ↔ GenreFits id3 old := by
  unfold GenreFits
  cases hname : genreName id3 with
  | none =>
    have hnone : genreStrings[(genre id3).toNat]? = none := Option.map_eq_none_iff.mp hname
    unfold readGenre
    rw [hnone]
    rw [and_iff_left (by simp), forall_prop_of_true rfl]
    show (if old = [] then unknownGenre else old) = old ↔ old ≠ []
    split
    · rename_i hempty
      refine iff_of_false ?_ (not_not.mpr hempty)
      rw [hempty]
      decide
    · rename_i hempty
      exact iff_of_true rfl hempty
  | some name =>
    obtain ⟨s, hmem, hs, rfl⟩ := genreName_some hname
    obtain ⟨hne, hunknown⟩ := names_ne s hmem
    unfold readGenre
    rw [hs]
    simp only [signedChar_nonneg, reduceCtorEq, false_imp_iff, true_and, Option.some.injEq,
      forall_eq']
    by_cases hsmall : genre id3 < 128
    · rw [if_pos hsmall, forall_prop_of_true hsmall, and_iff_left fun h => absurd hsmall h]
      unfold longer
      by_cases hold : old = bytes s
      · rw [hold]
        simp
      · rw [or_iff_right hold]
        by_cases hcomment : old.length < (trimmed (commentField id3)).length
        · rw [if_pos hcomment]
          by_cases hlonger : old.length < (bytes s).length
          · rw [if_pos hlonger]
            exact iff_of_true rfl (iff_of_true hcomment hlonger)
          · rw [if_neg hlonger]
            exact iff_of_false (Ne.symm hold) fun h => hlonger (h.mp hcomment)
        · rw [if_neg hcomment]
          by_cases hlonger : old.length < (bytes s).length
          · rw [if_pos hlonger]
            exact iff_of_false hold fun h => hcomment (h.mpr hlonger)
          · rw [if_neg hlonger]
            exact iff_of_true rfl (iff_of_false hcomment hlonger)
    · rw [if_neg hsmall, and_iff_right fun h => absurd h hsmall, forall_prop_of_true hsmall]
      by_cases hempty : old = []
      · rw [if_pos hempty]
        refine iff_of_false (fun heq => ?_) fun h => h.1 hempty
        have hlonger : ([] : Text).length < (bytes s).length := List.length_pos_iff.mpr hne
        unfold longer at heq
        rw [hempty, if_pos hlonger] at heq
        exact hunknown heq.symm
      · rw [if_neg hempty, and_iff_right hempty]
        exact eq_comm.trans longer_eq_self

theorem readTrack_iff (id3 : Text) (old : UInt32) :
    (readTrack id3 old =
      if zero id3 = 0 ∧ track id3 ≠ 0 then UInt32.ofNat (track id3).toNat else old) ↔
        (zero id3 = 0 → track id3 < 128) := by
  unfold readTrack
  by_cases hzero : zero id3 = 0
  · by_cases htrack : track id3 = 0
    · rw [if_neg fun h => h.2 htrack, if_neg fun h => h.2 htrack]
      refine iff_of_true rfl fun _ => ?_
      rw [htrack]
      decide
    · rw [if_pos ⟨hzero, htrack⟩, if_pos ⟨hzero, htrack⟩]
      rw [forall_prop_of_true hzero]
      unfold signedChar
      have hlt : (track id3).toNat < 256 := (track id3).toNat_lt
      split
      · rename_i hsmall
        refine iff_of_true (UInt32.toNat_inj.mp ?_) hsmall
        rw [toNat_ofInt, UInt32.toNat_ofNat']
        omega
      · rename_i hlarge
        refine iff_of_false (fun heq => ?_) hlarge
        have hnat := congrArg UInt32.toNat heq
        rw [toNat_ofInt, UInt32.toNat_ofNat'] at hnat
        omega
  · rw [if_neg fun h => hzero h.1, if_neg fun h => hzero h.1]
    exact iff_of_true rfl fun h => absurd h hzero

/-! ## The tag -/

section Tag

variable {id3 : Text} {metadata : MetaData}

theorem readTag_eq
    (htexts : ∀ text ∈ bufferTexts id3, killTrailingSpaces text = some (trimmed text)) :
    readTag id3 metadata = some { replaced id3 metadata with
      track := readTrack id3 metadata.track
      genre := readGenre id3 (trimmed (commentField id3)) metadata.genre } := by
  unfold bufferTexts at htexts
  simp only [List.forall_mem_cons] at htexts
  obtain ⟨hartist, halbum, htitle, hyear, hcomment, -⟩ := htexts
  unfold readTag
  rw [hartist, halbum, htitle, hyear, hcomment]
  rfl

theorem readTag_iff
    (htexts : ∀ text ∈ bufferTexts id3, killTrailingSpaces text = some (trimmed text)) :
    readTag id3 metadata = some (replaced id3 metadata) ↔
      GenreFits id3 metadata.genre ∧ (zero id3 = 0 → track id3 < 128) := by
  rw [readTag_eq htexts, ← readGenre_iff, ← readTrack_iff id3 metadata.track]
  constructor
  · intro h
    have heq := Option.some.inj h
    exact ⟨congrArg MetaData.genre heq, congrArg MetaData.track heq⟩
  · rintro ⟨hgenre, htrack⟩
    rw [hgenre, htrack]
    rfl

theorem readMetaData_tag {url file : Text} (hurl : isMp3 url = true) (htag : HasTag file) :
    readMetaData url (some file) metadata =
      (readTag (tagOf file) metadata).map fun metadata => (true, metadata) := by
  have hseek : (SeekFile.opened file).seekBack 128 = some ⟨file, file.length - 128⟩ :=
    if_pos htag.1
  have hlength : (tagOf file).length = 128 := by
    unfold tagOf
    have hle := htag.1
    rw [List.length_drop]
    omega
  have hahead : (⟨file, file.length - 128⟩ : SeekFile UInt8).ahead 128 = tagOf file := by
    show (tagOf file).take 128 = tagOf file
    rw [← hlength, List.take_length]
  unfold readMetaData
  rw [hurl]
  simp only [Bool.not_true, Bool.false_eq_true, if_false, Option.bind_some, hseek, hahead]
  rw [if_pos ⟨hlength, htag.2⟩]

end Tag

/-- The strings of a tag are trimmed inside the buffer, and its fields replace what is there,
each by its own text, just when it is like this. -/
theorem readMetaData_right_iff {url file : Text} (metadata : MetaData) (hurl : isMp3 url = true)
    (htag : HasTag file) : ReadsRight url file metadata ↔ Readable (tagOf file) metadata := by
  unfold ReadsRight
  rw [readMetaData_tag hurl htag]
  constructor
  · rintro ⟨htexts, hread⟩
    obtain ⟨md, hmd, heq⟩ := Option.map_eq_some_iff.mp hread
    rw [(Prod.mk.inj heq).2] at hmd
    obtain ⟨hgenre, htrack⟩ := (readTag_iff htexts).mp hmd
    exact ⟨fun text htext => (killTrailingSpaces_iff text).mp (htexts text htext), hgenre, htrack⟩
  · intro h
    have htexts : ∀ text ∈ bufferTexts (tagOf file),
        killTrailingSpaces text = some (trimmed text) :=
      fun text htext => (killTrailingSpaces_iff text).mpr (h.texts text htext)
    refine ⟨htexts, ?_⟩
    rw [(readTag_iff htexts).mpr ⟨h.genre, h.track⟩, Option.map_some]

/-- A tag of these fields, filled with spaces. -/
def tagFile (artist : Text) (genre : UInt8) : Text :=
  bytes "TAG" ++ (bytes "T" ++ List.replicate 29 32) ++ (artist ++ List.replicate 29 32) ++
    (bytes "B" ++ List.replicate 29 32) ++ bytes "1999" ++ (bytes "C" ++ List.replicate 29 32) ++
      [genre]

/-- Metadata with nothing but a genre. -/
def genreOnly : MetaData := ⟨[], [], [], bytes "Pop", [], 0, 0, 0, 0, 0, []⟩

set_option maxRecDepth 4000 in
theorem hasTag_tagFile : HasTag (tagFile (bytes "A") 13) ∧ HasTag (tagFile [0] 13) := by
  unfold HasTag
  decide

set_option maxRecDepth 4000 in
theorem genreName_tagFile : genreName (tagOf (tagFile (bytes "A") 13)) = some (bytes "Pop") := by
  decide

set_option maxRecDepth 4000 in
theorem readable_tagFile : Readable (tagOf (tagFile (bytes "A") 13)) genreOnly where
  texts := by decide
  genre := by
    refine ⟨fun hnone => absurd (hnone.symm.trans genreName_tagFile) nofun, fun name hname => ?_⟩
    have hpop : bytes "Pop" = name := Option.some.inj (genreName_tagFile.symm.trans hname)
    exact ⟨fun _ => .inl hpop, fun hlarge => absurd (by decide) hlarge⟩
  track := by decide

/-- A tag with a comment that is no longer than the genre that is there. -/
theorem readMetaData_right_tagFile :
    ReadsRight (bytes "file:///a.mp3") (tagFile (bytes "A") 13) genreOnly :=
  (readMetaData_right_iff genreOnly (by decide) hasTag_tagFile.1).mpr readable_tagFile

set_option maxRecDepth 4000 in
theorem bufferTexts_tagFile : [] ∈ bufferTexts (tagOf (tagFile [0] 13)) := by decide

/-- A tag without an artist. -/
theorem readMetaData_right_fails : ¬ ∀ (url file : Text) (metadata : MetaData),
    isMp3 url = true → HasTag file → ReadsRight url file metadata := by
  intro hall
  have hright := hall (bytes "file:///a.mp3") (tagFile [0] 13) genreOnly (by decide)
    hasTag_tagFile.2
  exact absurd (hright.1 [] bufferTexts_tagFile) (by decide)

/-! ## What `id3::v1::render` writes -/

/-- `io::writeTrailingSpaces` -/
def writeTrailingSpaces (buf : Text) (len : Nat) : Text :=
  buf.take len ++ List.replicate (len - buf.length) 32

/-- What is asked of an `ID3_TagImpl`. -/
structure TagTexts where
  title : Text
  artist : Text
  album : Text
  year : Text
  comment : Text
  trackNum : Nat
  genreNum : Nat

/-- `id3::v1::render` -/
def render (tag : TagTexts) : Text :=
  bytes "TAG" ++ (writeTrailingSpaces tag.title 30 ++ (writeTrailingSpaces tag.artist 30 ++
    (writeTrailingSpaces tag.album 30 ++ (writeTrailingSpaces tag.year 4 ++
      ((if 0 < tag.trackNum then
          writeTrailingSpaces tag.comment 28 ++ [0, UInt8.ofNat tag.trackNum]
        else writeTrailingSpaces tag.comment 30) ++ [UInt8.ofNat tag.genreNum])))))

/-- What is left of a text that was written in `len` bytes: one space of nothing. -/
def shortened (text : Text) (len : Nat) : Text :=
  if (text.take len).all (· == 32) then [32] else trimmed (text.take len)

set_option maxRecDepth 4000 in
theorem length_genreStrings : 128 ≤ genreStrings.length := by decide

section Rendered

variable {s buf id3 : Text} {n : Nat}

theorem length_writeTrailingSpaces : (writeTrailingSpaces buf n).length = n := by
  unfold writeTrailingSpaces
  rw [List.length_append, List.length_take, List.length_replicate]
  omega

theorem trimmed_append_spaces (k : Nat) : trimmed (s ++ List.replicate k 32) = trimmed s := by
  induction k with
  | zero => rw [List.replicate_zero, List.append_nil]
  | succ k ih => rw [List.replicate_succ', ← List.append_assoc, trimmed_concat_space, ih]

theorem killFrom_spaces (k : Nat) (hk : k < n) :
    killFrom (List.replicate n 32) (k + 1) = some [32] := by
  induction k with
  | zero =>
    obtain ⟨n, rfl⟩ := Nat.exists_eq_add_of_lt hk
    rw [killFrom, if_neg fun h => h.2 rfl, List.take_replicate]
    simp
  | succ k ih =>
    rw [killFrom, if_pos ⟨by rw [List.getElem?_replicate, if_pos hk], Nat.succ_ne_zero k⟩]
    exact ih (by omega)

theorem kill_written (hn : 0 < n) :
    killTrailingSpaces (writeTrailingSpaces buf n) = some (shortened buf n) := by
  unfold shortened
  split
  · rename_i hall
    have hspaces : writeTrailingSpaces buf n = List.replicate n 32 := by
      refine List.eq_replicate_iff.mpr ⟨length_writeTrailingSpaces, fun c hc => ?_⟩
      rcases List.mem_append.mp hc with hc | hc
      · exact beq_iff_eq.mp (List.all_eq_true.mp hall c hc)
      · exact List.eq_of_mem_replicate hc
    obtain ⟨n, rfl⟩ := Nat.exists_eq_succ_of_ne_zero hn.ne'
    rw [hspaces, killTrailingSpaces, List.length_replicate]
    exact killFrom_spaces n (Nat.lt_succ_self n)
  · rename_i hsome
    rw [List.all_eq_true] at hsome
    push Not at hsome
    obtain ⟨c, hc, hne⟩ := hsome
    have hne : c ≠ 32 := fun h => hne (beq_iff_eq.mpr h)
    have hmem : c ∈ writeTrailingSpaces buf n := List.mem_append_left _ hc
    rw [(killTrailingSpaces_iff _).mpr ⟨c, hmem, hne⟩, writeTrailingSpaces, trimmed_append_spaces]

theorem nulFree_written (hnul : NulFree buf) : NulFree (writeTrailingSpaces buf n) :=
  (hnul.of_subset (List.take_subset n buf)).append fun h =>
    absurd (List.eq_of_mem_replicate h) (by decide)

theorem fieldAt_written {place : Nat} (hnul : NulFree buf)
    (h : id3.drop place = writeTrailingSpaces buf n ++ s) :
    fieldAt id3 place n = writeTrailingSpaces buf n := by
  rw [fieldAt, h, List.take_left' length_writeTrailingSpaces, (nulFree_written hnul).cStr_eq]

theorem drop_written {place : Nat} (h : id3.drop place = writeTrailingSpaces buf n ++ s) :
    id3.drop (place + n) = s := by
  rw [← List.drop_drop, h, List.drop_left' length_writeTrailingSpaces]

theorem getD_of_drop {place : Nat} (h : id3.drop place = s) (k : Nat) :
    id3.getD (place + k) 0 = s.getD k 0 := by
  rw [← h, List.getD_eq_getElem?_getD, List.getD_eq_getElem?_getD, List.getElem?_drop]

theorem length_render (tag : TagTexts) : (render tag).length = 128 := by
  unfold render
  simp only [List.length_append, length_writeTrailingSpaces]
  split
  · rw [List.length_append, length_writeTrailingSpaces]
    rfl
  · rw [length_writeTrailingSpaces]
    rfl

theorem tagOf_render (audio : Text) (tag : TagTexts) :
    tagOf (audio ++ render tag) = render tag := by
  unfold tagOf
  rw [List.length_append, length_render, Nat.add_sub_cancel, List.drop_left]

theorem hasTag_render (audio : Text) (tag : TagTexts) : HasTag (audio ++ render tag) := by
  refine ⟨?_, ?_⟩
  · rw [List.length_append, length_render]
    exact Nat.le_add_left 128 _
  · rw [tagOf_render]
    exact List.take_left' rfl

/-- The fields behind the year. -/
theorem ends_render (tag : TagTexts) (hcomment : NulFree tag.comment) (htrack : tag.trackNum < 128) :
    commentField (render tag) =
        writeTrailingSpaces tag.comment (if 0 < tag.trackNum then 28 else 30) ∧
      (∀ old, readTrack (render tag) old =
        if 0 < tag.trackNum then UInt32.ofNat tag.trackNum else old) ∧
      genre (render tag) = UInt8.ofNat tag.genreNum := by
  have h3 : (render tag).drop 3 = writeTrailingSpaces tag.title 30 ++ _ := List.drop_left' rfl
  have h97 := drop_written (drop_written (drop_written (drop_written h3)))
  by_cases ht : 0 < tag.trackNum
  · rw [if_pos ht, List.append_assoc] at h97
    have h125 := drop_written h97
    have hzero : zero (render tag) = 0 := getD_of_drop h125 0
    have hnum : track (render tag) = UInt8.ofNat tag.trackNum := getD_of_drop h125 1
    have hnat : (UInt8.ofNat tag.trackNum).toNat = tag.trackNum :=
      UInt8.toNat_ofNat_of_lt (htrack.trans (by decide))
    have hne : UInt8.ofNat tag.trackNum ≠ 0 := by
      intro h
      rw [h] at hnat
      exact ht.ne hnat
    have hsmall : track (render tag) < 128 := by
      rw [hnum, UInt8.lt_iff_toNat_lt, hnat]
      exact htrack
    rw [if_pos ht]
    refine ⟨?_, fun old => ?_, getD_of_drop h125 2⟩
    · rw [commentField, hzero, if_neg (by decide)]
      exact fieldAt_written hcomment h97
    · rw [(readTrack_iff _ old).mpr fun _ => hsmall, hzero, hnum, if_pos ⟨rfl, hne⟩, hnat,
        if_pos ht]
  · rw [if_neg ht] at h97
    have hzero : zero (render tag) ≠ 0 := by
      have hlt : 28 < (writeTrailingSpaces tag.comment 30).length := by
        rw [length_writeTrailingSpaces]
        decide
      have hchar : zero (render tag) = (writeTrailingSpaces tag.comment 30)[28] := by
        refine (getD_of_drop h97 28).trans ?_
        rw [List.getD_eq_getElem?_getD, List.getElem?_append_left hlt,
          List.getElem?_eq_getElem hlt, Option.getD_some]
      intro h
      exact nulFree_written hcomment (h ▸ hchar ▸ List.getElem_mem hlt)
    rw [if_neg ht]
    refine ⟨?_, fun old => ?_, getD_of_drop (drop_written h97) 0⟩
    · rw [commentField, if_pos hzero]
      exact fieldAt_written hcomment h97
    · rw [readTrack, if_neg fun h => hzero h.1, if_neg ht]

theorem readGenre_render {num : Nat} (hgen : genre id3 = UInt8.ofNat num) (hnum : num < 128)
    (old : Text) : readGenre id3 buf old =
      if old.length < buf.length then bytes (genreStrings.getD num "") else old := by
  have hlt : num < genreStrings.length := hnum.trans_le length_genreStrings
  have hnat : (UInt8.ofNat num).toNat = num :=
    UInt8.toNat_ofNat_of_lt (hnum.trans (by decide))
  have hsign : 0 ≤ signedChar (UInt8.ofNat num) := by
    rw [signedChar_nonneg, UInt8.lt_iff_toNat_lt, hnat]
    exact hnum
  unfold readGenre
  rw [hgen, hnat, List.getD_eq_getElem?_getD, List.getElem?_eq_getElem hlt]
  exact if_pos hsign

end Rendered

end FreeAmp.Plm.Id3v1
