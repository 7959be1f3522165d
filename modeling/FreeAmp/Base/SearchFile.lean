/-
  Base/SearchFile.lean --- what `MusicCatalog::DoSearchMusic` in `base/src/musiccatalog.cpp`
  does about a file.

  A file is filed under a key that the spelling of its path gives it.

      isSome_searchFiles     the keys after a loop over files
      keeps_searchFiles_iff  which records keep their GUID
      searchFiles_ok         when the loop is gone through
-/
import FreeAmp.Base.SearchMusic
import FreeAmp.Base.MusicCatalogInvariant

namespace FreeAmp.Base.Search

open FreeAmp.Lib DirectoryTree

/-! ## Extensions -/

/-- What the program is told of files by its plug-ins. -/
structure Formats where
  isSupportedExtension : Text → Bool
  isSupportedPlaylistFormat : Text → Bool
  isSupportedProtocol : Text → Bool
  /-- what `RetrieveMetaDataNow` finds under a URL -/
  retrieved : Text → MetaData
  nulFree : ∀ url, (retrieved url).NulFree

namespace Formats

variable (m : Formats)

def getProtocol (title : Text) : Option Text :=
  (firstPlace (bytes "://") title).map fun k => title.take k

/-- What is behind the last dot, in capitals. -/
def behindDot (title : Text) : Option Text :=
  if (46 : UInt8) ∈ title then
    some ((title.reverse.takeWhile (· != 46)).reverse.map toUpper)
  else none

def getExtension (title : Text) : Option Text :=
  match (behindDot title).filter fun ext =>
      m.isSupportedExtension ext || m.isSupportedPlaylistFormat ext with
  | some ext => some ext
  | none =>
    match getProtocol title with
    | none => none
    | some proto =>
      if m.isSupportedProtocol proto && (proto.take 4).map toLower != bytes "file" then
        some (bytes "MP3")
      else none

def currentList : Text := bytes "currentlist.m3u"

/-- A file of this name is taken for a playlist. -/
def isPlaylist (name : Text) : Bool :=
  match m.getExtension name with
  | none => false
  | some fileExt => m.isSupportedPlaylistFormat fileExt && name != currentList

/-- A file of this name is taken for a song. -/
def isSong (name : Text) : Bool :=
  match m.getExtension name with
  | none => false
  | some fileExt => !m.isPlaylist name && m.isSupportedExtension fileExt

end Formats

/-! ## A file -/

/-- `AddPlaylist`, as far as the database goes. -/
def addPlaylist (c : MusicCatalog) (url : Text) : MusicCatalog :=
  if !c.database.working then c
  else if (c.database.value url).isNone then
    { c with database := c.database.insert url (bytes "P") }
  else c

/-- `tempdata`, if there is one, gives its GUID. -/
def takeGUID (metadata : MetaData) : Option MetaData → MetaData
  | none => metadata
  | some tempdata => { metadata with guid := tempdata.guid }

/-- What is done about a song. -/
def searchSong (m : Formats) (bSendMessages addImmediately : Bool) (c : MusicCatalog)
    (url : Text) : Except RecordFault MusicCatalog := do
  let tdata ← (if bSendMessages then .ok none else readMetaDataFromDatabase c.database url)
  if tdata.isSome then .ok c
  else do
    let tempdata ← readMetaDataFromDatabase c.database url
    let db ← (if tempdata.isNone || !addImmediately then
        writeMetaDataToDatabase c.database url (takeGUID (m.retrieved url) tempdata) .track
      else .ok c.database)
    let c := { c with database := db }
    if addImmediately then do
      let r ← c.addSong url (m.retrieved url)
      .ok r.2
    else .ok c

/-- What is done about a file that is not a directory and not a link. -/
def searchFile (m : Formats) (bSendMessages addImmediately : Bool) (c : MusicCatalog)
    (path name : Text) : Except SearchFault MusicCatalog :=
  match m.getExtension name with
  | none => .ok c
  | some fileExt =>
    let file := path ++ [dirMarker] ++ name
    let url := (filePathToURL file (file.length + 10)).result
    if m.isSupportedPlaylistFormat fileExt && name != Formats.currentList then do
      let c ← (match url with
        | .error _ => .ok c
        | .ok url =>
          -- it is not asked whether the database works
          if c.database.working then
            .ok { c with database := c.database.insert url (bytes "P") }
          else .error .noDatabase)
      if addImmediately then
        match url with
        | .error _ => .error .uninitialised
        | .ok url => .ok (addPlaylist c url)
      else .ok c
    else if m.isSupportedExtension fileExt then
      match url with
      | .error _ => .ok c
      | .ok url => (searchSong m bSendMessages addImmediately c url).mapError .record
    else .ok c

/-! ## The key of a file -/

/-- The key that a file is filed under. -/
def urlOf (path name : Text) : Text := protocol ++ (path ++ dirMarker :: name)

theorem urlOf_inj {path name path' name' : Text} (h : dirMarker ∉ name) (h' : dirMarker ∉ name')
    (heq : urlOf path name = urlOf path' name') : path = path' ∧ name = name' := by
  have hsplit := List.append_cancel_left heq
  have hname : name = name' := by
    apply List.reverse_injective
    rw [← reverse_takeWhile_marker h, ← reverse_takeWhile_marker h', hsplit]
  subst hname
  exact ⟨List.append_cancel_right hsplit, rfl⟩

variable {m : Formats} {bSendMessages addImmediately : Bool}

theorem searchFile_eq (c : MusicCatalog) (path name : Text) :
    searchFile m bSendMessages addImmediately c path name =
      if m.isPlaylist name then
        if c.database.working then
          .ok { c with database := c.database.insert (urlOf path name) (bytes "P") }
        else .error .noDatabase
      else if m.isSong name then
        (searchSong m bSendMessages addImmediately c (urlOf path name)).mapError .record
      else .ok c := by
  have hurl : (filePathToURL (path ++ [dirMarker] ++ name)
      ((path ++ [dirMarker] ++ name).length + 10)).result = .ok (urlOf path name) := by
    rw [filePathToURL_ok (by rw [protocol_length]; omega), List.append_assoc]
    rfl
  unfold searchFile Formats.isSong
  cases hext : m.getExtension name with
  | none =>
    have hlist : m.isPlaylist name = false := by
      unfold Formats.isPlaylist
      rw [hext]
    rw [hlist]
    rfl
  | some fileExt =>
    have hlist : m.isPlaylist name =
        (m.isSupportedPlaylistFormat fileExt && name != Formats.currentList) := by
      unfold Formats.isPlaylist
      rw [hext]
    simp only [hurl, ← hlist]
    cases m.isPlaylist name with
    | false => rfl
    | true =>
      rw [if_pos rfl, if_pos rfl]
      split
      · rw [ok_bind]
        split
        · unfold addPlaylist
          simp [*]
        · rfl
      · rfl

/-! ## What happens to the database -/

/-- At most the record under one key has been written. -/
structure Touches (db db' : Database) (url : Text) : Prop where
  working : db'.working = db.working
  others : ∀ key, key ≠ url → db'.value key = db.value key
  kept : (db.value url).isSome → (db'.value url).isSome
  idle : db.working = false → db' = db

theorem Touches.refl (db : Database) (url : Text) : Touches db db url :=
  ⟨rfl, fun _ _ => rfl, id, fun _ => rfl⟩

theorem Touches.trans {db db' db'' : Database} {url : Text} (h : Touches db db' url)
    (h' : Touches db' db'' url) : Touches db db'' url where
  working := h'.working.trans h.working
  others := fun key hkey => (h'.others key hkey).trans (h.others key hkey)
  kept := fun hsome => h'.kept (h.kept hsome)
  idle := fun hidle => (h'.idle (h.working.trans hidle)).trans (h.idle hidle)

theorem Touches.read {db db' : Database} {url key : Text} (h : Touches db db' url)
    (hkey : key ≠ url) :
    readMetaDataFromDatabase db' key = readMetaDataFromDatabase db key :=
  readMetaDataFromDatabase_congr h.working (h.others key hkey)

theorem touches_insert {db : Database} (hworking : db.working = true) (url content : Text) :
    Touches db (db.insert url content) url where
  working := rfl
  others := fun _ hkey => db.value_insert_of_ne content hkey
  kept := fun _ => by rw [Database.value_insert_self]; rfl
  idle := fun hidle => absurd (hworking.symm.trans hidle) nofun

theorem touches_write {db db' : Database} {url : Text} {metadata : MetaData}
    {type : MetadataStorageType} (h : writeMetaDataToDatabase db url metadata type = .ok db') :
    Touches db db' url ∧ (db.working = true → (db'.value url).isSome) := by
  cases hworking : db.working with
  | false =>
    unfold writeMetaDataToDatabase at h
    rw [hworking] at h
    rw [← Except.ok.inj h]
    exact ⟨.refl db url, nofun⟩
  | true =>
    obtain ⟨ost, -, rfl⟩ := writeMetaDataToDatabase_ok hworking h
    exact ⟨touches_insert hworking url ost, fun _ => by rw [Database.value_insert_self]; rfl⟩

theorem touches_insertSong {c : MusicCatalog} {url : Text} {metadata : MetaData}
    {r : Error × MusicCatalog} (h : c.insertSong url metadata = .ok r) :
    Touches c.database r.2.database url := by
  unfold MusicCatalog.insertSong at h
  split at h
  · split at h
    · rw [← Except.ok.inj h]
      exact .refl _ _
    · rw [← Except.ok.inj h]
      exact .refl _ _
  · simp only at h
    obtain ⟨db, hdb, h⟩ := bind_eq_ok.mp h
    rw [← Except.ok.inj h]
    split at hdb
    · exact (touches_write hdb).1
    · rw [← Except.ok.inj hdb]
      exact .refl _ _

theorem touches_addSong {c : MusicCatalog} {url : Text} {found : MetaData}
    {r : Error × MusicCatalog} (h : c.addSong url found = .ok r) :
    Touches c.database r.2.database url := by
  unfold MusicCatalog.addSong at h
  split at h
  · rw [← Except.ok.inj h]
    exact .refl _ _
  · obtain ⟨s, hfetch, h⟩ := bind_eq_ok.mp h
    have htouches : Touches c.database s.1 url := by
      unfold MusicCatalog.fetchSong at hfetch
      obtain ⟨metadata, -, hfetch⟩ := bind_eq_ok.mp hfetch
      cases metadata with
      | some metadata =>
        rw [← Except.ok.inj hfetch]
        exact .refl _ _
      | none =>
        obtain ⟨db, hwrite, hfetch⟩ := bind_eq_ok.mp hfetch
        obtain ⟨metadata, -, hfetch⟩ := bind_eq_ok.mp hfetch
        rw [← Except.ok.inj hfetch]
        exact (touches_write hwrite).1
    cases hs : s.2 with
    | none =>
      rw [hs] at h
      rw [← Except.ok.inj h]
      exact htouches
    | some metadata =>
      rw [hs] at h
      simp only at h
      obtain ⟨d, hdrop, h⟩ := bind_eq_ok.mp h
      refine (htouches.trans ?_).trans (touches_insertSong h)
      unfold MusicCatalog.dropGUID at hdrop
      split at hdrop
      · simp only at hdrop
        obtain ⟨db, hwrite, hdrop⟩ := bind_eq_ok.mp hdrop
        rw [← Except.ok.inj hdrop]
        exact (touches_write hwrite).1
      · rw [← Except.ok.inj hdrop]
        exact .refl _ _

theorem mapError_ok_iff {φ ψ α : Type} {f : φ → ψ} {r : Except φ α} {a : α} :
    r.mapError f = .ok a ↔ r = .ok a := by
  cases r with
  | error e => exact ⟨fun h => absurd h nofun, fun h => absurd h nofun⟩
  | ok b =>
    constructor
    · exact fun h => Except.ok.inj h ▸ rfl
    · exact fun h => Except.ok.inj h ▸ rfl

theorem isSome_value_of_read {db : Database} {url : Text} {metadata : MetaData}
    (h : readMetaDataFromDatabase db url = .ok (some metadata)) : (db.value url).isSome := by
  unfold readMetaDataFromDatabase at h
  split at h
  · exact absurd h nofun
  · split at h
    · exact absurd h nofun
    · rename_i hvalue
      rw [hvalue]
      rfl

theorem touches_searchSong {c c' : MusicCatalog} {url : Text}
    (h : searchSong m bSendMessages addImmediately c url = .ok c') :
    Touches c.database c'.database url ∧
      (c.database.working = true → (c'.database.value url).isSome) := by
  unfold searchSong at h
  obtain ⟨tdata, htdata, h⟩ := bind_eq_ok.mp h
  split at h
  · rename_i hsome
    rw [← Except.ok.inj h]
    refine ⟨.refl _ _, fun _ => ?_⟩
    split at htdata
    · rw [← Except.ok.inj htdata] at hsome
      exact absurd hsome nofun
    · obtain ⟨metadata, rfl⟩ := Option.isSome_iff_exists.mp hsome
      exact isSome_value_of_read htdata
  · obtain ⟨tempdata, htempdata, h⟩ := bind_eq_ok.mp h
    obtain ⟨db, hdb, h⟩ := bind_eq_ok.mp h
    have htouches : Touches c.database db url ∧
        (c.database.working = true → (db.value url).isSome) := by
      split at hdb
      · exact touches_write hdb
      · rename_i hnot
        rw [← Except.ok.inj hdb]
        refine ⟨.refl _ _, fun _ => ?_⟩
        cases tempdata with
        | none => exact absurd rfl hnot
        | some metadata => exact isSome_value_of_read htempdata
    simp only at h
    split at h
    · obtain ⟨r, hadd, h⟩ := bind_eq_ok.mp h
      rw [← Except.ok.inj h]
      have hadded := touches_addSong hadd
      exact ⟨htouches.1.trans hadded, fun hworking => hadded.kept (htouches.2 hworking)⟩
    · rw [← Except.ok.inj h]
      exact htouches

/-- A file that is supported gets a record, and no other record changes. -/
theorem touches_searchFile {c c' : MusicCatalog} {path name : Text}
    (h : searchFile m bSendMessages addImmediately c path name = .ok c') :
    Touches c.database c'.database (urlOf path name) ∧
      ((m.isPlaylist name || m.isSong name) = true → c.database.working = true →
        (c'.database.value (urlOf path name)).isSome) ∧
      ((m.isPlaylist name || m.isSong name) = false → c' = c) := by
  rw [searchFile_eq] at h
  cases hlist : m.isPlaylist name with
  | true =>
    rw [hlist, if_pos rfl] at h
    split at h
    · rename_i hworking
      rw [← Except.ok.inj h]
      refine ⟨touches_insert hworking _ _, fun _ _ => ?_, nofun⟩
      show ((c.database.insert _ _).value _).isSome = true
      rw [Database.value_insert_self]
      rfl
    · exact absurd h nofun
  | false =>
    rw [hlist, if_neg Bool.false_ne_true] at h
    cases hsong : m.isSong name with
    | true =>
      rw [hsong, if_pos rfl] at h
      obtain ⟨htouches, hown⟩ := touches_searchSong (mapError_ok_iff.mp h)
      exact ⟨htouches, fun _ => hown, nofun⟩
    | false =>
      rw [hsong, if_neg Bool.false_ne_true] at h
      rw [← Except.ok.inj h]
      exact ⟨.refl _ _, nofun, fun _ => rfl⟩

/-! ## The GUIDs -/

/-- The record under a key has this GUID. -/
def Keeps (db : Database) (key guid : Text) : Prop :=
  ∃ metadata, readMetaDataFromDatabase db key = .ok (some metadata) ∧ metadata.guid = guid

/-- What is under a key cannot be read as a record. -/
def Lost (db : Database) (key : Text) : Prop :=
  ∃ f, readMetaDataFromDatabase db key = .error f

theorem Keeps.not_lost {db : Database} {key guid : Text} (h : Keeps db key guid) :
    ¬ Lost db key := by
  intro hlost
  obtain ⟨metadata, hread, -⟩ := h
  obtain ⟨f, hfault⟩ := hlost
  rw [hread] at hfault
  exact absurd hfault nofun

theorem nulFree_takeGUID {metadata tempdata : MetaData} (h : metadata.NulFree)
    (htemp : tempdata.NulFree) : (takeGUID metadata (some tempdata)).NulFree := by
  unfold MetaData.NulFree takeGUID at *
  simp only [List.forall_mem_cons] at h htemp ⊢
  exact ⟨h.1, h.2.1, h.2.2.1, h.2.2.2.1, h.2.2.2.2.1, htemp.2.2.2.2.2.1, h.2.2.2.2.2.2⟩

/-- A song that has a record is given a new one, with the same GUID, when messages are sent. -/
theorem searchSong_of_read {c c' : MusicCatalog} {url : Text} {tempdata : MetaData}
    (hread : readMetaDataFromDatabase c.database url = .ok (some tempdata))
    (h : searchSong m true false c url = .ok c') :
    readMetaDataFromDatabase c'.database url =
      if tempdata.guid.length < 10 ^ 9 then
        .ok (some (takeGUID (m.retrieved url) (some tempdata)))
      else .error .bufferOverflow := by
  unfold searchSong at h
  rw [if_pos rfl, ok_bind, if_neg (by simp), hread, ok_bind, if_pos (by simp)] at h
  obtain ⟨db, hwrite, h⟩ := bind_eq_ok.mp h
  rw [if_neg Bool.false_ne_true] at h
  rw [← Except.ok.inj h]
  exact readMetaDataFromDatabase_write (MusicCatalog.working_of_read hread)
    (nulFree_takeGUID (m.nulFree url) (nulFree_readMetaDataFromDatabase hread)) hwrite

theorem searchSong_of_read_silent {c c' : MusicCatalog} {url : Text} {tempdata : MetaData}
    (hread : readMetaDataFromDatabase c.database url = .ok (some tempdata))
    (h : searchSong m false true c url = .ok c') : c' = c := by
  unfold searchSong at h
  rw [if_neg Bool.false_ne_true, hread, ok_bind, if_pos (by simp)] at h
  exact (Except.ok.inj h).symm

theorem read_playlist {db : Database} (hworking : db.working = true) (url : Text) :
    readMetaDataFromDatabase (db.insert url (bytes "P")) url = .error .badRecord := by
  unfold readMetaDataFromDatabase
  rw [Database.working_insert, hworking, Database.value_insert_self]
  rfl

/-- What would take the GUID away from the record under a key. -/
def Spoils (m : Formats) (bSendMessages : Bool) (guid name : Text) : Prop :=
  m.isPlaylist name = true ∨
    (m.isSong name = true ∧ bSendMessages = true ∧ 10 ^ 9 ≤ guid.length)

theorem searchFile_own {c c' : MusicCatalog} {path name guid : Text}
    (hkeeps : Keeps c.database (urlOf path name) guid)
    (h : searchFile m bSendMessages (!bSendMessages) c path name = .ok c') :
    (Spoils m bSendMessages guid name → Lost c'.database (urlOf path name)) ∧
      (¬ Spoils m bSendMessages guid name → Keeps c'.database (urlOf path name) guid) := by
  obtain ⟨tempdata, hread, rfl⟩ := hkeeps
  rw [searchFile_eq] at h
  cases hlist : m.isPlaylist name with
  | true =>
    rw [hlist, if_pos rfl] at h
    split at h
    · rename_i hworking
      rw [← Except.ok.inj h]
      exact ⟨fun _ => ⟨_, read_playlist hworking _⟩, fun hnot => absurd (.inl hlist) hnot⟩
    · exact absurd h nofun
  | false =>
    rw [hlist, if_neg Bool.false_ne_true] at h
    cases hsong : m.isSong name with
    | false =>
      rw [hsong, if_neg Bool.false_ne_true] at h
      rw [← Except.ok.inj h]
      refine ⟨fun hspoils => ?_, fun _ => ⟨tempdata, hread, rfl⟩⟩
      rcases hspoils with hspoils | ⟨hspoils, -⟩
      · exact absurd (hlist.symm.trans hspoils) Bool.false_ne_true
      · exact absurd (hsong.symm.trans hspoils) Bool.false_ne_true
    | true =>
      rw [hsong, if_pos rfl] at h
      have hok := mapError_ok_iff.mp h
      cases bSendMessages with
      | true =>
        have hown := searchSong_of_read hread hok
        constructor
        · intro hspoils
          rcases hspoils with hspoils | ⟨-, -, hlong⟩
          · exact absurd (hlist.symm.trans hspoils) Bool.false_ne_true
          · rw [if_neg (Nat.not_lt.mpr hlong)] at hown
            exact ⟨_, hown⟩
        · intro hnot
          have hshort : tempdata.guid.length < 10 ^ 9 := by
            by_contra hlong
            exact hnot (.inr ⟨hsong, rfl, Nat.le_of_not_lt hlong⟩)
          rw [if_pos hshort] at hown
          exact ⟨_, hown, rfl⟩
      | false =>
        rw [searchSong_of_read_silent hread hok]
        refine ⟨fun hspoils => ?_, fun _ => ⟨tempdata, hread, rfl⟩⟩
        rcases hspoils with hspoils | ⟨-, hspoils, -⟩
        · exact absurd (hlist.symm.trans hspoils) Bool.false_ne_true
        · exact absurd hspoils Bool.false_ne_true

theorem keeps_searchFile_iff_of_ne {c c' : MusicCatalog} {path name key guid : Text}
    (hkey : key ≠ urlOf path name)
    (h : searchFile m bSendMessages addImmediately c path name = .ok c') :
    Keeps c'.database key guid ↔ Keeps c.database key guid := by
  unfold Keeps
  rw [(touches_searchFile h).1.read hkey]

theorem lost_searchFile {c c' : MusicCatalog} {path name key : Text} (hlost : Lost c.database key)
    (h : searchFile m bSendMessages addImmediately c path name = .ok c') :
    Lost c'.database key := by
  obtain ⟨f, hfault⟩ := hlost
  by_cases hkey : key = urlOf path name
  · subst hkey
    rw [searchFile_eq] at h
    split at h
    · split at h
      · rename_i hworking
        rw [← Except.ok.inj h]
        exact ⟨_, read_playlist hworking _⟩
      · exact absurd h nofun
    · split at h
      · have hok := mapError_ok_iff.mp h
        unfold searchSong at hok
        rw [hfault] at hok
        obtain ⟨tdata, htdata, hok⟩ := bind_eq_ok.mp hok
        split at htdata
        · rw [← Except.ok.inj htdata, if_neg (by simp)] at hok
          exact absurd hok nofun
        · exact absurd htdata nofun
      · rw [← Except.ok.inj h]
        exact ⟨f, hfault⟩
  · refine ⟨f, ?_⟩
    rw [(touches_searchFile h).1.read hkey]
    exact hfault

/-! ## One file after the other -/

/-- The loop over the files that a walk comes to. -/
def searchFiles (m : Formats) (bSendMessages : Bool) (c : MusicCatalog)
    (files : List (Text × Text)) : Except SearchFault MusicCatalog :=
  files.foldlM (fun c f => searchFile m bSendMessages (!bSendMessages) c f.1 f.2) c

theorem searchFiles_append {c c' : MusicCatalog} {files more : List (Text × Text)} :
    searchFiles m bSendMessages c (files ++ more) = .ok c' ↔
      ∃ d, searchFiles m bSendMessages c files = .ok d ∧
        searchFiles m bSendMessages d more = .ok c' := by
  unfold searchFiles
  rw [List.foldlM_append, bind_eq_ok]

theorem searchFiles_cons {c c' : MusicCatalog} {f : Text × Text} {files : List (Text × Text)} :
    searchFiles m bSendMessages c (f :: files) = .ok c' ↔
      ∃ d, searchFile m bSendMessages (!bSendMessages) c f.1 f.2 = .ok d ∧
        searchFiles m bSendMessages d files = .ok c' := by
  unfold searchFiles
  rw [List.foldlM_cons, bind_eq_ok]

theorem searchFiles_induct {P : MusicCatalog → Prop} {c c' : MusicCatalog}
    {files : List (Text × Text)}
    (hstep : ∀ f ∈ files, ∀ c c',
      searchFile m bSendMessages (!bSendMessages) c f.1 f.2 = .ok c' → P c → P c')
    (h : searchFiles m bSendMessages c files = .ok c') (hc : P c) : P c' := by
  refine (@Meets.foldlM _ _ (fun _ => True) _ P _ files c (fun c f hf hP => ?_) hc).of_ok h
  exact Meets.intro (fun c' hc' => hstep f hf c c' hc' hP) fun _ _ => trivial

/-- The keys after the loop: those there were, and those of the files that are supported. -/
theorem isSome_searchFiles {c c' : MusicCatalog} {files : List (Text × Text)} {key : Text}
    (h : searchFiles m bSendMessages c files = .ok c') :
    c'.database.working = c.database.working ∧
      ((c'.database.value key).isSome ↔ (c.database.value key).isSome ∨
        (c.database.working = true ∧ ∃ f ∈ files,
          (m.isPlaylist f.2 || m.isSong f.2) = true ∧ key = urlOf f.1 f.2)) := by
  induction files generalizing c with
  | nil =>
    rw [← Except.ok.inj h]
    simp
  | cons f files ih =>
    obtain ⟨d, hd, h⟩ := searchFiles_cons.mp h
    obtain ⟨htouches, hown, hsame⟩ := touches_searchFile hd
    obtain ⟨hworking, hrest⟩ := ih h
    refine ⟨hworking.trans htouches.working, ?_⟩
    rw [hrest, htouches.working, List.exists_mem_cons_iff]
    have hfirst : (d.database.value key).isSome ↔ (c.database.value key).isSome ∨
        (c.database.working = true ∧ (m.isPlaylist f.2 || m.isSong f.2) = true ∧
          key = urlOf f.1 f.2) := by
      constructor
      · intro hsome
        by_cases hkey : key = urlOf f.1 f.2
        · cases hc : c.database.working with
          | false => exact .inl (htouches.idle hc ▸ hsome)
          | true =>
            cases hsupports : m.isPlaylist f.2 || m.isSong f.2 with
            | false => exact .inl (hsame hsupports ▸ hsome)
            | true => exact .inr ⟨rfl, rfl, hkey⟩
        · rw [htouches.others key hkey] at hsome
          exact .inl hsome
      · intro hsome
        rcases hsome with hsome | ⟨hc, hsupports, rfl⟩
        · by_cases hkey : key = urlOf f.1 f.2
          · subst hkey
            exact htouches.kept hsome
          · rw [htouches.others key hkey]
            exact hsome
        · exact hown hsupports hc
    rw [hfirst, or_assoc, ← and_or_left]

theorem working_of_playlist {c c' : MusicCatalog} {files : List (Text × Text)} {f : Text × Text}
    (h : searchFiles m bSendMessages c files = .ok c') (hf : f ∈ files)
    (hlist : m.isPlaylist f.2 = true) : c.database.working = true := by
  obtain ⟨before, after, rfl⟩ := List.append_of_mem hf
  obtain ⟨d, hbefore, h⟩ := searchFiles_append.mp h
  obtain ⟨e, hfile, -⟩ := searchFiles_cons.mp h
  rw [← (@isSome_searchFiles _ _ _ _ _ [] hbefore).1]
  rw [searchFile_eq, hlist, if_pos rfl] at hfile
  split at hfile
  · assumption
  · exact absurd hfile nofun

/-- The GUID of a record is kept by the loop, exactly when no file has its key and spoils it. -/
theorem keeps_searchFiles_iff {c c' : MusicCatalog} {files : List (Text × Text)}
    {key guid : Text} (hkeeps : Keeps c.database key guid)
    (h : searchFiles m bSendMessages c files = .ok c') :
    Keeps c'.database key guid ↔
      ∀ f ∈ files, key = urlOf f.1 f.2 → ¬ Spoils m bSendMessages guid f.2 := by
  induction files generalizing c with
  | nil =>
    rw [← Except.ok.inj h]
    exact ⟨fun _ f hf => absurd hf List.not_mem_nil, fun _ => hkeeps⟩
  | cons f files ih =>
    obtain ⟨d, hd, h⟩ := searchFiles_cons.mp h
    rw [List.forall_mem_cons]
    by_cases hspoils : key = urlOf f.1 f.2 ∧ Spoils m bSendMessages guid f.2
    · obtain ⟨rfl, hspoils⟩ := hspoils
      have hlost := (searchFile_own hkeeps hd).1 hspoils
      have hend : Lost c'.database (urlOf f.1 f.2) :=
        searchFiles_induct (fun f _ c c' hc' hlost => lost_searchFile hlost hc') h hlost
      exact ⟨fun hkept => absurd hend hkept.not_lost, fun hnot => absurd hspoils (hnot.1 rfl)⟩
    · have hkept : Keeps d.database key guid := by
        by_cases hkey : key = urlOf f.1 f.2
        · subst hkey
          exact (searchFile_own hkeeps hd).2 fun hs => hspoils ⟨rfl, hs⟩
        · exact (keeps_searchFile_iff_of_ne hkey hd).mpr hkeeps
      rw [ih hkept h]
      exact ⟨fun hall => ⟨fun hkey hs => hspoils ⟨hkey, hs⟩, hall⟩, fun hall => hall.2⟩

/-! ## The end of the loop -/

/-- The metadata fits into a record, with names for what has none, and is read back. -/
structure FitsRecord (metadata : MetaData) : Prop where
  guid : metadata.guid.length < 10 ^ 9
  room : metadata.fields.flatten.length + 200 ≤ maxSize

/-- A record can be read, and a new one be written over it. -/
structure Ready (m : Formats) (bSendMessages : Bool) (db : Database) (url : Text) : Prop where
  found : FitsRecord (m.retrieved url)
  recorded : readMetaDataFromDatabase db url = .ok none ∨
    ∃ tempdata, readMetaDataFromDatabase db url = .ok (some tempdata) ∧
      (bSendMessages = true → FitsRecord (takeGUID (m.retrieved url) (some tempdata)))

theorem Ready.congr {db db' : Database} {url : Text} (h : Ready m bSendMessages db url)
    (hread : readMetaDataFromDatabase db' url = readMetaDataFromDatabase db url) :
    Ready m bSendMessages db' url where
  found := h.found
  recorded := by
    rw [hread]
    exact h.recorded

theorem write_of_fits {db : Database} (url : Text) {metadata : MetaData}
    (hworking : db.working = true) (hnul : metadata.NulFree)
    (hguid : metadata.guid.length < 10 ^ 9)
    (hroom : metadata.fields.flatten.length + 137 ≤ maxSize) :
    ∃ db', writeMetaDataToDatabase db url metadata .track = .ok db' ∧ db'.working = true ∧
      readMetaDataFromDatabase db' url = .ok (some metadata) := by
  obtain ⟨ost, hrecord⟩ := metaDataRecord_of_le .track hroom
  have hwrite : writeMetaDataToDatabase db url metadata .track = .ok (db.insert url ost) := by
    unfold writeMetaDataToDatabase
    rw [hworking, hrecord]
    rfl
  refine ⟨_, hwrite, hworking, ?_⟩
  rw [readMetaDataFromDatabase_write hworking hnul hwrite, if_pos hguid]

theorem length_fields (metadata : MetaData) :
    metadata.fields.flatten.length = metadata.artist.length + metadata.album.length +
      metadata.title.length + metadata.guid.length +
        ({ metadata with artist := [], album := [], title := [], guid := [] } :
          MetaData).fields.flatten.length := by
  simp only [MetaData.fields, List.flatten_cons, List.flatten_nil, List.length_append,
    List.length_nil]
  omega

/-- A song with a record that fits is added, and keeps a record. -/
theorem addSong_of_read {c : MusicCatalog} {url : Text} {metadata : MetaData} (found : MetaData)
    (hread : readMetaDataFromDatabase c.database url = .ok (some metadata))
    (hfits : FitsRecord metadata) :
    ∃ r, c.addSong url found = .ok r ∧
      ∃ metadata', readMetaDataFromDatabase r.2.database url = .ok (some metadata') := by
  have hworking := MusicCatalog.working_of_read hread
  have hfetch : MusicCatalog.fetchSong c.database url found = .ok (c.database, some metadata) := by
    unfold MusicCatalog.fetchSong
    rw [hread]
    rfl
  -- the GUID is taken away or not
  have hdrop : ∃ d, MusicCatalog.dropGUID c.killGUIDs c.database url metadata = .ok d ∧
      readMetaDataFromDatabase d.1 url = .ok (some d.2) ∧ FitsRecord d.2 := by
    unfold MusicCatalog.dropGUID
    split
    · have hlength : ({ metadata with guid := [] } : MetaData).fields.flatten.length ≤
          metadata.fields.flatten.length := by
        rw [length_fields metadata, length_fields { metadata with guid := [] }]
        simp only [List.length_nil]
        omega
      have hroom := hfits.room
      have hnul : ({ metadata with guid := [] } : MetaData).NulFree :=
        nulFree_takeGUID (nulFree_readMetaDataFromDatabase hread) (by decide : MetaData.new.NulFree)
      have hshort : ({ metadata with guid := [] } : MetaData).guid.length < 10 ^ 9 :=
        Nat.pow_pos (by decide)
      obtain ⟨db', hwrite, -, hread'⟩ := write_of_fits url hworking hnul hshort (by omega)
      refine ⟨(db', { metadata with guid := [] }), ?_, hread', hshort,
        Nat.le_trans (Nat.add_le_add_right hlength 200) hroom⟩
      simp only
      rw [hwrite]
      rfl
    · exact ⟨_, rfl, hread, hfits⟩
  obtain ⟨d, hdrop, hread', hfits'⟩ := hdrop
  have hadd : c.addSong url found =
      MusicCatalog.insertSong { c with database := d.1 } url d.2 := by
    unfold MusicCatalog.addSong
    rw [hworking, hfetch]
    show (MusicCatalog.dropGUID c.killGUIDs c.database url metadata >>= _) = _
    rw [hdrop]
    rfl
  rw [hadd]
  unfold MusicCatalog.insertSong
  split
  · split
    · exact ⟨_, rfl, d.2, hread'⟩
    · exact ⟨_, rfl, d.2, hread'⟩
  · simp only
    split
    · have hroom := hfits'.room
      have hunknown : MusicCatalog.unknown.length = 7 := by decide
      have hlength : (MusicCatalog.nameUnknown d.2).fields.flatten.length ≤
          d.2.fields.flatten.length + 14 := by
        rw [length_fields d.2, length_fields (MusicCatalog.nameUnknown d.2)]
        unfold MusicCatalog.nameUnknown
        simp only
        split_ifs <;> omega
      obtain ⟨db', hwrite, -, hread''⟩ := write_of_fits url (MusicCatalog.working_of_read hread')
        (MusicCatalog.nulFree_nameUnknown (nulFree_readMetaDataFromDatabase hread'))
        hfits'.guid (by omega)
      rw [hwrite]
      exact ⟨_, rfl, _, hread''⟩
    · exact ⟨_, rfl, d.2, hread'⟩

/-- A song that is ready is dealt with, and stays ready. -/
theorem searchSong_ready {c : MusicCatalog} {url : Text}
    (h : Ready m bSendMessages c.database url) :
    ∃ c', searchSong m bSendMessages (!bSendMessages) c url = .ok c' ∧
      Ready m bSendMessages c'.database url := by
  have hroom : ∀ {metadata : MetaData}, FitsRecord metadata →
      metadata.fields.flatten.length + 137 ≤ maxSize := fun hfits => by
    have hle := hfits.room
    omega
  obtain hnone | ⟨tempdata, hread, hfits⟩ := h.recorded
  · -- there is no record, and one is written if the database works
    have hwrite : ∃ db, writeMetaDataToDatabase c.database url (m.retrieved url) .track = .ok db ∧
        (c.database.working = false → db = c.database) ∧ (c.database.working = true →
          readMetaDataFromDatabase db url = .ok (some (m.retrieved url))) := by
      cases hworking : c.database.working with
      | false =>
        refine ⟨c.database, ?_, fun _ => rfl, nofun⟩
        unfold writeMetaDataToDatabase
        rw [hworking]
        rfl
      | true =>
        obtain ⟨db, hwrite, -, hread⟩ := write_of_fits url hworking (m.nulFree url)
          h.found.guid (hroom h.found)
        exact ⟨db, hwrite, nofun, fun _ => hread⟩
    obtain ⟨db, hwrite, hidle, hread⟩ := hwrite
    unfold searchSong
    cases bSendMessages with
    | true =>
      rw [if_pos rfl, ok_bind, if_neg (by simp), hnone, ok_bind, if_pos (by simp), takeGUID,
        hwrite, ok_bind]
      refine ⟨_, if_neg (by simp), h.found, ?_⟩
      cases hworking : c.database.working with
      | false =>
        rw [hidle hworking]
        exact .inl hnone
      | true => exact .inr ⟨_, hread hworking, fun _ => h.found⟩
    | false =>
      rw [if_neg Bool.false_ne_true, hnone, ok_bind, if_neg (by simp), ok_bind,
        if_pos (by simp), takeGUID, hwrite, ok_bind, if_pos (by simp)]
      cases hworking : c.database.working with
      | false =>
        rw [hidle hworking]
        have hadd : MusicCatalog.addSong { c with database := c.database } url
            (m.retrieved url) = .ok (.databaseNotWorking, c) := by
          unfold MusicCatalog.addSong
          rw [hworking]
          rfl
        rw [hadd]
        exact ⟨c, rfl, h⟩
      | true =>
        obtain ⟨r, hadd, metadata', hread'⟩ := @addSong_of_read { c with database := db } url _
          (m.retrieved url) (hread hworking) h.found
        rw [hadd]
        exact ⟨r.2, rfl, h.found, .inr ⟨metadata', hread', nofun⟩⟩
  · unfold searchSong
    cases bSendMessages with
    | true =>
      have hfits' := hfits rfl
      obtain ⟨db, hwrite, -, hread'⟩ := write_of_fits url (MusicCatalog.working_of_read hread)
        (nulFree_takeGUID (m.nulFree url) (nulFree_readMetaDataFromDatabase hread)) hfits'.guid
        (hroom hfits')
      rw [if_pos rfl, ok_bind, if_neg (by simp), hread, ok_bind, if_pos (by simp), hwrite, ok_bind]
      exact ⟨_, if_neg (by simp), h.found, .inr ⟨_, hread', fun _ => hfits'⟩⟩
    | false =>
      rw [if_neg Bool.false_ne_true, hread, ok_bind, if_pos (by simp)]
      exact ⟨c, rfl, h⟩

theorem isPlaylist_of_isSong {name : Text} (h : m.isSong name = true) :
    m.isPlaylist name = false := by
  unfold Formats.isSong at h
  split at h
  · exact absurd h nofun
  · simpa using (Bool.and_eq_true_iff.mp h).1

/-- The loop is gone through when every song is ready and a playlist finds a database. -/
theorem searchFiles_ok {c : MusicCatalog} {files : List (Text × Text)}
    (hnames : ∀ f ∈ files, dirMarker ∉ f.2)
    (hlists : ∀ f ∈ files, m.isPlaylist f.2 = true → c.database.working = true)
    (hsongs : ∀ f ∈ files, m.isSong f.2 = true →
      Ready m bSendMessages c.database (urlOf f.1 f.2)) :
    ∃ c', searchFiles m bSendMessages c files = .ok c' := by
  let P : MusicCatalog → Prop := fun d => d.database.working = c.database.working ∧
    ∀ f ∈ files, m.isSong f.2 = true → Ready m bSendMessages d.database (urlOf f.1 f.2)
  have hmeets : Meets (searchFiles m bSendMessages c files) (fun _ => False) P := by
    refine Meets.foldlM _ (fun d f hf hP => ?_) ⟨rfl, hsongs⟩
    obtain ⟨hworking, hready⟩ := hP
    have hok : ∃ d', searchFile m bSendMessages (!bSendMessages) d f.1 f.2 = .ok d' ∧
        (m.isSong f.2 = true → Ready m bSendMessages d'.database (urlOf f.1 f.2)) := by
      rw [searchFile_eq]
      cases hlist : m.isPlaylist f.2 with
      | true =>
        rw [if_pos rfl, if_pos (hworking.trans (hlists f hf hlist))]
        refine ⟨_, rfl, fun hsong => ?_⟩
        rw [isPlaylist_of_isSong hsong] at hlist
        exact absurd hlist nofun
      | false =>
        rw [if_neg Bool.false_ne_true]
        cases hsong : m.isSong f.2 with
        | true =>
          obtain ⟨d', hd', hready'⟩ := searchSong_ready (hready f hf hsong)
          exact ⟨d', by rw [if_pos rfl, hd']; rfl, fun _ => hready'⟩
        | false => exact ⟨d, rfl, nofun⟩
    obtain ⟨d', hok, hown⟩ := hok
    have htouches := (touches_searchFile hok).1
    rw [hok]
    refine ⟨htouches.working.trans hworking, fun g hg hsong => ?_⟩
    by_cases hkey : urlOf g.1 g.2 = urlOf f.1 f.2
    · rw [hkey]
      apply hown
      rw [← (urlOf_inj (hnames g hg) (hnames f hf) hkey).2]
      exact hsong
    · exact (hready g hg hsong).congr (htouches.read hkey)
  cases hrun : searchFiles m bSendMessages c files with
  | ok c' => exact ⟨c', rfl⟩
  | error f => exact absurd (hmeets.of_error hrun) id

end FreeAmp.Base.Search
