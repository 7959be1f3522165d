/-
  Base/SearchPaths.lean --- `MusicCatalog::DoSearchPaths`, from
  `base/src/musiccatalog.cpp`.

  A directory can be come to under more spellings than one, and under one with a wildcard
  in it none of its files are found.

      doSearchPaths_searches   a search comes to an end, and files each file once exactly
                               when it comes to it under one spelling
-/
import FreeAmp.Base.SearchFile

namespace FreeAmp.Base.Search

open FreeAmp.Lib DirectoryTree

/-! ## The search -/

/-- `DoSearchPaths`; `m_addImmediately` is set only while it runs. -/
def doSearchPaths (t : DirectoryTree) (m : Formats) (c : MusicCatalog) (pathList : List Text)
    (bSendMessages : Bool) : Except SearchFault MusicCatalog :=
  pathList.foldlM
    (doSearchMusic t (searchFile m bSendMessages !bSendMessages) (t.height + 1)) c

variable {t : DirectoryTree} {m : Formats} {pathList : List Text} {bSendMessages : Bool}

/-- The search is one loop over the files that the walks come to. -/
theorem doSearchPaths_ok_iff {c c' : MusicCatalog} :
    doSearchPaths t m c pathList bSendMessages = .ok c' ↔
      ∃ parts, pathList.mapM (filesFound t (t.height + 1)) = .ok parts ∧
        searchFiles m bSendMessages c parts.flatten = .ok c' :=
  foldlM_flatten_ok_iff fun _ _ _ _ => doSearchMusic_ok_iff

theorem doSearchPaths_ends (c : MusicCatalog) :
    doSearchPaths t m c pathList bSendMessages ≠ .error .tooDeep := by
  have hmeets : Meets (doSearchPaths t m c pathList bSendMessages) (fun f => f ≠ .tooDeep)
      fun _ => True := by
    refine Meets.foldlM _ (fun c path _ _ => ?_) trivial
    refine meets_doSearchMusic (deepEnough_height t path) fun c p name => ?_
    refine Meets.intro (fun _ _ => trivial) fun f hf => ?_
    rw [searchFile_eq] at hf
    split at hf
    · split at hf
      · exact absurd hf nofun
      · rw [← Except.error.inj hf]
        exact nofun
    · split at hf
      · cases hsong : searchSong m bSendMessages (!bSendMessages) c (urlOf p name) with
        | ok c' =>
          rw [hsong] at hf
          exact absurd hf nofun
        | error e =>
          rw [hsong] at hf
          rw [← Except.error.inj hf]
          exact nofun
      · exact absurd hf nofun
  intro h
  exact hmeets.of_error h rfl

/-- The search goes into a directory under this spelling. -/
structure Walked (t : DirectoryTree) (pathList : List Text) (p : Text) (place : Place) :
    Prop where
  reached : ∃ path ∈ pathList, Reached t path p
  opens : Opens t p place

/-- The search comes to a name in a directory that it goes into. -/
def Visits (t : DirectoryTree) (pathList : List Text) (p name : Text) : Prop :=
  ∃ place, Walked t pathList p place ∧
    ∃ e ∈ t.entries place, e.1 = name ∧ e.2.attribute = .normal

theorem mem_parts {parts : List (List (Text × Text))} {p name : Text}
    (h : pathList.mapM (filesFound t (t.height + 1)) = .ok parts) :
    (p, name) ∈ parts.flatten ↔ Visits t pathList p name := by
  rw [mem_flatten_mapM h]
  constructor
  · intro hmem
    obtain ⟨path, hpath, part, hpart, hmem⟩ := hmem
    obtain ⟨hreached, place, hopens, hentry⟩ := (mem_filesFound hpart).mp hmem
    exact ⟨place, ⟨⟨path, hpath, hreached⟩, hopens⟩, hentry⟩
  · intro hvisits
    obtain ⟨place, ⟨⟨path, hpath, hreached⟩, hopens⟩, hentry⟩ := hvisits
    obtain ⟨part, hpart⟩ := mapM_ok_iff.mp ⟨parts, h⟩ path hpath
    exact ⟨path, hpath, part, hpart, (mem_filesFound hpart).mpr ⟨hreached, place, hopens, hentry⟩⟩

/-! ## What it is to find -/

/-- A directory is below another, and no link is on the way. -/
inductive Below (t : DirectoryTree) (base : Place) : Place → Prop where
  | here : Below t base base
  | down {place : Place} {name : Text} (habove : Below t base place)
      (hentry : (name, .directory) ∈ t.entries place) : Below t base (place ++ [name])

/-- It is not in `/dev` and not in `/proc`. -/
def Outside (place : Place) : Prop :=
  place.head? ≠ some (bytes "dev") ∧ place.head? ≠ some (bytes "proc")

/-- A regular file that is supported, in a directory below a search path. -/
structure Sought (t : DirectoryTree) (m : Formats) (pathList : List Text) (place : Place)
    (name : Text) : Prop where
  below : ∃ path ∈ pathList, ∃ base, t.resolve path = some (.directory base) ∧ Below t base place
  outside : Outside place
  file : (name, .file) ∈ t.entries place
  supported : (m.isPlaylist name || m.isSong name) = true

/-- The key is a URL of the file. -/
def KeyOf (t : DirectoryTree) (key : Text) (place : Place) (name : Text) : Prop :=
  ∃ path, key = protocol ++ path ∧ t.resolve path = some (.file place name)

/-- What a search is to do to the catalog. -/
structure Searched (t : DirectoryTree) (m : Formats) (pathList : List Text)
    (c c' : MusicCatalog) : Prop where
  oneKey : ∀ place name, Sought t m pathList place name →
    ∃! key, KeyOf t key place name ∧ key ∈ c'.database.keys
  guids : ∀ key metadata, readMetaDataFromDatabase c.database key = .ok (some metadata) →
    Keeps c'.database key metadata.guid

/-! ## When it does -/

/-- Nothing is in the way of the search, each file that is sought has one key, of those there
are and those that the spellings give, and no record is spoiled. -/
structure WellSpelled (t : DirectoryTree) (m : Formats) (pathList : List Text)
    (bSendMessages : Bool) (db : Database) : Prop where
  passable : ∀ path ∈ pathList, ∀ p, Reached t path p → Passable t p
  lists : ∀ p name, Visits t pathList p name → m.isPlaylist name = true → db.working = true
  oneSpelling : ∀ place name, Sought t m pathList place name →
    ∃! key, KeyOf t key place name ∧ (key ∈ db.keys ∨
      db.working = true ∧ ∃ p, Walked t pathList p place ∧ key = urlOf p name)
  unspoiled : ∀ p name metadata, Visits t pathList p name →
    readMetaDataFromDatabase db (urlOf p name) = .ok (some metadata) →
      ¬ Spoils m bSendMessages metadata.guid name

theorem mem_keys_iff_isSome {db : Database} {key : Text} :
    key ∈ db.keys ↔ (db.value key).isSome := by
  unfold Database.keys Database.value
  rw [Option.isSome_map, List.lookup_isSome_iff]
  simp only [beq_iff_eq, List.mem_map]
  exact ⟨fun ⟨e, he, heq⟩ => ⟨e, he, heq.symm⟩, fun ⟨e, he, heq⟩ => ⟨e, he, heq.symm⟩⟩

/-- Where the path of a file leads that the search comes to. -/
theorem resolve_entry {p : Text} {place : Place} {e : Text × Entry} (h : Opens t p place)
    (he : e ∈ t.entries place) (hnormal : e.2.attribute = .normal) :
    t.resolve (p ++ dirMarker :: e.1) = some (.file place e.1) := by
  rw [resolve_append (ne_nil_of_resolve h.leads) (t.legal place e he).2.2.2.1, h.leads]
  rw [Option.bind_some, step_entry he]
  cases hentry : e.2 with
  | file => rfl
  | special => rfl
  | directory =>
    rw [hentry] at hnormal
    exact absurd hnormal nofun
  | link target =>
    rw [hentry] at hnormal
    exact absurd hnormal nofun

theorem keyOf_searched_iff {c c' : MusicCatalog} {place : Place} {name key : Text}
    (h : doSearchPaths t m c pathList bSendMessages = .ok c')
    (hsought : Sought t m pathList place name) :
    KeyOf t key place name ∧ key ∈ c'.database.keys ↔
      KeyOf t key place name ∧ (key ∈ c.database.keys ∨
        c.database.working = true ∧ ∃ p, Walked t pathList p place ∧ key = urlOf p name) := by
  obtain ⟨parts, hparts, hfiles⟩ := doSearchPaths_ok_iff.mp h
  apply and_congr_right
  intro hkey
  rw [mem_keys_iff_isSome, mem_keys_iff_isSome, (isSome_searchFiles hfiles).2]
  apply or_congr_right
  apply and_congr_right
  intro _
  constructor
  · intro hfile
    obtain ⟨⟨p, name'⟩, hmem, -, hurl⟩ := hfile
    obtain ⟨place', hwalked, e, he, rfl, hnormal⟩ := (mem_parts hparts).mp hmem
    obtain ⟨path, hpath, hleads⟩ := hkey
    -- one path leads to one file
    rw [hurl] at hpath
    rw [← List.append_cancel_left hpath, resolve_entry hwalked.opens he hnormal] at hleads
    obtain ⟨rfl, rfl⟩ := Spot.file.inj (Option.some.inj hleads)
    exact ⟨p, hwalked, hurl⟩
  · intro hwalked
    obtain ⟨p, hwalked, hurl⟩ := hwalked
    have hvisits : Visits t pathList p name :=
      ⟨place, hwalked, (name, .file), hsought.file, rfl, rfl⟩
    exact ⟨(p, name), (mem_parts hparts).mpr hvisits, hsought.supported, hurl⟩

theorem searched_iff {c c' : MusicCatalog}
    (h : doSearchPaths t m c pathList bSendMessages = .ok c') :
    Searched t m pathList c c' ↔ WellSpelled t m pathList bSendMessages c.database := by
  obtain ⟨parts, hparts, hfiles⟩ := doSearchPaths_ok_iff.mp h
  constructor
  · intro hsearched
    refine ⟨?_, ?_, ?_, ?_⟩
    · intro path hpath p hreached
      obtain ⟨part, hpart⟩ := mapM_ok_iff.mp ⟨parts, hparts⟩ path hpath
      exact (filesFound_ok_iff (deepEnough_height t path)).mp ⟨part, hpart⟩ p hreached
    · exact fun p name hvisits => working_of_playlist hfiles ((mem_parts hparts).mpr hvisits)
    · intro place name hsought
      have hone := hsearched.oneKey place name hsought
      simp only [keyOf_searched_iff h hsought] at hone
      exact hone
    · intro p name metadata hvisits hread
      have hkeeps := hsearched.guids _ metadata hread
      exact (keeps_searchFiles_iff ⟨metadata, hread, rfl⟩ hfiles).mp hkeeps (p, name)
        ((mem_parts hparts).mpr hvisits) rfl
  · intro hspelled
    refine ⟨?_, ?_⟩
    · intro place name hsought
      simp only [keyOf_searched_iff h hsought]
      exact hspelled.oneSpelling place name hsought
    · intro key metadata hread
      refine (keeps_searchFiles_iff ⟨metadata, hread, rfl⟩ hfiles).mpr fun f hf hkey => ?_
      rw [hkey] at hread
      exact hspelled.unspoiled f.1 f.2 metadata ((mem_parts hparts).mp hf) hread

/-- Every song that the search comes to has a record that can be read, or none, and what is
found in it fits into a record. -/
def SongsReady (t : DirectoryTree) (m : Formats) (pathList : List Text) (bSendMessages : Bool)
    (db : Database) : Prop :=
  ∀ p name, Visits t pathList p name → m.isSong name = true →
    Ready m bSendMessages db (urlOf p name)

/-- A search that nothing is in the way of is brought to its end. -/
theorem doSearchPaths_ok {c : MusicCatalog}
    (hspelled : WellSpelled t m pathList bSendMessages c.database)
    (hready : SongsReady t m pathList bSendMessages c.database) :
    ∃ c', doSearchPaths t m c pathList bSendMessages = .ok c' := by
  obtain ⟨parts, hparts⟩ := mapM_ok_iff.mpr fun path hpath =>
    (filesFound_ok_iff (deepEnough_height t path)).mpr (hspelled.passable path hpath)
  have hvisits : ∀ f ∈ parts.flatten, Visits t pathList f.1 f.2 := fun f hf =>
    (mem_parts hparts).mp hf
  obtain ⟨c', hfiles⟩ := searchFiles_ok
    (fun f hf => by
      obtain ⟨place, -, e, he, hname, -⟩ := hvisits f hf
      rw [← hname]
      exact (t.legal place e he).2.2.2.1)
    (fun f hf => hspelled.lists f.1 f.2 (hvisits f hf))
    (fun f hf => hready f.1 f.2 (hvisits f hf))
  exact ⟨c', doSearchPaths_ok_iff.mpr ⟨parts, hparts, hfiles⟩⟩

/-- A search comes to an end; where the spellings are in order and the songs are ready it does
what it is to do, and where it does so the spellings are in order. -/
theorem doSearchPaths_searches (t : DirectoryTree) (m : Formats) (c : MusicCatalog)
    (pathList : List Text) (bSendMessages : Bool) :
    doSearchPaths t m c pathList bSendMessages ≠ .error .tooDeep ∧
      (WellSpelled t m pathList bSendMessages c.database ∧
          SongsReady t m pathList bSendMessages c.database →
        ∃ c', doSearchPaths t m c pathList bSendMessages = .ok c' ∧
          Searched t m pathList c c') ∧
      ((∃ c', doSearchPaths t m c pathList bSendMessages = .ok c' ∧
          Searched t m pathList c c') →
        WellSpelled t m pathList bSendMessages c.database) := by
  refine ⟨doSearchPaths_ends c, ?_, ?_⟩
  · intro h
    obtain ⟨hspelled, hready⟩ := h
    obtain ⟨c', hok⟩ := doSearchPaths_ok hspelled hready
    exact ⟨c', hok, (searched_iff hok).mpr hspelled⟩
  · intro h
    obtain ⟨c', hok, hsearched⟩ := h
    exact (searched_iff hok).mp hsearched

/-- One song, in a directory of the root. -/
def musicTree : DirectoryTree where
  entries place :=
    if place = [] then [(bytes "music", .directory)]
    else if place = [bytes "music"] then [(bytes "a.mp3", .file)]
    else []
  legal := by
    intro place e he
    split_ifs at he
    · rw [List.mem_singleton.mp he]
      decide
    · rw [List.mem_singleton.mp he]
      decide
    · exact absurd he List.not_mem_nil
  distinct := by
    intro place
    split_ifs <;> simp
  height := 2
  low := by
    intro place hlow
    rw [if_neg (by rintro rfl; exact absurd hlow (by decide)),
      if_neg (by rintro rfl; exact absurd hlow (by decide))]
  cwd := []
  maxLinks := 40

/-- Songs end in `.mp3`, and nothing is found in them. -/
def mp3Formats : Formats where
  isSupportedExtension ext := ext == bytes "MP3"
  isSupportedPlaylistFormat _ := false
  isSupportedProtocol _ := false
  retrieved _ := .new
  nulFree := fun _ => by decide

/-- The same directory, under two spellings. -/
def musicTwice : List Text := [bytes "/music", bytes "/music/"]

/-- The song gets two keys. -/
theorem doSearchPaths_two_keys :
    ∃ c', doSearchPaths musicTree mp3Formats (.initial .empty) musicTwice true = .ok c' ∧
      c'.database.keys = [bytes "file:///music//a.mp3", bytes "file:///music/a.mp3"] ∧
      ¬ Searched musicTree mp3Formats musicTwice (.initial .empty) c' := by
  have hkeys : ((doSearchPaths musicTree mp3Formats (.initial .empty) musicTwice true).toOption.map
      fun c' => c'.database.keys) =
        some [bytes "file:///music//a.mp3", bytes "file:///music/a.mp3"] := by
    decide
  obtain ⟨c', hrun, hkeys⟩ := Option.map_eq_some_iff.mp hkeys
  have hok : doSearchPaths musicTree mp3Formats (.initial .empty) musicTwice true = .ok c' := by
    cases hr : doSearchPaths musicTree mp3Formats (.initial .empty) musicTwice true with
    | error f =>
      rw [hr] at hrun
      exact absurd hrun nofun
    | ok d =>
      rw [hr] at hrun
      rw [Option.some.inj hrun]
  refine ⟨c', hok, hkeys, fun hsearched => ?_⟩
  have hsought : Sought musicTree mp3Formats musicTwice [bytes "music"] (bytes "a.mp3") :=
    ⟨⟨bytes "/music", List.mem_cons_self, [bytes "music"], by decide, .here⟩,
      ⟨by decide, by decide⟩, by decide, by decide⟩
  obtain ⟨key, -, hunique⟩ := hsearched.oneKey _ _ hsought
  have hfirst := hunique (bytes "file:///music//a.mp3")
    ⟨⟨bytes "/music//a.mp3", by decide, by decide⟩, by rw [hkeys]; simp⟩
  have hsecond := hunique (bytes "file:///music/a.mp3")
    ⟨⟨bytes "/music/a.mp3", by decide, by decide⟩, by rw [hkeys]; simp⟩
  exact absurd (hfirst.trans hsecond.symm) (by decide)

theorem opens_music : Opens musicTree (bytes "/music") [bytes "music"] :=
  ⟨by decide +kernel, by decide +kernel, by decide +kernel⟩

theorem not_directory_music (name : Text) :
    (name, .directory) ∉ musicTree.entries [bytes "music"] := by
  intro hentry
  have hfile : (name, Entry.directory) ∈ [(bytes "a.mp3", Entry.file)] := hentry
  rw [List.mem_singleton, Prod.mk.injEq] at hfile
  exact absurd hfile.2 nofun

theorem walked_music {p : Text} {place : Place}
    (h : Walked musicTree [bytes "/music"] p place) :
    p = bytes "/music" ∧ place = [bytes "music"] := by
  obtain ⟨path, hpath, hreached⟩ := h.reached
  rw [List.mem_singleton.mp hpath] at hreached
  have hp : p = bytes "/music" := by
    cases hreached with
    | here => rfl
    | inside hopens hentry _ =>
      rw [opens_music.unique hopens] at hentry
      exact absurd hentry (not_directory_music _)
  subst hp
  exact ⟨rfl, opens_music.unique h.opens⟩

theorem below_music {place : Place} (h : Below musicTree [bytes "music"] place) :
    place = [bytes "music"] := by
  induction h with
  | here => rfl
  | down _ hentry ih =>
    rw [ih] at hentry
    exact absurd hentry (not_directory_music _)

theorem wellSpelled_music :
    WellSpelled musicTree mp3Formats [bytes "/music"] true .empty where
  passable := by
    intro path hpath p hreached
    rw [List.mem_singleton.mp hpath] at hreached
    cases hreached with
    | here => exact opens_music.passable
    | inside hopens hentry _ =>
      rw [opens_music.unique hopens] at hentry
      exact absurd hentry (not_directory_music _)
  lists := fun _ _ _ _ => rfl
  oneSpelling := by
    intro place name hsought
    obtain ⟨path, hpath, base, hleads, hbelow⟩ := hsought.below
    rw [List.mem_singleton.mp hpath, opens_music.leads] at hleads
    rw [← Spot.directory.inj (Option.some.inj hleads)] at hbelow
    obtain rfl := below_music hbelow
    have hwalked : Walked musicTree [bytes "/music"] (bytes "/music") [bytes "music"] :=
      ⟨⟨_, List.mem_singleton_self _, .here _⟩, opens_music⟩
    refine ⟨urlOf (bytes "/music") name,
      ⟨⟨_, rfl, resolve_entry opens_music hsought.file rfl⟩, .inr ⟨rfl, _, hwalked, rfl⟩⟩, ?_⟩
    intro key hkey
    obtain ⟨-, hkey | ⟨-, p, hp, hkey⟩⟩ := hkey
    · exact absurd hkey List.not_mem_nil
    · rw [hkey, (walked_music hp).1]
  unspoiled := fun _ _ _ _ hread => absurd hread nofun

/-- A search for one spelling gives the song one key. -/
theorem doSearchPaths_one_key :
    ∃ c', doSearchPaths musicTree mp3Formats (.initial .empty) [bytes "/music"] true = .ok c' ∧
      Searched musicTree mp3Formats [bytes "/music"] (.initial .empty) c' :=
  (doSearchPaths_searches musicTree mp3Formats (.initial .empty) [bytes "/music"] true).2.1
    ⟨wellSpelled_music, fun _ _ _ _ => 
      ⟨⟨(by decide : MetaData.new.guid.length < 10 ^ 9),
        (by decide : MetaData.new.fields.flatten.length + 200 ≤ maxSize)⟩, .inl rfl⟩⟩

end FreeAmp.Base.Search
