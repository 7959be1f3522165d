/-
  Base/MusicCatalogSettled.lean --- what `RePopulateFromDatabase` leaves.

  The catalog it leaves does not depend on what was there, or on the order of the keys.
  Whether it is that of the records in the database is another matter: the record of a
  track is written once more when the track has an artist and its album or its title has
  no name, and its item then has the names of before.

      rePopulate_settles_iff   the catalog is a function of the database alone, and is
                               kept by a second run, exactly when no record is such
-/
import FreeAmp.Base.MusicCatalogRebuild

namespace FreeAmp.Base

open FreeAmp.Lib MusicCatalog

namespace Library

/-! ## What is to come out -/

/-- The catalog is that of the records. -/
structure Faithful (s : Library) : Prop where
  tracks : ∀ url, s.catalog.urls.count url = if begins 77 s.catalog.database url then 1 else 0
  placed : ∀ url m, url ∈ s.catalog.urls → s.catalog.Reads url m → s.catalog.Placed m url
  playlists : ∀ url, s.playlists.count url = if begins 80 s.catalog.database url then 1 else 0
  streams : ∀ url, (s.streams.map Prod.fst).count url =
    if begins 83 s.catalog.database url then 1 else 0
  items : (s.items.map Prod.fst).Perm s.catalog.urls
  memory : ∀ item ∈ s.items ++ s.streams, s.catalog.Reads item.1 item.2

/-- Two catalogs are the same, up to the order in lists and the letters of names. -/
structure Same (s t : Library) : Prop where
  database : ∀ key, s.catalog.database.value key = t.catalog.database.value key
  urls : s.catalog.urls.Perm t.catalog.urls
  placed : ∀ url m, s.catalog.Placed m url ↔ t.catalog.Placed m url
  items : s.items.Perm t.items
  playlists : s.playlists.Perm t.playlists
  streams : s.streams.Perm t.streams

def versionKeys : List Text := [subVersionKey, databaseVersionKey]

/-- Every track that has an artist has an album and a title, and no record is under the key of a
version. -/
structure Settled (db : Database) : Prop where
  tracks : ∀ url m, begins 77 db url = true →
    readMetaDataFromDatabase db url = .ok (some m) → settled m = true
  versions : ∀ key ∈ versionKeys, ∀ c ∈ letters, begins c db key = false

/-! ## After the loop -/

section Loop

variable {s s' : Library} {keys : List (Text × MetaData)} {db : Database}

theorem mem_keys_of_begins {c : UInt8} {key : Text} (h : begins c db key = true) :
    key ∈ db.keys := by
  by_contra hnot
  have hnone : db.value key = none := by
    unfold Database.value
    rw [Database.lookup_eq_none_of_not_mem _ hnot]
    rfl
  unfold begins letter at h
  rw [hnone] at h
  exact absurd h nofun

theorem GoesThrough.nodup (h : GoesThrough keys db) : (keys.map Prod.fst).Nodup :=
  h.nodup_iff.mpr (db.distinct.filter _)

theorem GoesThrough.mem_iff (h : GoesThrough keys db) {key : Text} :
    key ∈ keys.map Prod.fst ↔ key ∈ db.keys ∧ key ≠ databaseVersionKey := by
  rw [List.Perm.mem_iff h, List.mem_filter, decide_eq_true_eq]

theorem filled_cleared (s : Library) :
    Filled s.catalog.database s.killsGUIDs [] s.cleared where
  working := rfl
  kills := rfl
  invariant := invariant_of_empty rfl rfl
  ahead := fun _ _ => rfl
  value := fun _ h => absurd h List.not_mem_nil
  present := fun _ h => absurd h List.not_mem_nil
  urls := .refl _
  items := rfl
  playlists := .refl _
  streams := rfl
  readable := fun _ h => absurd h List.not_mem_nil

/-- `RePopulateFromDatabase`, when it has returned `kError_NoErr`. -/
theorem rePopulate_filled (hkeys : GoesThrough keys s.catalog.database)
    (hok : s.rePopulateFromDatabase keys = .ok (.noErr, s')) :
    s.catalog.database.working = true ∧ ∃ t killGUIDs,
      Filled s.catalog.database s.killsGUIDs (keys.map Prod.fst) t ∧
        s' = { t with catalog := { t.catalog with
          database := t.catalog.database.insert subVersionKey (showInt databaseSubVersion)
          killGUIDs := killGUIDs } } ∧
        (s.catalog.killGUIDs = false → killGUIDs = false) := by
  unfold rePopulateFromDatabase at hok
  dsimp only at hok
  cases hworking : s.catalog.database.working with
  | false =>
    rw [hworking] at hok
    exact absurd (pair_of_ok hok).1 nofun
  | true =>
    rw [hworking] at hok
    simp only [Bool.not_true, Bool.false_eq_true, if_false] at hok
    obtain ⟨t, hloop, hok⟩ := bind_eq_ok.mp hok
    have hfilled := (filled_cleared s).addKeys hworking hkeys.nodup hloop
    rw [List.nil_append] at hfilled
    refine ⟨rfl, t, _, hfilled, (pair_of_ok hok).2.symm, fun hkill => ?_⟩
    split
    · rfl
    · rename_i hold
      rw [hfilled.kills, killsGUIDs, if_neg (by simpa using hold)]
      exact hkill

end Loop

/-! ## The catalog as it was built -/

/-- What `RePopulateFromDatabase` makes of a database. -/
structure Rebuilt (db : Database) (killGUIDs : Bool) (s : Library) : Prop where
  working : s.catalog.database.working = true
  kills : s.catalog.killGUIDs = false
  wellPlaced : s.catalog.WellPlaced
  version : s.catalog.database.value subVersionKey = some (cStr (showInt databaseSubVersion))
  value : ∀ key, key ≠ subVersionKey →
    s.catalog.database.value key = rewritten killGUIDs db key
  present : ∀ key, begins 77 db key = true → (rewritten killGUIDs db key).isSome
  readable : ∀ key, begins 77 db key = true ∨ begins 83 db key = true →
    ∃ m, readMetaDataFromDatabase db key = .ok (some m)
  tracks : ∃ l : List Text, l.Nodup ∧ (∀ key, key ∈ l ↔ begins 77 db key = true) ∧
    s.catalog.urls.Perm l ∧ s.items = l.map (itemOf killGUIDs db)
  playlists : s.playlists.Nodup ∧ ∀ key, key ∈ s.playlists ↔ begins 80 db key = true
  streams : ∃ l : List Text, l.Nodup ∧ (∀ key, key ∈ l ↔ begins 83 db key = true) ∧
    s.streams = l.map (itemOf false db)

section Rebuilt

variable {s s' t : Library} {keys : List (Text × MetaData)} {db : Database} {killGUIDs : Bool}

theorem mem_letters {c : UInt8} (h : c = 77 ∨ c = 80 ∨ c = 83) : c ∈ letters := by
  unfold letters
  rcases h with rfl | rfl | rfl <;> simp

theorem version_head : ∀ c ∈ letters,
    ((cStr (showInt databaseSubVersion)).head? == some c) = false := by
  intro c hc
  simp only [letters, List.mem_cons, List.not_mem_nil, or_false] at hc
  rcases hc with rfl | rfl | rfl <;> rfl

/-- No record is under the key of a version, so the loop has been at every record. -/
theorem rebuilt_of_rePopulate (hkeys : GoesThrough keys s.catalog.database)
    (hversions : ∀ key ∈ versionKeys, ∀ c ∈ letters, begins c s.catalog.database key = false)
    (hkill : s.catalog.killGUIDs = false)
    (hok : s.rePopulateFromDatabase keys = .ok (.noErr, s')) :
    Rebuilt s.catalog.database s.killsGUIDs s' := by
  obtain ⟨hworking, t, killGUIDs, hfilled, rfl, hkills⟩ := rePopulate_filled hkeys hok
  have htworking : t.catalog.database.working = true := hfilled.working.trans hworking
  have hstored := hfilled.invariant.store_version htworking
  have hdone : ∀ {c : UInt8} {key : Text}, c ∈ letters →
      begins c s.catalog.database key = true → key ∈ keys.map Prod.fst := by
    intro c key hc hbegins
    refine hkeys.mem_iff.mpr ⟨mem_keys_of_begins hbegins, ?_⟩
    rintro rfl
    have hnot := hversions databaseVersionKey (by simp [versionKeys]) c hc
    exact absurd (hnot.symm.trans hbegins) nofun
  have hfilter : ∀ {c : UInt8}, c ∈ letters → ∀ key,
      key ∈ (keys.map Prod.fst).filter (begins c s.catalog.database) ↔
        begins c s.catalog.database key = true := by
    intro c hc key
    rw [List.mem_filter]
    exact ⟨fun h => h.2, fun h => ⟨hdone hc h, h⟩⟩
  have h77 : (77 : UInt8) ∈ letters := mem_letters (.inl rfl)
  have h80 : (80 : UInt8) ∈ letters := mem_letters (.inr (.inl rfl))
  have h83 : (83 : UInt8) ∈ letters := mem_letters (.inr (.inr rfl))
  have hnodup : ∀ c, ((keys.map Prod.fst).filter (begins c s.catalog.database)).Nodup :=
    fun c => hkeys.nodup.filter _
  refine
    { working := htworking
      kills := hkills hkill
      wellPlaced := ?_
      version := Database.value_insert_self _ _ _
      value := fun key hkey => ?_
      present := fun key h => hfilled.present key (hdone h77 h) h
      readable := fun key h => ?_
      tracks := ⟨_, hnodup 77, hfilter h77, hfilled.urls, hfilled.items⟩
      playlists := ⟨hfilled.playlists.nodup_iff.mpr (hnodup 80), fun key => ?_⟩
      streams := ⟨_, hnodup 83, hfilter h83, hfilled.streams⟩ }
  · have hinv : MusicCatalog.Invariant { t.catalog with
        database := t.catalog.database.insert subVersionKey (showInt databaseSubVersion)
        killGUIDs := killGUIDs } :=
      ⟨hstored.shelves, hstored.urls, hstored.unsorted, hstored.sorted, hstored.records⟩
    exact hinv.wellPlaced
  · show (t.catalog.database.insert subVersionKey (showInt databaseSubVersion)).value key = _
    rw [Database.value_insert_of_ne _ _ hkey]
    by_cases hmem : key ∈ keys.map Prod.fst
    · exact hfilled.value key hmem
    · rw [hfilled.ahead key hmem, rewritten_of_not_track]
      exact Bool.eq_false_iff.mpr fun h => hmem (hdone h77 h)
  · rcases h with h | h
    · exact hfilled.readable key (hdone h77 h) (.inl h)
    · exact hfilled.readable key (hdone h83 h) (.inr h)
  · exact hfilled.playlists.mem_iff.trans (hfilter h80 key)

theorem Rebuilt.begins_eq (h : Rebuilt db killGUIDs s)
    (hversions : ∀ key ∈ versionKeys, ∀ c ∈ letters, begins c db key = false) {c : UInt8}
    (hc : c ∈ letters) (key : Text) : begins c s.catalog.database key = begins c db key := by
  by_cases hkey : key = subVersionKey
  · rw [hkey, hversions subVersionKey (by simp [versionKeys]) c hc,
      begins_of_value h.version]
    exact version_head c hc
  · unfold begins
    rw [letter, h.value key hkey, rewritten_head (h.present key)]

theorem ne_version_of_begins {c : UInt8} {key : Text}
    (hversions : ∀ key ∈ versionKeys, ∀ c ∈ letters, begins c db key = false) (hc : c ∈ letters)
    (h : begins c db key = true) : key ≠ subVersionKey := by
  rintro rfl
  have hnot := hversions subVersionKey (by simp [versionKeys]) c hc
  exact absurd (hnot.symm.trans h) nofun

theorem Rebuilt.read_track (h : Rebuilt db killGUIDs s) (hdb : db.working = true) {key : Text}
    {m : MetaData} (hkey : key ≠ subVersionKey) (hbegins : begins 77 db key = true)
    (hm : readMetaDataFromDatabase db key = .ok (some m)) :
    (settled m = true → s.catalog.Reads key (dropped killGUIDs m)) ∧
      ∀ m', s.catalog.Reads key m' → m' = recorded (dropped killGUIDs m) := by
  have hvalue := h.value key hkey
  have hpresent := h.present key hbegins
  unfold rewritten at hvalue hpresent
  rw [hm, hbegins] at hvalue hpresent
  dsimp only at hvalue hpresent
  rw [Bool.true_and] at hvalue hpresent
  by_cases hwrites : (killGUIDs || !settled m) = true
  · rw [if_pos hwrites] at hvalue hpresent
    cases hrecord : metaDataRecord (recorded (dropped killGUIDs m)) .track with
    | error f =>
      rw [hrecord] at hpresent
      exact absurd hpresent nofun
    | ok ost =>
      rw [hrecord] at hvalue
      have hnul : (recorded (dropped killGUIDs m)).NulFree :=
        nulFree_recorded (nulFree_dropped (nulFree_readMetaDataFromDatabase hm))
      have hread := read_of_record h.working hvalue hnul hrecord
      refine ⟨fun hsettled => ?_, fun m' hm' => ?_⟩
      · have hkills : killGUIDs = true := by simpa [hsettled] using hwrites
        have hshort : (dropped true m).guid.length < 10 ^ 9 := Nat.pow_pos (by decide)
        rw [recorded_of_settled (by rw [settled_dropped, hsettled]), hkills,
          if_pos hshort] at hread
        rw [hkills]
        exact hread
      · have hread' := hread.symm.trans hm'
        split at hread'
        · exact (Option.some.inj (Except.ok.inj hread')).symm
        · exact absurd hread' nofun
  · rw [if_neg hwrites] at hvalue
    have hboth : killGUIDs = false ∧ settled m = true := by simpa using hwrites
    obtain ⟨rfl, hsettled⟩ := hboth
    have hread : s.catalog.Reads key m :=
      (readMetaDataFromDatabase_congr (h.working.trans hdb.symm) hvalue).trans hm
    refine ⟨fun _ => hread, fun m' hm' => ?_⟩
    rw [show dropped false m = m from rfl, recorded_of_settled hsettled]
    exact Option.some.inj (Except.ok.inj (hm'.symm.trans hread))

theorem Rebuilt.read_stream (h : Rebuilt db killGUIDs s) (hdb : db.working = true) {key : Text}
    (hkey : key ≠ subVersionKey) (hbegins : begins 83 db key = true) :
    readMetaDataFromDatabase s.catalog.database key = readMetaDataFromDatabase db key := by
  have hletter : letter db key = some 83 := by simpa [begins] using hbegins
  have htrack : begins 77 db key = false := by
    unfold begins
    rw [hletter]
    rfl
  refine readMetaDataFromDatabase_congr (h.working.trans hdb.symm) ?_
  rw [h.value key hkey, rewritten_of_not_track htrack]

theorem map_fst_itemOf (killGUIDs : Bool) (db : Database) (l : List Text) :
    (l.map (itemOf killGUIDs db)).map Prod.fst = l := by
  rw [List.map_map]
  have hid : Prod.fst ∘ itemOf killGUIDs db = id := funext fun url => itemOf_fst killGUIDs db url
  rw [hid, List.map_id]

/-- A catalog that is built of records that are in order is theirs. -/
theorem Rebuilt.faithful (h : Rebuilt db killGUIDs s) (hdb : db.working = true)
    (hsettled : Settled db) : s.Faithful := by
  have h77 : (77 : UInt8) ∈ letters := mem_letters (.inl rfl)
  have h80 : (80 : UInt8) ∈ letters := mem_letters (.inr (.inl rfl))
  have h83 : (83 : UInt8) ∈ letters := mem_letters (.inr (.inr rfl))
  have hcount : ∀ {l : List Text} {c : UInt8}, c ∈ letters → l.Nodup →
      (∀ key, key ∈ l ↔ begins c db key = true) → ∀ url,
        l.count url = if begins c s.catalog.database url then 1 else 0 := by
    intro l c hc hnodup hmem url
    rw [hnodup.count, h.begins_eq hsettled.versions hc url]
    simp only [hmem]
  obtain ⟨tracks, htracks, hmemtracks, hurls, hitems⟩ := h.tracks
  obtain ⟨streams, hstreams, hmemstreams, hstreamed⟩ := h.streams
  refine ⟨fun url => ?_, fun url m hurl hm => h.wellPlaced.placed hurl hm,
    hcount h80 h.playlists.1 h.playlists.2, fun url => ?_, ?_, fun item hitem => ?_⟩
  · rw [hurls.count_eq, hcount h77 htracks hmemtracks]
  · rw [hstreamed, map_fst_itemOf, hcount h83 hstreams hmemstreams]
  · rw [hitems, map_fst_itemOf]
    exact hurls.symm
  · rcases List.mem_append.mp hitem with hitem | hitem
    · rw [hitems] at hitem
      obtain ⟨key, hkey, rfl⟩ := List.mem_map.mp hitem
      have hbegins := (hmemtracks key).mp hkey
      obtain ⟨m, hm⟩ := h.readable key (.inl hbegins)
      rw [itemOf_eq hm]
      exact (h.read_track hdb (ne_version_of_begins hsettled.versions h77 hbegins) hbegins hm).1
        (hsettled.tracks key m hbegins hm)
    · rw [hstreamed] at hitem
      obtain ⟨key, hkey, rfl⟩ := List.mem_map.mp hitem
      have hbegins := (hmemstreams key).mp hkey
      obtain ⟨m, hm⟩ := h.readable key (.inr hbegins)
      rw [itemOf_eq hm]
      exact (h.read_stream hdb (ne_version_of_begins hsettled.versions h83 hbegins)
        hbegins).trans hm

/-- Catalogs that are built of records that say the same are the same. -/
theorem Rebuilt.same {db' : Database} {killGUIDs' : Bool} (h : Rebuilt db killGUIDs s)
    (h' : Rebuilt db' killGUIDs' t) (hfaithful : s.Faithful)
    (hletters : ∀ c ∈ letters, ∀ key, begins c db key = begins c db' key)
    (hitem : ∀ key, begins 77 db key = true → itemOf killGUIDs db key = itemOf killGUIDs' db' key)
    (hstream : ∀ key, begins 83 db key = true → itemOf false db key = itemOf false db' key)
    (hvalue : ∀ key, s.catalog.database.value key = t.catalog.database.value key) :
    s.Same t := by
  have hperm : ∀ {c : UInt8} {l l' : List Text}, c ∈ letters → l.Nodup → l'.Nodup →
      (∀ key, key ∈ l ↔ begins c db key = true) → (∀ key, key ∈ l' ↔ begins c db' key = true) →
        l.Perm l' := by
    intro c l l' hc hl hl' hmem hmem'
    rw [List.perm_ext_iff_of_nodup hl hl']
    intro key
    rw [hmem, hmem', hletters c hc]
  obtain ⟨l, hl, hmem, hurls, hitems⟩ := h.tracks
  obtain ⟨l', hl', hmem', hurls', hitems'⟩ := h'.tracks
  obtain ⟨k, hk, hmemk, hstreams⟩ := h.streams
  obtain ⟨k', hk', hmemk', hstreams'⟩ := h'.streams
  have htracks := hperm (mem_letters (.inl rfl)) hl hl' hmem hmem'
  have hsame : s.catalog.urls.Perm t.catalog.urls := (hurls.trans htracks).trans hurls'.symm
  refine ⟨hvalue, hsame, fun url m => ?_, ?_, ?_, ?_⟩
  · by_cases hurl : url ∈ s.catalog.urls
    · obtain ⟨item, hitem, rfl⟩ :=
        List.mem_map.mp ((hfaithful.items.mem_iff (a := url)).mpr hurl)
      have hread := hfaithful.memory item (List.mem_append_left _ hitem)
      have hread' : t.catalog.Reads item.1 item.2 :=
        (readMetaDataFromDatabase_congr (h'.working.trans h.working.symm)
          (hvalue item.1).symm).trans hread
      rw [placed_iff_samePlace h.wellPlaced.urls (h.wellPlaced.placed hurl hread),
        placed_iff_samePlace h'.wellPlaced.urls
          (h'.wellPlaced.placed (hsame.mem_iff.mp hurl) hread')]
    · exact ⟨fun hp => absurd hp.mem_urls hurl,
        fun hp => absurd (hsame.mem_iff.mpr hp.mem_urls) hurl⟩
  · rw [hitems, hitems', List.map_congr_left fun key hkey => hitem key ((hmem key).mp hkey)]
    exact htracks.map _
  · exact hperm (mem_letters (.inr (.inl rfl))) h.playlists.1 h'.playlists.1 h.playlists.2
      h'.playlists.2
  · rw [hstreams, hstreams', List.map_congr_left fun key hkey => hstream key ((hmemk key).mp hkey)]
    exact (hperm (mem_letters (.inr (.inr rfl))) hk hk' hmemk hmemk').map _

end Rebuilt

/-! ## Between two calls -/

section Runs

variable {s s' : Library} {err : Error}

theorem kills_addSong {url : Text} {found : MetaData}
    (hok : s.addSong url found = .ok (err, s')) :
    s'.catalog.killGUIDs = s.catalog.killGUIDs := by
  unfold addSong at hok
  dsimp only at hok
  split at hok
  · rw [← (pair_of_ok hok).2]
  · obtain ⟨r, -, hok⟩ := bind_eq_ok.mp hok
    split at hok
    · rw [← (pair_of_ok hok).2]
      rfl
    · obtain ⟨t, -, hok⟩ := bind_eq_ok.mp hok
      obtain ⟨i, hinsert, hok⟩ := bind_eq_ok.mp hok
      rw [← (pair_of_ok hok).2]
      exact (insertSong_database hinsert).1

theorem kills_removeSong {url : Text} (hok : s.removeSong url = .ok (err, s')) :
    s'.catalog.killGUIDs = s.catalog.killGUIDs := by
  obtain ⟨⟨err', c⟩, hremove, hok⟩ := bind_eq_ok.mp hok
  rw [← (pair_of_ok hok).2]
  show c.killGUIDs = s.catalog.killGUIDs
  unfold MusicCatalog.removeSong at hremove
  split at hremove
  · rw [← (pair_of_ok hremove).2]
  · obtain ⟨metadata, -, hremove⟩ := bind_eq_ok.mp hremove
    split at hremove
    · rw [← (pair_of_ok hremove).2]
    · dsimp only at hremove
      split at hremove
      · split at hremove <;> rw [← (pair_of_ok hremove).2]
      · obtain ⟨r, -, hremove⟩ := bind_eq_ok.mp hremove
        rw [← (pair_of_ok hremove).2]

theorem kills_updateSong {item : PlaylistItem} {found : MetaData}
    (hok : s.updateSong item found = .ok (err, s')) :
    s'.catalog.killGUIDs = s.catalog.killGUIDs := by
  unfold updateSong at hok
  split at hok
  · rw [← (pair_of_ok hok).2]
  · obtain ⟨⟨err', t⟩, hremove, hok⟩ := bind_eq_ok.mp hok
    have ht := kills_removeSong hremove
    split at hok
    · rw [← (pair_of_ok hok).2]
      exact ht
    · obtain ⟨db, -, hadd⟩ := bind_eq_ok.mp hok
      exact (kills_addSong hadd).trans ht

theorem kills_addPlaylist (s : Library) (url : Text) :
    (s.addPlaylist url).2.catalog.killGUIDs = s.catalog.killGUIDs := by
  unfold addPlaylist
  dsimp only
  split
  · rfl
  · have hsame : (if (s.catalog.database.value url).isNone then
        s.withDatabase (s.catalog.database.insert url (bytes "P")) else s).catalog.killGUIDs =
          s.catalog.killGUIDs := by
      split <;> rfl
    generalize (if (s.catalog.database.value url).isNone then
      s.withDatabase (s.catalog.database.insert url (bytes "P")) else s) = t at hsame ⊢
    split <;> exact hsame

theorem kills_removePlaylist (s : Library) (url : Text) :
    (s.removePlaylist url).2.catalog.killGUIDs = s.catalog.killGUIDs := by
  unfold removePlaylist
  dsimp only
  split
  · rfl
  · split
    · rfl
    · split <;> rfl

theorem kills_addStream {url : Text} (hok : s.addStream url = .ok (err, s')) :
    s'.catalog.killGUIDs = s.catalog.killGUIDs := by
  unfold addStream at hok
  split at hok
  · rw [← (pair_of_ok hok).2]
  · obtain ⟨metadata, -, hok⟩ := bind_eq_ok.mp hok
    split at hok
    · rw [← (pair_of_ok hok).2]
    · split at hok <;> rw [← (pair_of_ok hok).2]

theorem kills_removeStream {url : Text} (hok : s.removeStream url = .ok (err, s')) :
    s'.catalog.killGUIDs = s.catalog.killGUIDs := by
  unfold removeStream at hok
  split at hok
  · rw [← (pair_of_ok hok).2]
  · obtain ⟨metadata, -, hok⟩ := bind_eq_ok.mp hok
    split at hok
    · rw [← (pair_of_ok hok).2]
    · rw [← (pair_of_ok hok).2]
      rfl

theorem kills_add {url : Text} {found : MetaData} (hok : s.add url found = .ok (err, s')) :
    s'.catalog.killGUIDs = s.catalog.killGUIDs := by
  unfold Library.add at hok
  dsimp only at hok
  split at hok
  · rw [← (pair_of_ok hok).2]
  · split at hok
    · rw [← (pair_of_ok hok).2]
    · split at hok
      · exact kills_addSong hok
      · split at hok
        · have hsame : (s.addPlaylist url).2 = s' := congrArg Prod.snd (Except.ok.inj hok)
          rw [← hsame]
          exact kills_addPlaylist s url
        · split at hok
          · exact kills_addStream hok
          · rw [← (pair_of_ok hok).2]

theorem kills_addKeys {keys : List (Text × MetaData)} :
    ∀ {s : Library}, s.addKeys keys = .ok s' →
      s'.catalog.killGUIDs = s.catalog.killGUIDs := by
  induction keys with
  | nil =>
    intro s hok
    rw [← Except.ok.inj hok]
  | cons key keys ih =>
    intro s hok
    obtain ⟨⟨err, t⟩, hadd, hok⟩ := bind_eq_ok.mp hok
    exact (ih hok).trans (kills_add hadd)

theorem Step.kills {k : Call} (hstep : Step s k s') (h : s.catalog.killGUIDs = false) :
    s'.catalog.killGUIDs = false := by
  obtain ⟨err, hok⟩ := hstep
  cases k with
  | addSong url found => exact (kills_addSong hok).trans h
  | removeSong url => exact (kills_removeSong hok).trans h
  | updateSong item found => exact (kills_updateSong hok).trans h
  | addPlaylist url =>
    have hsame : (s.addPlaylist url).2 = s' := congrArg Prod.snd (Except.ok.inj hok)
    rw [← hsame]
    exact (kills_addPlaylist s url).trans h
  | removePlaylist url =>
    have hsame : (s.removePlaylist url).2 = s' := congrArg Prod.snd (Except.ok.inj hok)
    rw [← hsame]
    exact (kills_removePlaylist s url).trans h
  | addStream url => exact (kills_addStream hok).trans h
  | removeStream url => exact (kills_removeStream hok).trans h
  | clearCatalog =>
    rw [← (pair_of_ok hok).2]
    exact h
  | rePopulateFromDatabase keys =>
    unfold call rePopulateFromDatabase at hok
    dsimp only at hok
    split at hok
    · rw [← (pair_of_ok hok).2]
      exact h
    · obtain ⟨t, hloop, hok⟩ := bind_eq_ok.mp hok
      rw [← (pair_of_ok hok).2]
      show (if _ then false else t.catalog.killGUIDs) = false
      split
      · rfl
      · rename_i hold
        rw [kills_addKeys hloop]
        show s.killsGUIDs = false
        unfold killsGUIDs
        rw [if_neg (by simpa using hold)]
        exact h

theorem kills_of_run {db : Database} {calls : List Call} (h : Run Step (initial db) calls s) :
    s.catalog.killGUIDs = false :=
  h.invariant (P := fun s => s.catalog.killGUIDs = false) (fun _ _ _ hs hstep => hstep.kills hs)
    rfl

end Runs

/-! ## Exactly when -/

section Settles

variable {s s' : Library} {keys : List (Text × MetaData)} {db : Database} {killGUIDs : Bool}

theorem Rebuilt.killsGUIDs (h : Rebuilt db killGUIDs s) : s.killsGUIDs = false := by
  have hversion : getSubVersion s.catalog.database = databaseSubVersion := by
    unfold getSubVersion
    rw [h.version]
    rfl
  unfold Library.killsGUIDs
  rw [hversion, if_neg (Int.lt_irrefl _)]
  exact h.kills

theorem Rebuilt.settled (h : Rebuilt db killGUIDs s) (hdb : db.working = true)
    (hsettled : Settled db) : Settled s.catalog.database where
  tracks := fun url m hbegins hm => by
    have h77 : (77 : UInt8) ∈ letters := mem_letters (.inl rfl)
    rw [h.begins_eq hsettled.versions h77] at hbegins
    obtain ⟨m₀, hm₀⟩ := h.readable url (.inl hbegins)
    have hkey := ne_version_of_begins hsettled.versions h77 hbegins
    have hm₀settled := hsettled.tracks url m₀ hbegins hm₀
    rw [(h.read_track hdb hkey hbegins hm₀).2 m hm, recorded_of_settled, settled_dropped, hm₀settled]
    rw [settled_dropped, hm₀settled]
  versions := fun key hkey c hc => by
    rw [h.begins_eq hsettled.versions hc]
    exact hsettled.versions key hkey c hc

theorem Rebuilt.again {t : Library} (h : Rebuilt db killGUIDs s) (hdb : db.working = true)
    (hsettled : Settled db) (ht : Rebuilt s.catalog.database false t) : s.Same t := by
  have h77 : (77 : UInt8) ∈ letters := mem_letters (.inl rfl)
  have h83 : (83 : UInt8) ∈ letters := mem_letters (.inr (.inr rfl))
  have hread : ∀ key, begins 77 db key = true → ∃ m, readMetaDataFromDatabase db key =
      .ok (some m) ∧ s.catalog.Reads key (dropped killGUIDs m) ∧
        Library.settled (dropped killGUIDs m) = true := by
    intro key hbegins
    obtain ⟨m, hm⟩ := h.readable key (.inl hbegins)
    have hsettles := hsettled.tracks key m hbegins hm
    have hkey := ne_version_of_begins hsettled.versions h77 hbegins
    exact ⟨m, hm, (h.read_track hdb hkey hbegins hm).1 hsettles, by rw [settled_dropped, hsettles]⟩
  refine h.same ht (h.faithful hdb hsettled)
    (fun c hc key => (h.begins_eq hsettled.versions hc key).symm) (fun key hbegins => ?_)
    (fun key hbegins => ?_) fun key => ?_
  · obtain ⟨m, hm, hm', -⟩ := hread key hbegins
    rw [itemOf_eq hm, itemOf_eq hm']
    rfl
  · have hkey := ne_version_of_begins hsettled.versions h83 hbegins
    unfold itemOf
    rw [h.read_stream hdb hkey hbegins]
  · by_cases hkey : key = subVersionKey
    · rw [hkey, h.version, ht.version]
    · rw [ht.value key hkey]
      cases hbegins : begins 77 db key with
      | true =>
        obtain ⟨m, -, hm', hsettles⟩ := hread key hbegins
        exact (rewritten_of_settled hm' hsettles).symm
      | false =>
        have hnot : begins 77 s.catalog.database key = false := by
          rw [h.begins_eq hsettled.versions h77, hbegins]
        exact (rewritten_of_not_track hnot).symm

/-- The list that a record of a letter comes to. -/
def listOf (s : Library) (c : UInt8) : List Text :=
  if c = 77 then s.catalog.urls else if c = 80 then s.playlists else s.streams.map Prod.fst

theorem Filled.listOf {done : List Text} (h : Filled db killGUIDs done s) {c : UInt8}
    (hc : c ∈ letters) : (s.listOf c).Perm (done.filter (begins c db)) := by
  simp only [letters, List.mem_cons, List.not_mem_nil, or_false] at hc
  rcases hc with rfl | rfl | rfl
  · exact h.urls
  · exact h.playlists
  · show (s.streams.map Prod.fst).Perm _
    rw [h.streams, map_fst_itemOf]

theorem Faithful.count (h : s.Faithful) {c : UInt8} (hc : c ∈ letters) (url : Text) :
    (s.listOf c).count url = if begins c s.catalog.database url then 1 else 0 := by
  simp only [letters, List.mem_cons, List.not_mem_nil, or_false] at hc
  rcases hc with rfl | rfl | rfl
  · exact h.tracks url
  · exact h.playlists url
  · exact h.streams url

/-- In a catalog that is that of the records no version has a record. -/
theorem Faithful.versions (hkeys : GoesThrough keys s.catalog.database)
    (hok : s.rePopulateFromDatabase keys = .ok (.noErr, s')) (h : s'.Faithful) :
    ∀ key ∈ versionKeys, ∀ c ∈ letters, begins c s.catalog.database key = false := by
  obtain ⟨-, t, killGUIDs, hfilled, rfl, -⟩ := rePopulate_filled hkeys hok
  have hlist : ∀ c ∈ letters, ∀ key,
      key ∈ (t.listOf c) ↔ key ∈ keys.map Prod.fst ∧ begins c s.catalog.database key = true :=
    fun c hc key => (hfilled.listOf hc).mem_iff.trans List.mem_filter
  intro key hkey c hc
  by_contra hnot
  have hbegins : begins c s.catalog.database key = true := eq_true_of_ne_false hnot
  have hcount : (t.listOf c).count key = if begins c (t.catalog.database.insert subVersionKey
      (showInt databaseSubVersion)) key then 1 else 0 := h.count hc key
  simp only [versionKeys, List.mem_cons, List.not_mem_nil, or_false] at hkey
  rcases hkey with rfl | rfl
  · -- the record has been stored over
    have hgone : begins c (t.catalog.database.insert subVersionKey (showInt databaseSubVersion))
        subVersionKey = false := by
      rw [begins_of_value (Database.value_insert_self _ _ _)]
      exact version_head c hc
    rw [hgone, if_neg Bool.false_ne_true, List.count_eq_zero, hlist c hc] at hcount
    refine hcount ⟨hkeys.mem_iff.mpr ⟨mem_keys_of_begins hbegins, ?_⟩, hbegins⟩
    decide
  · -- the loop has not been there
    have hapart : databaseVersionKey ∉ keys.map Prod.fst := fun hmem =>
      (hkeys.mem_iff.mp hmem).2 rfl
    have hkept : begins c (t.catalog.database.insert subVersionKey (showInt databaseSubVersion))
        databaseVersionKey = true := by
      unfold begins letter at hbegins ⊢
      rw [Database.value_insert_of_ne _ _ (by decide), hfilled.ahead _ hapart]
      exact hbegins
    rw [hkept, if_pos rfl] at hcount
    have hmem : databaseVersionKey ∈ t.listOf c := List.count_pos_iff.mp (by rw [hcount]; decide)
    exact hapart ((hlist c hc _).mp hmem).1

/-- What `RePopulateFromDatabase` is to leave: the catalog of the records, whatever was there and
whatever the order of the keys is, and once more the same when it is called again. -/
structure FunctionOfDatabase (s s' : Library) : Prop where
  faithful : s'.Faithful
  function : ∀ (db : Database) (calls : List Call) (t t' : Library)
    (keys : List (Text × MetaData)), Run Step (initial db) calls t →
      t.catalog.database = s.catalog.database → GoesThrough keys t.catalog.database →
        t.rePopulateFromDatabase keys = .ok (.noErr, t') → s'.Same t'
  again : ∀ (keys : List (Text × MetaData)) (s'' : Library),
    GoesThrough keys s'.catalog.database →
      s'.rePopulateFromDatabase keys = .ok (.noErr, s'') → s'.Same s''

/-- After any run, `RePopulateFromDatabase` does so exactly when every track of the database that has
an artist has an album and a title, and no record is under the key of a version. -/
theorem rePopulate_settles_iff {calls : List Call} (h : Run Step (initial db) calls s)
    (hkeys : GoesThrough keys s.catalog.database)
    (hok : s.rePopulateFromDatabase keys = .ok (.noErr, s')) :
    s.FunctionOfDatabase s' ↔ Settled s.catalog.database := by
  have hkill := kills_of_run h
  obtain ⟨hworking, -⟩ := rePopulate_filled hkeys hok
  constructor
  · intro hfunction
    have hfaithful := hfunction.faithful
    have hversions := hfaithful.versions hkeys hok
    have hrebuilt := rebuilt_of_rePopulate hkeys hversions hkill hok
    refine ⟨fun url m hbegins hm => ?_, hversions⟩
    -- the item of the track has what was read before the names were given
    obtain ⟨l, -, hmem, -, hitems⟩ := hrebuilt.tracks
    have hitem : (url, dropped s.killsGUIDs m) ∈ s'.items := by
      rw [hitems, ← itemOf_eq hm]
      exact List.mem_map_of_mem ((hmem url).mpr hbegins)
    have hread := hfaithful.memory _ (List.mem_append_left _ hitem)
    have hkey := ne_version_of_begins hversions (mem_letters (.inl rfl)) hbegins
    have hsame := (hrebuilt.read_track hworking hkey hbegins hm).2 _ hread
    rw [← settled_dropped s.killsGUIDs m]
    exact settled_of_recorded hsame.symm
  · intro hsettled
    have hrebuilt := rebuilt_of_rePopulate hkeys hsettled.versions hkill hok
    refine ⟨hrebuilt.faithful hworking hsettled, ?_, ?_⟩
    · intro db' calls' t t' keys' hrun hsame hkeys' hok'
      have hkills : t.killsGUIDs = s.killsGUIDs := by
        unfold Library.killsGUIDs
        rw [hsame, kills_of_run hrun, hkill]
      have ht := rebuilt_of_rePopulate hkeys' (hsame ▸ hsettled.versions) (kills_of_run hrun) hok'
      rw [hsame, hkills] at ht
      refine hrebuilt.same ht (hrebuilt.faithful hworking hsettled) (fun _ _ _ => rfl)
        (fun _ _ => rfl) (fun _ _ => rfl) fun key => ?_
      by_cases hkey : key = subVersionKey
      · rw [hkey, hrebuilt.version, ht.version]
      · rw [hrebuilt.value key hkey, ht.value key hkey]
    · intro keys' s'' hkeys' hok'
      have hagain := rebuilt_of_rePopulate hkeys'
        (hrebuilt.settled hworking hsettled).versions hrebuilt.kills hok'
      rw [hrebuilt.killsGUIDs] at hagain
      exact hrebuilt.again hworking hsettled hagain

/-- A song with an artist, an album and a title. -/
theorem rePopulate_settles_named :
    ∃ s s' : Library, Run Step (initial .empty) [.addSong [117] oldMetaData] s ∧
      s.rePopulateFromDatabase [([117], .new)] = .ok (.noErr, s') ∧
        s.FunctionOfDatabase s' := by
  obtain ⟨s, s', hadd, hkeys, hread, hok⟩ : ∃ s s' : Library,
      (initial .empty).addSong [117] oldMetaData = .ok (.noErr, s) ∧
        s.catalog.database.keys = [[117]] ∧
          readMetaDataFromDatabase s.catalog.database [117] = .ok (some oldMetaData) ∧
            s.rePopulateFromDatabase [([117], .new)] = .ok (.noErr, s') :=
    ⟨_, _, rfl, rfl, rfl, rfl⟩
  have hrun : Run Step (initial .empty) [.addSong [117] oldMetaData] s := .single ⟨_, hadd⟩
  have hthrough : GoesThrough [([117], .new)] s.catalog.database := by
    unfold GoesThrough
    rw [hkeys]
    exact .refl _
  have honly : ∀ {c : UInt8} {key : Text}, begins c s.catalog.database key = true →
      key = [117] := by
    intro c key hbegins
    have hmem := mem_keys_of_begins hbegins
    rw [hkeys] at hmem
    exact List.mem_singleton.mp hmem
  refine ⟨s, s', hrun, hok, (rePopulate_settles_iff hrun hthrough hok).mpr ⟨?_, ?_⟩⟩
  · intro url m hbegins hm
    rw [honly hbegins] at hm
    obtain rfl := Option.some.inj (Except.ok.inj (hread.symm.trans hm))
    decide
  · intro key hkey c _
    by_contra hnot
    have heq := honly (eq_true_of_ne_false hnot)
    rw [heq] at hkey
    exact absurd hkey (by decide)

/-- A song without an album. -/
def noAlbum : MetaData :=
  { MetaData.new with artist := bytes "A", title := bytes "t" }

/-- The record says "Unknown", and the item says nothing. -/
theorem rePopulate_settles_fails :
    ¬ ∀ (db : Database) (calls : List Call) (s s' : Library) (keys : List (Text × MetaData)),
      Run Step (initial db) calls s → GoesThrough keys s.catalog.database →
        s.rePopulateFromDatabase keys = .ok (.noErr, s') → s.FunctionOfDatabase s' := by
  intro h
  obtain ⟨db, s', m, hkeys, hok, hitems, hread, halbum⟩ : ∃ db s' m,
      db.keys = [[117]] ∧
        (initial db).rePopulateFromDatabase [([117], .new)] = .ok (.noErr, s') ∧
          s'.items = [([117], noAlbum)] ∧ s'.catalog.Reads [117] m ∧
            m.album = unknown := by
    have hwrite : ∃ db, writeMetaDataToDatabase .empty [117] noAlbum .track = .ok db ∧
        db.keys = [[117]] ∧ ∃ s' m,
          (initial db).rePopulateFromDatabase [([117], .new)] = .ok (.noErr, s') ∧
            s'.items = [([117], noAlbum)] ∧ s'.catalog.Reads [117] m ∧ m.album = unknown :=
      ⟨_, rfl, rfl, _, _, rfl, rfl, rfl, rfl⟩
    obtain ⟨db, -, hkeys, s', m, hrest⟩ := hwrite
    exact ⟨db, s', m, hkeys, hrest⟩
  have hthrough : GoesThrough [([117], .new)] (initial db).catalog.database := by
    show List.Perm _ (db.keys.filter _)
    rw [hkeys]
    exact .refl _
  have hfunction := h db [] (initial db) s' _ (.refl _) hthrough hok
  have hmemory : s'.catalog.Reads [117] noAlbum := by
    refine hfunction.faithful.memory ([117], noAlbum) (List.mem_append_left _ ?_)
    rw [hitems]
    exact List.mem_singleton_self _
  obtain rfl := Option.some.inj (Except.ok.inj (hread.symm.trans hmemory))
  exact absurd halbum (by decide)

end Settles

end Library

end FreeAmp.Base
