/-
  Base/MusicCatalogUpdate.lean --- `RemoveSong`, `AddSong` and `UpdateSong` of a song that has
  a record, and the lookups that end in `UpdateSong`, from `base/src/musiccatalog.cpp`.

  Nothing is supposed here of the catalog but that its artists and albums are in order: a
  song may be in it more than once, and a record may be missing.  `RemoveSong` takes out
  the copy that the record leads to, and `AddSong` puts one where the record says.

  What `APSFillMetaData` has found is an argument.
-/
import FreeAmp.Base.MusicCatalogInvariant

namespace FreeAmp.Base

open FreeAmp.Lib

namespace MusicCatalog

/-! ## Where a record leads to -/

/-- The song is where its metadata says. -/
def Placed (c : MusicCatalog) (m : MetaData) (url : Text) : Prop :=
  (blank m.artist = true ∧ url ∈ c.unsorted) ∨
    (blank m.artist = false ∧ Filed c.artistList m.artist m.album url)

/-- What is in the record of a song after `AddSong`. -/
def recorded (m : MetaData) : MetaData := if blank m.artist then m else nameUnknown m

theorem recorded_of_blank {m : MetaData} (h : blank m.artist = true) : recorded m = m := by
  unfold recorded
  rw [if_pos h]

theorem recorded_of_not_blank {m : MetaData} (h : blank m.artist = false) :
    recorded m = nameUnknown m := by
  unfold recorded
  rw [h]
  rfl

theorem Placed.mem_urls {c : MusicCatalog} {m : MetaData} {url : Text} (h : c.Placed m url) :
    url ∈ c.urls := by
  rcases h with ⟨_, hmem⟩ | ⟨_, name, albumName, _, _, hsits⟩
  · exact List.mem_append_left _ hmem
  · exact mem_urls_of_sits hsits

theorem removeFromAlbums_found {album url : Text} {albums albums' : List AlbumList} :
    ∀ {skip : Bool}, removeFromAlbums album url skip albums = .ok (albums', true) →
      ∃ b ∈ albums, caseCompare album b.name = true ∧ url ∈ b.trackList := by
  induction albums generalizing albums' with
  | nil =>
    intro skip h
    cases skip
    · exact absurd (pair_of_ok h).2 nofun
    · exact absurd h nofun
  | cons a albums ih =>
    intro skip h
    have hlater : ∀ {skip : Bool} {r : List AlbumList},
        removeFromAlbums album url skip albums = .ok (r, true) →
          ∃ b ∈ a :: albums, caseCompare album b.name = true ∧ url ∈ b.trackList := by
      intro skip r hr
      obtain ⟨b, hb, hfound⟩ := ih hr
      exact ⟨b, List.mem_cons_of_mem a hb, hfound⟩
    have hkept : (removeFromAlbums album url false albums >>= fun r =>
        Except.ok (a :: r.1, r.2)) = .ok (albums', true) →
          ∃ b ∈ a :: albums, caseCompare album b.name = true ∧ url ∈ b.trackList := by
      intro hr
      obtain ⟨⟨r, found⟩, hrest, hr⟩ := bind_eq_ok.mp hr
      obtain rfl : found = true := (pair_of_ok hr).2
      exact hlater hrest
    rw [removeFromAlbums] at h
    split at h
    · rename_i hname
      split at h
      · rename_i hurl
        have hcase : caseCompare album a.name = true := (Bool.and_eq_true_iff.mp hname).2
        exact ⟨a, List.mem_cons_self, hcase, hurl⟩
      · split at h
        · exact hlater h
        · exact hkept h
    · exact hkept h

theorem removeFromArtists_found {artist album url : Text} {artists artists' : List ArtistList} :
    ∀ {skip : Bool}, removeFromArtists artist album url skip artists = .ok (artists', true) →
      Filed artists artist album url := by
  induction artists generalizing artists' with
  | nil =>
    intro skip h
    cases skip
    · exact absurd (pair_of_ok h).2 nofun
    · exact absurd h nofun
  | cons a artists ih =>
    intro skip h
    have hlater : ∀ {skip : Bool} {r : List ArtistList},
        removeFromArtists artist album url skip artists = .ok (r, true) →
          Filed (a :: artists) artist album url := by
      intro skip r hr
      obtain ⟨name, albumName, hname, halbum, b, hb, hsits⟩ := ih hr
      exact ⟨name, albumName, hname, halbum, b, List.mem_cons_of_mem a hb, hsits⟩
    rw [removeFromArtists] at h
    split at h
    · rename_i hname
      have hcase : caseCompare artist a.name = true := (Bool.and_eq_true_iff.mp hname).2
      obtain ⟨⟨r, found⟩, hremove, h⟩ := bind_eq_ok.mp h
      cases found with
      | true =>
        obtain ⟨b, hb, halbum, hurl⟩ := removeFromAlbums_found hremove
        exact ⟨a.name, b.name, hcase, halbum, a, List.mem_cons_self, rfl, b, hb, rfl, hurl⟩
      | false =>
        rw [if_neg Bool.false_ne_true] at h
        split at h
        · exact hlater h
        · obtain ⟨⟨r', found⟩, hrest, hr⟩ := bind_eq_ok.mp h
          obtain rfl : found = true := (pair_of_ok hr).2
          exact hlater hrest
    · obtain ⟨⟨r', found⟩, hrest, hr⟩ := bind_eq_ok.mp h
      obtain rfl : found = true := (pair_of_ok hr).2
      exact hlater hrest

/-! ## `RemoveSong` of a song that has a record -/

/-- What it leaves. -/
structure TakenOut (c c' : MusicCatalog) (m : MetaData) (url : Text) : Prop where
  database : c'.database = c.database.remove url
  shelves : Shelves c'.artistList
  killGUIDs : c'.killGUIDs = c.killGUIDs
  urls : (¬ c.Placed m url ∧ c'.urls = c.urls) ∨
    (c.Placed m url ∧ (url :: c'.urls).Perm c.urls)

theorem removeSong_split {c c' : MusicCatalog} {url : Text} {err : Error}
    (hshelves : Shelves c.artistList) (hworking : c.database.working = true)
    (hok : c.removeSong url = .ok (err, c')) :
    (readMetaDataFromDatabase c.database url = .ok none ∧ err = .itemNotFound ∧ c' = c) ∨
      ∃ m, c.Reads url m ∧ err = .noErr ∧ TakenOut c c' m url := by
  unfold removeSong at hok
  rw [hworking] at hok
  simp only [Bool.not_true, Bool.false_eq_true, if_false] at hok
  obtain ⟨metadata, hread, hok⟩ := bind_eq_ok.mp hok
  cases metadata with
  | none =>
    obtain ⟨rfl, rfl⟩ := pair_of_ok hok
    exact .inl ⟨hread, rfl, rfl⟩
  | some m =>
    refine .inr ⟨m, hread, ?_⟩
    dsimp only at hok
    split at hok
    · rename_i hblank
      split at hok
      · rename_i hmem
        obtain ⟨rfl, rfl⟩ := pair_of_ok hok
        refine ⟨rfl, rfl, hshelves, rfl, .inr ⟨.inl ⟨hblank, hmem⟩, ?_⟩⟩
        exact (List.perm_cons_erase hmem).symm.append_right _
      · rename_i hmem
        obtain ⟨rfl, rfl⟩ := pair_of_ok hok
        refine ⟨rfl, rfl, hshelves, rfl, .inl ⟨?_, rfl⟩⟩
        rintro (⟨_, hin⟩ | ⟨hartist, _⟩)
        · exact hmem hin
        · rw [hblank] at hartist
          exact absurd hartist nofun
    · rename_i hblank
      have hartist : blank m.artist = false := Bool.eq_false_iff.mpr hblank
      obtain ⟨r, hremove, hok⟩ := bind_eq_ok.mp hok
      obtain ⟨rfl, rfl⟩ := pair_of_ok hok
      rcases removeFromArtists_spec m.artist m.album url hshelves with
        ⟨hnone, hnot⟩ | ⟨artists', hsome, hremoved⟩
      · obtain rfl := Except.ok.inj (hremove.symm.trans hnone)
        refine ⟨rfl, rfl, hshelves, rfl, .inl ⟨?_, rfl⟩⟩
        rintro (⟨hin, _⟩ | ⟨_, hfiled⟩)
        · exact hblank hin
        · exact hnot hfiled
      · have hfiled := removeFromArtists_found hsome
        obtain rfl := Except.ok.inj (hremove.symm.trans hsome)
        refine ⟨rfl, rfl, hremoved.shelves, rfl, .inr ⟨.inr ⟨hartist, hfiled⟩, ?_⟩⟩
        exact List.perm_middle.symm.trans (hremoved.perm.append_left _)

/-! ## `AddSong` of a song that has a record -/

/-- What it leaves. -/
structure PutIn (c c' : MusicCatalog) (m : MetaData) (url : Text) (err : Error) : Prop where
  shelves : Shelves c'.artistList
  killGUIDs : c'.killGUIDs = c.killGUIDs
  stores : Stores c.database c'.database url (recorded m)
  reads : m.guid.length < 10 ^ 9 → c'.Reads url (recorded m)
  urls : (err = .duplicateItem ∧ c.Placed (recorded m) url ∧ c'.urls = c.urls) ∨
    (err = .noErr ∧ ¬ c.Placed (recorded m) url ∧ c'.Placed (recorded m) url ∧
      c'.urls.Perm (url :: c.urls))

theorem addToAlbums_there {album url : Text} {albums : List AlbumList}
    (h : (addToAlbums album url albums).2 ≠ .duplicate) :
    ∃ b ∈ (addToAlbums album url albums).1, caseCompare album b.name = true ∧
      url ∈ b.trackList := by
  induction albums with
  | nil =>
    exact ⟨⟨album, [url]⟩, List.mem_cons_self, caseCompare_refl album, List.mem_cons_self⟩
  | cons a albums ih =>
    rw [addToAlbums] at h ⊢
    split
    · rename_i hname
      rw [if_pos hname] at h
      split
      · rename_i hurl
        rw [if_pos hurl] at h
        exact absurd rfl h
      · exact ⟨_, List.mem_cons_self, hname, List.mem_append_right _ List.mem_cons_self⟩
    · rename_i hname
      rw [if_neg hname] at h
      obtain ⟨b, hb, hthere⟩ := ih h
      exact ⟨b, List.mem_cons_of_mem a hb, hthere⟩

theorem addToArtists_there {artist album url : Text} {artists : List ArtistList}
    (h : (addToArtists artist album url false artists).2.2 = false) :
    Filed (addToArtists artist album url false artists).1 artist album url := by
  have hhead : ∀ {name : Text} {albums : List AlbumList} {rest : List ArtistList},
      caseCompare artist name = true →
        (∃ b ∈ albums, caseCompare album b.name = true ∧ url ∈ b.trackList) →
          Filed (⟨name, albums⟩ :: rest) artist album url := by
    rintro name albums rest hname ⟨b, hb, halbum, hurl⟩
    exact ⟨name, b.name, hname, halbum, ⟨name, albums⟩, List.mem_cons_self, rfl, b, hb, rfl, hurl⟩
  induction artists with
  | nil =>
    exact hhead (caseCompare_refl artist)
      ⟨⟨album, [url]⟩, List.mem_cons_self, caseCompare_refl album, List.mem_cons_self⟩
  | cons a artists ih =>
    rw [addToArtists] at h ⊢
    split
    · rename_i hname
      rw [if_pos hname] at h
      split
      · rename_i heq
        rw [heq] at h
        cases h
      · rename_i albums heq
        have hthere := @addToAlbums_there album url a.albumList (by
          rw [heq]
          intro hlost
          cases hlost)
        rw [heq] at hthere
        exact hhead hname hthere
      · rename_i albums heq
        have hthere := @addToAlbums_there album url a.albumList (by
          rw [heq]
          intro hlost
          cases hlost)
        rw [heq] at hthere
        exact hhead hname hthere
    · rename_i hname
      rw [if_neg hname] at h
      obtain ⟨name, albumName, hcase, halbum, b, hb, hsits⟩ := ih h
      exact ⟨name, albumName, hcase, halbum, b, List.mem_cons_of_mem a hb, hsits⟩

theorem insertSong_split {c c' : MusicCatalog} {url : Text} {m : MetaData} {err : Error}
    (hshelves : Shelves c.artistList) (hm : c.Reads url m)
    (hok : c.insertSong url m = .ok (err, c')) : PutIn c c' m url err := by
  unfold insertSong at hok
  split at hok
  · rename_i hblank
    have hrec := recorded_of_blank hblank
    split at hok
    · rename_i hmem
      obtain ⟨rfl, rfl⟩ := pair_of_ok hok
      refine ⟨hshelves, rfl, ?_, ?_, .inl ⟨rfl, ?_, rfl⟩⟩
      · rw [hrec]
        exact Stores.refl hm
      · rw [hrec]
        exact fun _ => hm
      · rw [hrec]
        exact .inl ⟨hblank, hmem⟩
    · rename_i hmem
      obtain ⟨rfl, rfl⟩ := pair_of_ok hok
      refine ⟨hshelves, rfl, ?_, ?_, .inr ⟨rfl, ?_, ?_, ?_⟩⟩
      · rw [hrec]
        exact Stores.refl hm
      · rw [hrec]
        exact fun _ => hm
      · rw [hrec]
        rintro (⟨_, hin⟩ | ⟨hartist, _⟩)
        · exact hmem hin
        · rw [hblank] at hartist
          exact absurd hartist nofun
      · rw [hrec]
        exact .inl ⟨hblank, List.mem_append_right _ (List.mem_singleton_self url)⟩
      · show (c.unsorted ++ [url] ++ sortedTracks c.artistList).Perm (url :: c.urls)
        rw [List.append_assoc]
        exact List.perm_middle
  · rename_i hblank
    have hartist : blank m.artist = false := Bool.eq_false_iff.mpr hblank
    have hrec := recorded_of_not_blank hartist
    obtain ⟨db, hdb, hok⟩ := bind_eq_ok.mp hok
    have hstores := named_stores hm hdb
    have hreads : m.guid.length < 10 ^ 9 → readMetaDataFromDatabase db url =
        .ok (some (recorded m)) := by
      intro hguid
      rw [hrec]
      split at hdb
      · have hnul := nulFree_nameUnknown (nulFree_readMetaDataFromDatabase hm)
        have hlength : (nameUnknown m).guid.length < 10 ^ 9 := hguid
        rw [readMetaDataFromDatabase_write (working_of_read hm) hnul hdb, if_pos hlength]
      · rename_i hnamed
        rw [nameUnknown_of_named (Bool.eq_false_iff.mpr hnamed), ← Except.ok.inj hdb]
        exact hm
    rcases addToArtists_spec (nameUnknown m).artist (nameUnknown m).album url hshelves with
      ⟨hadd, hfiled⟩ | ⟨artists', hadd, hnot, hadded⟩
    · rw [hadd] at hok
      obtain ⟨rfl, rfl⟩ := pair_of_ok hok
      refine ⟨hshelves, rfl, ?_, hreads, .inl ⟨rfl, ?_, rfl⟩⟩
      · rw [hrec]
        exact hstores
      · rw [hrec]
        exact .inr ⟨hartist, hfiled⟩
    · have hthere : Filed artists' (nameUnknown m).artist (nameUnknown m).album url := by
        have hlast := @addToArtists_there (nameUnknown m).artist (nameUnknown m).album url
          c.artistList (by rw [hadd])
        rw [hadd] at hlast
        exact hlast
      rw [hadd] at hok
      obtain ⟨rfl, rfl⟩ := pair_of_ok hok
      refine ⟨hadded.shelves, rfl, ?_, hreads, .inr ⟨rfl, ?_, ?_, ?_⟩⟩
      · rw [hrec]
        exact hstores
      · rw [hrec]
        rintro (⟨hin, _⟩ | ⟨_, hfiled⟩)
        · exact hblank hin
        · exact hnot hfiled
      · rw [hrec]
        exact .inr ⟨hartist, hthere⟩
      · exact (hadded.perm.append_left _).trans List.perm_middle

/-- `AddSong`: the song is placed by its record, or there is no record to be had. -/
theorem addSong_split {c c' : MusicCatalog} {url : Text} {found : MetaData} {err : Error}
    (hshelves : Shelves c.artistList) (hworking : c.database.working = true)
    (hok : c.addSong url found = .ok (err, c')) :
    (c'.artistList = c.artistList ∧ c'.unsorted = c.unsorted ∧ c'.killGUIDs = c.killGUIDs ∧
        c'.database.working = true ∧ ∀ m, ¬ c.Reads url m) ∨
      ∃ db m, PutIn { c with database := db } c' m url err ∧ db.working = true ∧
        ∀ m', c.Reads url m' → m.artist = m'.artist ∧ m.album = m'.album ∧
          (c.killGUIDs = false → m = m' ∧ db = c.database) := by
  unfold addSong at hok
  rw [hworking] at hok
  simp only [Bool.not_true, Bool.false_eq_true, if_false] at hok
  obtain ⟨r, hfetch, hok⟩ := bind_eq_ok.mp hok
  obtain ⟨hworking', -, hread, hkept⟩ := fetchSong_spec hworking hfetch
  have hold : ∀ m', c.Reads url m' → r.1 = c.database ∧ r.2 = some m' := by
    intro m' hm'
    rcases hkept with hkept | hnone
    · rw [hkept] at hread
      exact ⟨hkept, Except.ok.inj (hread.symm.trans hm')⟩
    · exact absurd (hnone.symm.trans hm') nofun
  cases hr : r.2 with
  | none =>
    rw [hr] at hok
    obtain ⟨-, rfl⟩ := pair_of_ok hok
    refine .inl ⟨rfl, rfl, rfl, hworking', fun m' hm' => ?_⟩
    exact absurd (hr.symm.trans (hold m' hm').2) nofun
  | some m =>
    rw [hr] at hok hread
    dsimp only at hok
    obtain ⟨s, hdrop, hok⟩ := bind_eq_ok.mp hok
    obtain ⟨hstores, hreads, hartist, halbum⟩ := dropGUID_spec hread hdrop
    have hput : PutIn { c with database := s.1 } c' s.2 url err :=
      insertSong_split hshelves hreads hok
    refine .inr ⟨s.1, s.2, hput, hstores.working.trans hworking', ?_⟩
    intro m' hm'
    obtain ⟨hdb, hsame⟩ := hold m' hm'
    obtain rfl : m = m' := Option.some.inj (hr.symm.trans hsame)
    refine ⟨hartist, halbum, fun hkill => ?_⟩
    unfold dropGUID at hdrop
    rw [hkill, if_neg Bool.false_ne_true] at hdrop
    obtain rfl := Except.ok.inj hdrop
    exact ⟨rfl, hdb⟩

/-! ## `UpdateSong` -/

/-- What `UpdateSong` of a song that has a record does: the song is taken out, the new metadata is
written and reads as `m'`, and the song is put in by `m''`, the same but for the GUID. -/
structure Updated (c c' : MusicCatalog) (metadata : MetaData) (url : Text) (err : Error)
    (m : MetaData) (d : MusicCatalog) (db db' : Database) (m' m'' : MetaData) : Prop where
  old : c.Reads url m
  out : TakenOut c d m url
  write : writeMetaDataToDatabase d.database url metadata .track = .ok db
  read : readMetaDataFromDatabase db url = .ok (some m')
  put : PutIn { d with database := db' } c' m'' url err
  same : m''.artist = m'.artist ∧ m''.album = m'.album
  guid : c.killGUIDs = false → m'' = m' ∧ db' = db

theorem updateSong_split {c c' : MusicCatalog} {item : PlaylistItem} {found : MetaData}
    {err : Error} (hshelves : Shelves c.artistList) (hworking : c.database.working = true)
    (hok : c.updateSong item found = .ok (err, c')) :
    (readMetaDataFromDatabase c.database (cStr item.url) = .ok none ∧ err = .itemNotFound ∧
        c' = c) ∨
      ∃ m d db db' m' m'', Updated c c' item.metadata (cStr item.url) err m d db db' m' m'' := by
  unfold updateSong at hok
  rw [hworking] at hok
  simp only [Bool.not_true, Bool.false_eq_true, if_false] at hok
  obtain ⟨⟨err', d⟩, hremove, hok⟩ := bind_eq_ok.mp hok
  rcases removeSong_split hshelves hworking hremove with ⟨hnone, herr, hd⟩ | ⟨m, hm, rfl, hout⟩
  · have herror : isError err' = true := by
      rw [herr]
      rfl
    rw [if_pos herror] at hok
    obtain ⟨hsame, hc⟩ := pair_of_ok hok
    exact .inl ⟨hnone, hsame.symm.trans herr, hc.symm.trans hd⟩
  · have hnoErr : ¬ isError Error.noErr = true := by decide
    rw [if_neg hnoErr] at hok
    obtain ⟨db, hwrite, hok⟩ := bind_eq_ok.mp hok
    have hd : d.database.working = true := by
      rw [hout.database]
      exact hworking
    obtain ⟨ost, -, hdb⟩ := writeMetaDataToDatabase_ok hd hwrite
    have hdbworking : db.working = true := by
      rw [hdb]
      exact hd
    -- the record has just been written
    have hread : ∃ m', readMetaDataFromDatabase db (cStr item.url) = .ok (some m') := by
      have hok' := hok
      unfold addSong at hok'
      rw [hdbworking] at hok'
      simp only [Bool.not_true, Bool.false_eq_true, if_false] at hok'
      obtain ⟨r, hfetch, -⟩ := bind_eq_ok.mp hok'
      have hvalue : db.value (cStr item.url) = some (cStr ost) := by
        rw [hdb]
        exact Database.value_insert_self _ _ _
      obtain ⟨m', -, hread⟩ := fetchSong_of_value hdbworking hvalue hfetch
      exact ⟨m', hread⟩
    obtain ⟨m', hread⟩ := hread
    rcases addSong_split (c := { d with database := db }) hout.shelves hdbworking hok with
      ⟨-, -, -, -, hno⟩ | ⟨db', m'', hput, -, hsame⟩
    · exact absurd hread (hno m')
    · obtain ⟨hartist, halbum, hguid⟩ := hsame m' hread
      exact .inr ⟨m, d, db, db', m', m'', hm, hout, hwrite, hread, hput, ⟨hartist, halbum⟩,
        fun hkill => hguid (hout.killGUIDs.trans hkill)⟩

/-- The catalog after `UpdateSong` of a song that was in it once. -/
theorem Updated.once {c c' d : MusicCatalog} {metadata m m' m'' : MetaData} {url : Text}
    {err : Error} {db db' : Database} (h : Updated c c' metadata url err m d db db' m' m'')
    (hplaced : c.Placed m url) (hcount : c.urls.count url = 1) :
    err = .noErr ∧ c'.urls.count url = 1 ∧ c'.Placed (recorded m'') url := by
  have hgone : d.urls.count url = 0 := by
    rcases h.out.urls with ⟨hnot, _⟩ | ⟨_, hperm⟩
    · exact absurd hplaced hnot
    · have hcounts := hperm.count_eq url
      rw [List.count_cons_self, hcount] at hcounts
      omega
  rcases h.put.urls with ⟨_, hthere, _⟩ | ⟨herr, _, hthere, hperm⟩
  · exact absurd hthere.mem_urls (List.count_eq_zero.mp hgone)
  · refine ⟨herr, ?_, hthere⟩
    rw [hperm.count_eq url, List.count_cons_self]
    have hsame : ({ d with database := db' } : MusicCatalog).urls = d.urls := rfl
    rw [hsame, hgone]

/-! ## The lookups -/

/-- The loops of `GetPlaylistItemFromURL`. -/
def finds (c : MusicCatalog) (m : MetaData) (url : Text) : Bool :=
  if blank m.artist then c.unsorted.contains url
  else
    c.artistList.any fun a => caseCompare m.artist a.name &&
      a.albumList.any fun b => caseCompare m.album b.name && b.trackList.contains url

/-- `GetPlaylistItemFromURL`: whether it returns an item. -/
def getPlaylistItemFromURL (c : MusicCatalog) (url : Text) : Except RecordFault Bool :=
  if !c.database.working then .ok false
  else do
    let metadata ← readMetaDataFromDatabase c.database url
    match metadata with
    | none => .ok false
    | some m => .ok (c.finds m url)

/-- How a lookup ends. -/
inductive LookupEnd where
  /-- `DoMBLookup`, with what `APSFillMetaData` has found -/
  | lookup (guid : Text) (returned : Option MetaData)
  /-- `INFO_AudioSignatureFailed` -/
  | signatureFailed

/-- The metadata that is put into the record: `GetMetaData` sets everything but the size. -/
def LookupEnd.data (old : MetaData) : LookupEnd → MetaData
  | .lookup guid none => { old with guid := guid }
  | .lookup _ (some returned) => { returned with size := old.size }
  | .signatureFailed => { old with guid := bytes "BAD_MP3         " }

/-- There is no GUID, and nothing is done. -/
def LookupEnd.idle : LookupEnd → Bool
  | .lookup guid _ => guid.length == 0
  | .signatureFailed => false

/-- `DoMBLookup`, and `INFO_AudioSignatureFailed` of `AcceptEvent`; the first line is the test
of the one, which the other does not make. -/
def endLookup (c : MusicCatalog) (url : Text) (e : LookupEnd) (found : MetaData) :
    Except RecordFault MusicCatalog :=
  if e.idle then .ok c
  else do
    let url := cStr url
    let metadata ← readMetaDataFromDatabase c.database url
    let data := e.data (metadata.getD .new)
    let db ← writeMetaDataToDatabase c.database url data .track
    let c := { c with database := db }
    let plitem ← c.getPlaylistItemFromURL url
    if plitem then do
      let r ← c.updateSong (.create url data) found
      .ok r.2
    else .ok c

/-- Two records lead to the same place. -/
def SamePlace (m m' : MetaData) : Prop :=
  (blank m.artist = true ∧ blank m'.artist = true) ∨
    (blank m.artist = false ∧ blank m'.artist = false ∧ caseCompare m'.artist m.artist = true ∧
      caseCompare m'.album m.album = true)

/-- What is written for the song, as it is read, leads to where the song is. -/
def StaysPut (c : MusicCatalog) (url : Text) (m data : MetaData) : Prop :=
  ∃ db m', writeMetaDataToDatabase c.database url data .track = .ok db ∧
    readMetaDataFromDatabase db url = .ok (some m') ∧ SamePlace m m'

/-- The song is in the catalog once, and where its record says. -/
structure OnceAsRecorded (c : MusicCatalog) (url : Text) : Prop where
  once : c.urls.count url = 1
  placed : ∀ m, c.Reads url m → c.Placed m url

section Places

variable {c : MusicCatalog} {m m' : MetaData} {url : Text}

theorem finds_iff : c.finds m url = true ↔ c.Placed m url := by
  unfold finds Placed
  cases hblank : blank m.artist with
  | true => simp
  | false =>
    simp only [Bool.false_eq_true, if_false, List.any_eq_true, Bool.and_eq_true,
      List.contains_iff_mem, false_and, true_and, false_or]
    constructor
    · rintro ⟨a, ha, hname, b, hb, halbum, hurl⟩
      exact ⟨a.name, b.name, hname, halbum, a, ha, rfl, b, hb, rfl, hurl⟩
    · rintro ⟨name, albumName, hname, halbum, a, ha, rfl, b, hb, rfl, hurl⟩
      exact ⟨a, ha, hname, b, hb, halbum, hurl⟩

theorem WellPlaced.shelves (h : c.WellPlaced) : Shelves c.artistList where
  names := named_iff.mpr h.artistNames
  albums := fun a ha => ⟨named_iff.mpr (h.albumNames a ha), h.tracks a ha⟩
  nonempty := h.albums

theorem WellPlaced.placed (h : c.WellPlaced) (hurl : url ∈ c.urls) (hm : c.Reads url m) :
    c.Placed m url := by
  have hunsorted := h.unsorted url hurl m hm
  cases hblank : blank m.artist with
  | true => exact .inl ⟨hblank, hunsorted.mpr hblank⟩
  | false =>
    refine .inr ⟨hblank, ?_⟩
    rcases List.mem_append.mp hurl with hin | hsorted
    · exact absurd ((hunsorted.mp hin).symm.trans hblank) nofun
    · obtain ⟨artist, album, a, ha, rfl, b, hb, rfl, hin⟩ := mem_sortedTracks.mp hsorted
      obtain ⟨hname, halbum⟩ := h.sorted a ha b hb url hin m hm
      exact ⟨a.name, b.name, hname, halbum, a, ha, rfl, b, hb, rfl, hin⟩

theorem caseCompare_trans {s t u : Text} (h : caseCompare s t = true) (h' : caseCompare t u = true) :
    caseCompare s u = true := (caseCompare_congr h).trans h'

theorem caseCompare_symm {s t : Text} (h : caseCompare s t = true) : caseCompare t s = true :=
  caseCompare_iff.mpr (caseCompare_iff.mp h).symm

/-- Of parts that make up a list without repetitions only one has a given element. -/
theorem eq_of_mem_flatMap {α : Type} {f : α → List Text} {l : List α} (h : (l.flatMap f).Nodup)
    {a b : α} (ha : a ∈ l) (hb : b ∈ l) (hua : url ∈ f a) (hub : url ∈ f b) : a = b := by
  by_contra hab
  have hpairwise := (List.nodup_flatMap.mp h).2
  have hsymm : Std.Symm (Function.onFun List.Disjoint f) := ⟨fun _ _ hd => hd.symm⟩
  exact hpairwise.forall ha hb hab hua hub

/-- A track that is in the tree once sits under one artist and one album. -/
theorem sits_unique {artists : List ArtistList} (h : (sortedTracks artists).Nodup)
    {name name' album album' : Text} (hs : Sits artists name album url)
    (hs' : Sits artists name' album' url) : name = name' ∧ album = album' := by
  obtain ⟨a, ha, rfl, b, hb, rfl, hurl⟩ := hs
  obtain ⟨a', ha', rfl, b', hb', rfl, hurl'⟩ := hs'
  have hon : url ∈ albumTracks a.albumList := List.mem_flatMap.mpr ⟨b, hb, hurl⟩
  have hon' : url ∈ albumTracks a'.albumList := List.mem_flatMap.mpr ⟨b', hb', hurl'⟩
  obtain rfl : a = a' := eq_of_mem_flatMap h ha ha' hon hon'
  have halbums : (albumTracks a.albumList).Nodup := (List.nodup_flatMap.mp h).1 a ha
  obtain rfl : b = b' := eq_of_mem_flatMap halbums hb hb' hurl hurl'
  exact ⟨rfl, rfl⟩

theorem placed_iff_samePlace (hnodup : c.urls.Nodup) (hm : c.Placed m url) :
    c.Placed m' url ↔ SamePlace m m' := by
  obtain ⟨_, hsorted, hdisjoint⟩ := List.nodup_append.mp hnodup
  have hapart : ∀ {artist album : Text}, url ∈ c.unsorted →
      ¬ Filed c.artistList artist album url := by
    rintro artist album hin ⟨name, albumName, _, _, hsits⟩
    exact hdisjoint url hin url (mem_sortedTracks.mpr ⟨name, albumName, hsits⟩) rfl
  rcases hm with ⟨hblank, hin⟩ | ⟨hartist, hfiled⟩
  · constructor
    · rintro (⟨hblank', _⟩ | ⟨_, hfiled'⟩)
      · exact .inl ⟨hblank, hblank'⟩
      · exact absurd hfiled' (hapart hin)
    · rintro (⟨_, hblank'⟩ | ⟨hartist, _⟩)
      · exact .inl ⟨hblank', hin⟩
      · exact absurd (hblank.symm.trans hartist) nofun
  · constructor
    · rintro (⟨_, hin'⟩ | ⟨hartist', hfiled'⟩)
      · exact absurd hfiled (hapart hin')
      · obtain ⟨name, albumName, hname, halbum, hsits⟩ := hfiled
        obtain ⟨name', albumName', hname', halbum', hsits'⟩ := hfiled'
        obtain ⟨rfl, rfl⟩ := sits_unique hsorted hsits hsits'
        exact .inr ⟨hartist, hartist', caseCompare_trans hname' (caseCompare_symm hname),
          caseCompare_trans halbum' (caseCompare_symm halbum)⟩
    · rintro (⟨hblank, _⟩ | ⟨_, hartist', hname', halbum'⟩)
      · exact absurd (hblank.symm.trans hartist) nofun
      · obtain ⟨name, albumName, hname, halbum, hsits⟩ := hfiled
        exact .inr ⟨hartist', name, albumName, caseCompare_trans hname' hname,
          caseCompare_trans halbum' halbum, hsits⟩

theorem WellPlaced.onceAsRecorded (h : c.WellPlaced) (hurl : url ∈ c.urls) :
    c.OnceAsRecorded url :=
  ⟨List.count_eq_one_of_mem h.urls hurl, fun _ hm => h.placed hurl hm⟩

end Places

theorem Updated.onceAsRecorded {c c' d : MusicCatalog} {metadata m m' m'' : MetaData} {url : Text}
    {err : Error} {db db' : Database} (h : Updated c c' metadata url err m d db db' m' m'')
    (hplaced : c.Placed m url) (hcount : c.urls.count url = 1) : c'.OnceAsRecorded url := by
  obtain ⟨_, hcount', hthere⟩ := h.once hplaced hcount
  refine ⟨hcount', fun m₀ hm₀ => ?_⟩
  rw [h.put.stores.read_own hm₀]
  exact hthere

/-- After a lookup a song of a catalog that is in order is in it once, where its record says, exactly
when nothing was done or what was written leads to where the song was. -/
theorem endLookup_onceAsRecorded_iff {c c' : MusicCatalog} {url : Text} {m found : MetaData}
    {e : LookupEnd} (hc : c.WellPlaced) (hurl : cStr url ∈ c.urls) (hm : c.Reads (cStr url) m)
    (hok : c.endLookup url e found = .ok c') :
    c'.OnceAsRecorded (cStr url) ↔ e.idle = true ∨ c.StaysPut (cStr url) m (e.data m) := by
  have hplaced := hc.placed hurl hm
  have hworking := working_of_read hm
  unfold endLookup at hok
  by_cases hidle : e.idle = true
  · rw [if_pos hidle] at hok
    obtain rfl := Except.ok.inj hok
    exact ⟨fun _ => .inl hidle, fun _ => hc.onceAsRecorded hurl⟩
  · rw [if_neg hidle] at hok
    dsimp only at hok
    rw [hm, ok_bind] at hok
    obtain ⟨db, hwrite, hok⟩ := bind_eq_ok.mp hok
    obtain ⟨there, hthere, hok⟩ := bind_eq_ok.mp hok
    obtain ⟨ost, hrecord, hdb⟩ := writeMetaDataToDatabase_ok hworking hwrite
    have hdbworking : db.working = true := by
      rw [hdb]
      exact hworking
    -- what was written is read, and tells where to look
    unfold getPlaylistItemFromURL at hthere
    rw [hdbworking] at hthere
    simp only [Bool.not_true, Bool.false_eq_true, if_false] at hthere
    obtain ⟨metadata, hread, hthere⟩ := bind_eq_ok.mp hthere
    have hsome : ∃ m', metadata = some m' := by
      cases metadata with
      | some m' => exact ⟨m', rfl⟩
      | none =>
        have hvalue : db.value (cStr url) = some (cStr ost) := by
          rw [hdb]
          exact Database.value_insert_self _ _ _
        exact absurd hread (readMetaDataFromDatabase_ne_none hdbworking hvalue)
    obtain ⟨m', rfl⟩ := hsome
    have hstays : c.StaysPut (cStr url) m (e.data m) ↔ SamePlace m m' := by
      constructor
      · rintro ⟨db₁, m₁, hwrite₁, hread₁, hsame⟩
        obtain rfl : db = db₁ := Except.ok.inj (hwrite.symm.trans hwrite₁)
        obtain rfl : m' = m₁ := Option.some.inj (Except.ok.inj (hread.symm.trans hread₁))
        exact hsame
      · exact fun hsame => ⟨db, m', hwrite, hread, hsame⟩
    rw [eq_false_of_ne_true hidle, hstays, ← placed_iff_samePlace hc.urls hplaced]
    simp only [Bool.false_eq_true, false_or]
    have hfinds : there = true ↔ c.Placed m' (cStr url) := by
      rw [← Except.ok.inj hthere]
      exact finds_iff
    cases there with
    | false =>
      obtain rfl := Except.ok.inj hok
      constructor
      · exact fun h => h.placed m' hread
      · exact fun h => absurd (hfinds.mpr h) nofun
    | true =>
      have hplaced' := hfinds.mp rfl
      refine ⟨fun _ => hplaced', fun _ => ?_⟩
      obtain ⟨r, hupdate, hok⟩ := bind_eq_ok.mp hok
      obtain rfl := Except.ok.inj hok
      have hsplit := updateSong_split (c := { c with database := db }) hc.shelves hdbworking hupdate
      have hurl' : ∀ data, cStr (PlaylistItem.create (cStr url) data).url = cStr url :=
        fun _ => (nulFree_cStr url).cStr_eq
      rw [hurl'] at hsplit
      rcases hsplit with ⟨hnone, _⟩ | ⟨m₁, d, db₁, db₂, m₂, m₃, hupdated⟩
      · exact absurd (hread.symm.trans hnone) nofun
      · obtain rfl : m' = m₁ :=
          Option.some.inj (Except.ok.inj (hread.symm.trans hupdated.old))
        have hcount := (hc.onceAsRecorded hurl).once
        exact hupdated.onceAsRecorded hplaced' hcount

/-- The metadata of a song. -/
def oldMetaData : MetaData :=
  { MetaData.new with artist := bytes "A", album := bytes "B", title := bytes "t" }

theorem exists_oldSong : ∃ c, (initial .empty).addSong [117] oldMetaData = .ok (.noErr, c) ∧
    c.Reads [117] oldMetaData ∧ c.WellPlaced ∧ cStr [117] ∈ c.urls := by
  obtain ⟨c, hadd, hm, hurls⟩ : ∃ c, (initial .empty).addSong [117] oldMetaData =
      .ok (.noErr, c) ∧ c.Reads [117] oldMetaData ∧ c.urls = [[117]] := ⟨_, rfl, rfl, rfl⟩
  refine ⟨c, hadd, hm, (addSong_spec (invariant_initial .empty) rfl hadd).invariant.wellPlaced, ?_⟩
  rw [hurls]
  exact List.mem_singleton_self _

/-- A lookup finds another title, and the song stays where it is. -/
theorem endLookup_onceAsRecorded_title :
    ∃ c c' : MusicCatalog, c.WellPlaced ∧
      c.endLookup [117] (.lookup (bytes "g") (some { oldMetaData with title := bytes "T" })) .new =
        .ok c' ∧ c'.OnceAsRecorded [117] := by
  obtain ⟨c, hadd, hm, hc, hurl⟩ := exists_oldSong
  have hend : ∃ c', c.endLookup [117]
      (.lookup (bytes "g") (some { oldMetaData with title := bytes "T" })) .new = .ok c' := by
    obtain rfl := (pair_of_ok hadd).2
    exact ⟨_, rfl⟩
  obtain ⟨c', hend⟩ := hend
  refine ⟨c, c', hc, hend, (endLookup_onceAsRecorded_iff hc hurl hm hend).mpr (.inr ?_)⟩
  obtain rfl := (pair_of_ok hadd).2
  exact ⟨_, _, rfl, rfl, .inr (by decide)⟩

/-- It finds another artist, and the song is still under the old one. -/
theorem endLookup_onceAsRecorded_fails :
    ¬ ∀ (c c' : MusicCatalog) (url : Text) (e : LookupEnd) (found : MetaData), c.WellPlaced →
      cStr url ∈ c.urls → (∃ m, c.Reads (cStr url) m) → c.endLookup url e found = .ok c' →
        c'.OnceAsRecorded (cStr url) := by
  intro h
  obtain ⟨c, hadd, hm, hc, hurl⟩ := exists_oldSong
  have hend : ∃ c' m', c.endLookup [117]
      (.lookup (bytes "g") (some { oldMetaData with artist := bytes "C" })) .new = .ok c' ∧
        c'.Reads [117] m' ∧ c'.finds m' [117] = false := by
    obtain rfl := (pair_of_ok hadd).2
    exact ⟨_, _, rfl, rfl, rfl⟩
  obtain ⟨c', m', hend, hm', hfinds⟩ := hend
  have hplaced : c'.Placed m' [117] := (h c c' [117] _ .new hc hurl ⟨_, hm⟩ hend).placed m' hm'
  rw [finds_iff.mpr hplaced] at hfinds
  exact absurd hfinds nofun

end MusicCatalog

end FreeAmp.Base
