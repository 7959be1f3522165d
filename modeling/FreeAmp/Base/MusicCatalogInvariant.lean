/-
  Base/MusicCatalogInvariant.lean --- where the tracks of the catalog are.

  `AddSong` looks for a track where its record says that it is, and finds it only if it
  was put there by the same record.  That it was is the invariant: every track of the
  catalog is once in the tree, in the place that its record names.  A call that writes a
  record writes it for a track that it is about to place (`Stores`), and leaves all other
  records alone.

      catalog_wellPlaced   the invariant, in every state that calls lead to
-/
import FreeAmp.Base.MusicCatalogShelves
import FreeAmp.Lib.Transition

namespace FreeAmp.Base

open FreeAmp.Lib

namespace MusicCatalog

/-! ## The invariant -/

/-- Every track in the catalog. -/
def urls (c : MusicCatalog) : List Text := c.unsorted ++ sortedTracks c.artistList

/-- What the record of a track says. -/
def Reads (c : MusicCatalog) (url : Text) (metadata : MetaData) : Prop :=
  readMetaDataFromDatabase c.database url = .ok (some metadata)

/-- The artists, albums and tracks are where they ought to be. -/
structure WellPlaced (c : MusicCatalog) : Prop where
  artistNames : c.artistList.Pairwise fun a b => caseCompare a.name b.name = false
  albumNames : ∀ a ∈ c.artistList,
    a.albumList.Pairwise fun b b' => caseCompare b.name b'.name = false
  albums : ∀ a ∈ c.artistList, a.albumList ≠ []
  tracks : ∀ a ∈ c.artistList, ∀ b ∈ a.albumList, b.trackList ≠ []
  urls : c.urls.Nodup
  unsorted : ∀ url ∈ c.urls, ∀ m, c.Reads url m → (url ∈ c.unsorted ↔ blank m.artist = true)
  sorted : ∀ a ∈ c.artistList, ∀ b ∈ a.albumList, ∀ url ∈ b.trackList, ∀ m, c.Reads url m →
    caseCompare m.artist a.name = true ∧ caseCompare m.album b.name = true
  /-- The record of every track can be read, but for a GUID that the reader has no room for,
  and but for one that the version of the database has been stored over. -/
  records : ∀ url ∈ c.urls, (∃ m, c.Reads url m) ∨
    readMetaDataFromDatabase c.database url = .error .bufferOverflow ∨
    url = subVersionKey ∧ readMetaDataFromDatabase c.database url = .error .badRecord

/-- What every call keeps. -/
structure Invariant (c : MusicCatalog) : Prop where
  shelves : Shelves c.artistList
  urls : c.urls.Nodup
  unsorted : ∀ url ∈ c.unsorted, ∀ m, c.Reads url m → blank m.artist = true
  /-- `AddSong` gives the album of a track that it sorts a name -/
  sorted : ∀ artist album url, Sits c.artistList artist album url → ∀ m, c.Reads url m →
    blank m.artist = false ∧ blank m.album = false ∧ caseCompare m.artist artist = true ∧
      caseCompare m.album album = true
  records : ∀ url ∈ c.urls, (∃ m, c.Reads url m) ∨
    readMetaDataFromDatabase c.database url = .error .bufferOverflow ∨
    url = subVersionKey ∧ readMetaDataFromDatabase c.database url = .error .badRecord

theorem mem_urls_of_sits {c : MusicCatalog} {artist album url : Text}
    (h : Sits c.artistList artist album url) : url ∈ c.urls :=
  List.mem_append_right _ (mem_sortedTracks.mpr ⟨artist, album, h⟩)

theorem Invariant.wellPlaced {c : MusicCatalog} (h : c.Invariant) : c.WellPlaced where
  artistNames := named_iff.mp h.shelves.names
  albumNames := fun a ha => named_iff.mp (h.shelves.albums a ha).names
  albums := h.shelves.nonempty
  tracks := fun a ha => (h.shelves.albums a ha).tracks
  urls := h.urls
  unsorted := by
    intro url hurl m hm
    constructor
    · exact fun hun => h.unsorted url hun m hm
    · intro hblank
      rcases List.mem_append.mp hurl with hun | hsorted
      · exact hun
      · obtain ⟨artist, album, hsits⟩ := mem_sortedTracks.mp hsorted
        rw [(h.sorted artist album url hsits m hm).1] at hblank
        exact absurd hblank nofun
  sorted := by
    intro a ha b hb url hurl m hm
    exact (h.sorted a.name b.name url ⟨a, ha, rfl, b, hb, rfl, hurl⟩ m hm).2.2
  records := h.records

theorem Invariant.read_ne_none {c : MusicCatalog} (h : c.Invariant) {url : Text}
    (hurl : url ∈ c.urls) : readMetaDataFromDatabase c.database url ≠ .ok none := by
  intro hnone
  rcases h.records url hurl with ⟨m, hm⟩ | hover | ⟨-, hbad⟩
  · rw [Reads, hnone] at hm
    exact absurd hm nofun
  · rw [hnone] at hover
    exact absurd hover nofun
  · rw [hnone] at hbad
    exact absurd hbad nofun

theorem Invariant.where_is {c : MusicCatalog} (h : c.Invariant) {url : Text} {m : MetaData}
    (hurl : url ∈ c.urls) (hm : c.Reads url m) :
    (blank m.artist = true ∧ url ∈ c.unsorted) ∨
      (blank m.artist = false ∧ blank m.album = false ∧
        Filed c.artistList m.artist m.album url) := by
  rcases List.mem_append.mp hurl with hun | hsorted
  · exact .inl ⟨h.unsorted url hun m hm, hun⟩
  · obtain ⟨artist, album, hsits⟩ := mem_sortedTracks.mp hsorted
    obtain ⟨hartist, halbum, hname, halbumName⟩ := h.sorted artist album url hsits m hm
    exact .inr ⟨hartist, halbum, artist, album, hname, halbumName, hsits⟩

/-! ## Writing records -/

/-- The second database has the record of one track replaced by that of `m`, and the others
as they were. -/
structure Stores (db db' : Database) (url : Text) (m : MetaData) : Prop where
  working : db'.working = db.working
  others : ∀ key, key ≠ url → db'.value key = db.value key
  own : readMetaDataFromDatabase db' url = .ok (some m) ∨
    readMetaDataFromDatabase db' url = .error .bufferOverflow

theorem Stores.refl {db : Database} {url : Text} {m : MetaData}
    (h : readMetaDataFromDatabase db url = .ok (some m)) : Stores db db url m :=
  ⟨rfl, fun _ _ => rfl, .inl h⟩

theorem Stores.read_others {db db' : Database} {url : Text} {m : MetaData}
    (h : Stores db db' url m) {key : Text} (hkey : key ≠ url) :
    readMetaDataFromDatabase db' key = readMetaDataFromDatabase db key :=
  readMetaDataFromDatabase_congr h.working (h.others key hkey)

theorem Stores.read_own {db db' : Database} {url : Text} {m m' : MetaData}
    (h : Stores db db' url m) (hm' : readMetaDataFromDatabase db' url = .ok (some m')) :
    m' = m := by
  rcases h.own with hm | hover
  · exact Option.some.inj (Except.ok.inj (hm'.symm.trans hm))
  · rw [hover] at hm'
    exact absurd hm' nofun

theorem stores_write {db db' : Database} {url : Text} {m : MetaData}
    (hworking : db.working = true) (hnul : m.NulFree)
    (h : writeMetaDataToDatabase db url m .track = .ok db') : Stores db db' url m := by
  have hread := readMetaDataFromDatabase_write hworking hnul h
  obtain ⟨ost, -, rfl⟩ := writeMetaDataToDatabase_ok hworking h
  refine ⟨rfl, fun key hkey => db.value_insert_of_ne ost hkey, ?_⟩
  rw [hread]
  split
  · exact .inl rfl
  · exact .inr rfl

theorem read_of_not_working {db : Database} (h : db.working = false) (url : Text) :
    readMetaDataFromDatabase db url = .ok none := by
  unfold readMetaDataFromDatabase
  rw [h]
  rfl

theorem working_of_read {db : Database} {url : Text} {m : MetaData}
    (h : readMetaDataFromDatabase db url = .ok (some m)) : db.working = true := by
  cases hworking : db.working with
  | true => rfl
  | false =>
    rw [read_of_not_working hworking] at h
    exact absurd h nofun

/-! ## The parts of `AddSong` -/

/-- Fetching the metadata of a song touches the record of a song that has none. -/
theorem fetchSong_spec {db : Database} {url : Text} {found : MetaData}
    {r : Database × Option MetaData} (hworking : db.working = true)
    (h : fetchSong db url found = .ok r) :
    r.1.working = true ∧ (∀ key, key ≠ url → r.1.value key = db.value key) ∧
      readMetaDataFromDatabase r.1 url = .ok r.2 ∧
      (r.1 = db ∨ readMetaDataFromDatabase db url = .ok none) := by
  unfold fetchSong at h
  obtain ⟨metadata, hread, h⟩ := bind_eq_ok.mp h
  cases metadata with
  | some m =>
    rw [← Except.ok.inj h]
    exact ⟨hworking, fun _ _ => rfl, hread, .inl rfl⟩
  | none =>
    obtain ⟨db', hwrite, h⟩ := bind_eq_ok.mp h
    obtain ⟨ost, -, rfl⟩ := writeMetaDataToDatabase_ok hworking hwrite
    obtain ⟨metadata, hread', h⟩ := bind_eq_ok.mp h
    rw [← Except.ok.inj h]
    exact ⟨hworking, fun key hkey => db.value_insert_of_ne ost hkey, hread', .inr hread⟩

theorem fetchSong_of_value {db : Database} {url data : Text} {found : MetaData}
    {r : Database × Option MetaData} (hworking : db.working = true)
    (hvalue : db.value url = some data) (h : fetchSong db url found = .ok r) :
    ∃ m, r.2 = some m ∧ readMetaDataFromDatabase db url = .ok (some m) := by
  have hsome := readMetaDataFromDatabase_ne_none hworking hvalue
  obtain ⟨-, -, hread, hkept | hnone⟩ := fetchSong_spec hworking h
  · rw [hkept] at hread
    cases hr : r.2 with
    | none =>
      rw [hr] at hread
      exact absurd hread hsome
    | some m =>
      rw [hr] at hread
      exact ⟨m, rfl, hread⟩
  · exact absurd hnone hsome

/-- Taking the GUID away leaves the artist and the album. -/
theorem dropGUID_spec {killGUIDs : Bool} {db : Database} {url : Text} {m : MetaData}
    {r : Database × MetaData} (hread : readMetaDataFromDatabase db url = .ok (some m))
    (h : dropGUID killGUIDs db url m = .ok r) :
    Stores db r.1 url r.2 ∧ readMetaDataFromDatabase r.1 url = .ok (some r.2) ∧
      r.2.artist = m.artist ∧ r.2.album = m.album := by
  unfold dropGUID at h
  split at h
  · simp only at h
    have hnul : ({ m with guid := [] } : MetaData).NulFree := by
      have hm := nulFree_readMetaDataFromDatabase hread
      simp only [MetaData.NulFree, List.forall_mem_cons] at hm ⊢
      exact ⟨hm.1, hm.2.1, hm.2.2.1, hm.2.2.2.1, hm.2.2.2.2.1, nulFree_nil, hm.2.2.2.2.2.2⟩
    have hworking := working_of_read hread
    obtain ⟨db', hwrite, h⟩ := bind_eq_ok.mp h
    rw [← Except.ok.inj h]
    have hown := readMetaDataFromDatabase_write hworking hnul hwrite
    have hshort : ({ m with guid := [] } : MetaData).guid.length < 10 ^ 9 :=
      Nat.pow_pos (by decide)
    rw [if_pos hshort] at hown
    exact ⟨stores_write hworking hnul hwrite, hown, rfl, rfl⟩
  · rw [← Except.ok.inj h]
    exact ⟨Stores.refl hread, hread, rfl, rfl⟩

/-- The invariant depends on the records of the tracks in the catalog alone. -/
theorem Invariant.frame {c : MusicCatalog} (h : c.Invariant) {db : Database}
    (hread : ∀ url ∈ c.urls,
      readMetaDataFromDatabase db url = readMetaDataFromDatabase c.database url) :
    Invariant { c with database := db } where
  shelves := h.shelves
  urls := h.urls
  unsorted := fun url hurl m hm =>
    h.unsorted url hurl m ((hread url (List.mem_append_left _ hurl)).symm.trans hm)
  sorted := fun artist album url hsits m hm =>
    h.sorted artist album url hsits m ((hread url (mem_urls_of_sits hsits)).symm.trans hm)
  records := by
    intro url hurl
    have hrec := h.records url hurl
    unfold Reads at hrec ⊢
    rw [← hread url hurl] at hrec
    exact hrec

/-- Replacing the record of a track keeps the invariant, when the track is not in the catalog
or its artist and album stay the same. -/
theorem Invariant.restore {c : MusicCatalog} (h : c.Invariant) {db : Database} {url : Text}
    {m : MetaData} (hstores : Stores c.database db url m)
    (hsame : url ∈ c.urls → ∃ m', c.Reads url m' ∧ m'.artist = m.artist ∧ m'.album = m.album) :
    Invariant { c with database := db } := by
  refine ⟨h.shelves, h.urls, ?_, ?_, ?_⟩
  · intro u hu m' hm'
    by_cases heq : u = url
    · subst heq
      obtain ⟨m₀, hm₀, hartist, -⟩ := hsame (List.mem_append_left _ hu)
      rw [hstores.read_own hm', ← hartist]
      exact h.unsorted u hu m₀ hm₀
    · exact h.unsorted u hu m' ((hstores.read_others heq).symm.trans hm')
  · intro artist album u hsits m' hm'
    by_cases heq : u = url
    · subst heq
      obtain ⟨m₀, hm₀, hartist, halbum⟩ := hsame (mem_urls_of_sits hsits)
      rw [hstores.read_own hm', ← hartist, ← halbum]
      exact h.sorted artist album u hsits m₀ hm₀
    · exact h.sorted artist album u hsits m' ((hstores.read_others heq).symm.trans hm')
  · intro u hu
    by_cases heq : u = url
    · subst heq
      rcases hstores.own with hm | hover
      · exact .inl ⟨m, hm⟩
      · exact .inr (.inl hover)
    · have hrec := h.records u hu
      unfold Reads at hrec ⊢
      rw [← hstores.read_others heq] at hrec
      exact hrec

/-! ## `AddSong` -/

/-- The song is counted: it has no artist, or there are an artist and an album for it. -/
def CountedSong (c : MusicCatalog) (m : MetaData) : Prop :=
  blank m.artist = true ∨
    HasAlbum c.artistList (nameUnknown m).artist (nameUnknown m).album

instance (c : MusicCatalog) (m : MetaData) : Decidable (c.CountedSong m) :=
  inferInstanceAs (Decidable (_ ∨ _))

/-- What a call that adds a song does to the tracks and to their count: nothing, or it adds the
song and counts it, or not. -/
def Adds (c c' : MusicCatalog) (url : Text) (counted : Prop) [Decidable counted] : Prop :=
  (c'.urls = c.urls ∧ c'.trackCount = c.trackCount) ∨
    (c'.urls.Perm (url :: c.urls) ∧
      c'.trackCount = c.trackCount + if counted then 1 else 0)

theorem blank_unknown : blank unknown = false := by decide

theorem blank_named_album (m : MetaData) : blank (nameUnknown m).album = false := by
  show blank (if blank m.album then unknown else m.album) = false
  split
  · exact blank_unknown
  · rename_i h
    exact Bool.eq_false_iff.mpr h

theorem nulFree_nameUnknown {m : MetaData} (h : m.NulFree) : (nameUnknown m).NulFree := by
  have hunknown : NulFree unknown := by decide
  simp only [MetaData.NulFree, List.forall_mem_cons] at h ⊢
  obtain ⟨hartist, halbum, htitle, hcomment, hgenre, hguid, hnil⟩ := h
  refine ⟨hartist, ?_, ?_, hcomment, hgenre, hguid, hnil⟩
  · show NulFree (if blank m.album then unknown else m.album)
    split
    · exact hunknown
    · exact halbum
  · show NulFree (if blank m.title then unknown else m.title)
    split
    · exact hunknown
    · exact htitle

theorem nameUnknown_of_named {m : MetaData} (h : unnamed m = false) : nameUnknown m = m := by
  unfold unnamed at h
  rw [Bool.or_eq_false_iff] at h
  unfold nameUnknown
  rw [h.1, h.2]
  rfl

/-- The record of a song that is sorted has the names that are given to it. -/
theorem named_stores {c : MusicCatalog} {url : Text} {m : MetaData} {db : Database}
    (hm : c.Reads url m)
    (h : (if unnamed m then writeMetaDataToDatabase c.database url (nameUnknown m) .track
      else .ok c.database) = .ok db) : Stores c.database db url (nameUnknown m) := by
  split at h
  · exact stores_write (working_of_read hm)
      (nulFree_nameUnknown (nulFree_readMetaDataFromDatabase hm)) h
  · rename_i hnamed
    rw [← Except.ok.inj h, nameUnknown_of_named (Bool.eq_false_iff.mpr hnamed)]
    exact Stores.refl hm

/-- Placing a song keeps the invariant: a song that is in the catalog already is found. -/
theorem insertSong_spec {c c' : MusicCatalog} {url : Text} {m : MetaData} {err : Error}
    (h : c.Invariant) (hm : c.Reads url m) (hok : c.insertSong url m = .ok (err, c')) :
    c'.Invariant ∧ Adds c c' url (c.CountedSong m) ∧
      ∃ m', Stores c.database c'.database url m' ∧ m'.artist = m.artist := by
  unfold insertSong at hok
  split at hok
  · rename_i hblank
    split at hok
    · obtain ⟨-, rfl⟩ := pair_of_ok hok
      exact ⟨h, .inl ⟨rfl, rfl⟩, m, Stores.refl hm, rfl⟩
    · rename_i hnew
      obtain ⟨-, rfl⟩ := pair_of_ok hok
      have hfresh : url ∉ c.urls := by
        intro hurl
        rcases h.where_is hurl hm with ⟨-, hun⟩ | ⟨hartist, -⟩
        · exact hnew hun
        · rw [hblank] at hartist
          exact absurd hartist nofun
      have hperm : (c.unsorted ++ [url] ++ sortedTracks c.artistList).Perm (url :: c.urls) := by
        rw [List.append_assoc]
        exact List.perm_middle
      refine ⟨⟨h.shelves, hperm.nodup_iff.mpr (List.nodup_cons.mpr ⟨hfresh, h.urls⟩), ?_,
        h.sorted, ?_⟩, .inr ⟨hperm, ?_⟩, m, Stores.refl hm, rfl⟩
      · intro u hu m' hm'
        rcases List.mem_append.mp hu with hold | hself
        · exact h.unsorted u hold m' hm'
        · obtain rfl := List.mem_singleton.mp hself
          rw [Option.some.inj (Except.ok.inj (hm'.symm.trans hm))]
          exact hblank
      · intro u hu
        rcases List.mem_cons.mp (hperm.mem_iff.mp hu) with rfl | hold
        · exact .inl ⟨m, hm⟩
        · exact h.records u hold
      · rw [if_pos (.inl hblank)]
  · rename_i hblank
    have hartist : blank m.artist = false := Bool.eq_false_iff.mpr hblank
    simp only at hok
    generalize hdb : (if unnamed m then writeMetaDataToDatabase c.database url (nameUnknown m)
      .track else Except.ok c.database) = r at hok
    cases r with
    | error f => exact absurd hok nofun
    | ok db =>
      rw [ok_bind] at hok
      have hstores := named_stores hm hdb
      -- a song that is in the tree already has an album with a name
      have hsame : url ∈ c.urls → blank m.album = false ∧
          Filed c.artistList m.artist m.album url := by
        intro hurl
        rcases h.where_is hurl hm with ⟨hun, -⟩ | ⟨-, hplace⟩
        · exact absurd hun hblank
        · exact hplace
      have halbum : blank m.album = false → (nameUnknown m).album = m.album := by
        intro hname
        show (if blank m.album then unknown else m.album) = m.album
        rw [hname]
        rfl
      have hinv : Invariant { c with database := db } :=
        h.restore hstores fun hurl => ⟨m, hm, rfl, (halbum (hsame hurl).1).symm⟩
      rcases addToArtists_spec (nameUnknown m).artist (nameUnknown m).album url h.shelves with
        ⟨hadd, -⟩ | ⟨artists', hadd, hnot, hadded⟩
      · rw [hadd] at hok
        obtain ⟨-, rfl⟩ := pair_of_ok hok
        refine ⟨?_, .inl ⟨rfl, Int.add_zero _⟩, _, hstores, rfl⟩
        rw [Int.add_zero]
        exact hinv
      · rw [hadd] at hok
        obtain ⟨-, rfl⟩ := pair_of_ok hok
        have hfresh : url ∉ c.urls := by
          intro hurl
          obtain ⟨hname, hfiled⟩ := hsame hurl
          rw [halbum hname] at hnot
          exact hnot hfiled
        have hperm : (c.unsorted ++ sortedTracks artists').Perm (url :: c.urls) :=
          (hadded.perm.append_left _).trans List.perm_middle
        refine ⟨⟨hadded.shelves,
          hperm.nodup_iff.mpr (List.nodup_cons.mpr ⟨hfresh, h.urls⟩), hinv.unsorted, ?_, ?_⟩,
          .inr ⟨hperm, ?_⟩, _, hstores, rfl⟩
        · intro artist album u hsits m' hm'
          rcases hadded.sits artist album u hsits with ⟨rfl, hname, halbumName⟩ | hold
          · have hm'' : m' = nameUnknown m := by
              rcases hstores.own with hown | hover
              · exact Option.some.inj (Except.ok.inj (hm'.symm.trans hown))
              · rw [Reads, hover] at hm'
                exact absurd hm' nofun
            rw [hm'']
            exact ⟨hartist, blank_named_album m, hname, halbumName⟩
          · exact hinv.sorted artist album u hold m' hm'
        · intro u hu
          rcases List.mem_cons.mp (hperm.mem_iff.mp hu) with rfl | hold
          · rcases hstores.own with hown | hover
            · exact .inl ⟨_, hown⟩
            · exact .inr (.inl hover)
          · exact hinv.records u hold
        · have hiff : c.CountedSong m ↔
              HasAlbum c.artistList (nameUnknown m).artist (nameUnknown m).album := by
            unfold CountedSong
            rw [hartist]
            simp only [Bool.false_eq_true, false_or]
          simp only [hiff]

/-- What `AddSong` does when the database works. -/
structure SongAdded (c c' : MusicCatalog) (url : Text) (found : MetaData) : Prop where
  fetched : ∃ r, fetchSong c.database url found = .ok r
  invariant : c'.Invariant
  working : c'.database.working = c.database.working
  others : ∀ key, key ≠ url → c'.database.value key = c.database.value key
  /-- the artist in the record stays -/
  artist : ∀ m m', c.Reads url m → c'.Reads url m' → m'.artist = m.artist
  adds : (c'.urls = c.urls ∧ c'.trackCount = c.trackCount) ∨
    ∃ r m, fetchSong c.database url found = .ok r ∧ r.2 = some m ∧
      Adds c c' url (c.CountedSong m)

theorem countedSong_congr {c c' : MusicCatalog} {m m' : MetaData}
    (hartists : c'.artistList = c.artistList) (hartist : m'.artist = m.artist)
    (halbum : m'.album = m.album) : c'.CountedSong m' ↔ c.CountedSong m := by
  unfold CountedSong nameUnknown
  rw [hartists, hartist, halbum]

theorem adds_congr {c d c' : MusicCatalog} {url : Text} {p q : Prop} [Decidable p] [Decidable q]
    (h : Adds c c' url p) (hurls : c.urls = d.urls) (hcount : c.trackCount = d.trackCount)
    (hpq : p ↔ q) : Adds d c' url q := by
  unfold Adds at h ⊢
  simp only [← hurls, ← hcount, ← hpq]
  exact h

theorem addSong_spec {c c' : MusicCatalog} {url : Text} {found : MetaData} {err : Error}
    (h : c.Invariant) (hworking : c.database.working = true)
    (hok : c.addSong url found = .ok (err, c')) : SongAdded c c' url found := by
  unfold addSong at hok
  rw [hworking] at hok
  simp only [Bool.not_true, Bool.false_eq_true, if_false] at hok
  obtain ⟨r, hfetch, hok⟩ := bind_eq_ok.mp hok
  obtain ⟨hworking', hothers, hread, hdb⟩ := fetchSong_spec hworking hfetch
  -- only a song that is not in the catalog has no record
  have hinv : Invariant { c with database := r.1 } := by
    refine h.frame fun u hu => ?_
    rcases hdb with hdb | hnone
    · rw [hdb]
    · have hne : u ≠ url := by
        rintro rfl
        exact h.read_ne_none hu hnone
      exact readMetaDataFromDatabase_congr (hworking'.trans hworking.symm) (hothers u hne)
  have hold : ∀ m, c.Reads url m → r.2 = some m := by
    intro m hm
    rcases hdb with hdb | hnone
    · rw [hdb] at hread
      exact Except.ok.inj (hread.symm.trans hm)
    · rw [Reads, hnone] at hm
      exact absurd hm nofun
  cases hr : r.2 with
  | none =>
    rw [hr] at hok
    obtain ⟨-, rfl⟩ := pair_of_ok hok
    refine ⟨⟨r, hfetch⟩, hinv, hworking'.trans hworking.symm, hothers, ?_, .inl ⟨rfl, rfl⟩⟩
    intro m m' hm _
    rw [hold m hm] at hr
    exact absurd hr nofun
  | some m =>
    rw [hr] at hok hread
    simp only at hok
    obtain ⟨s, hdrop, hok⟩ := bind_eq_ok.mp hok
    obtain ⟨hstores, hread', hartist, halbum⟩ := dropGUID_spec hread hdrop
    have hinv' : Invariant { c with database := s.1 } :=
      hinv.restore hstores fun _ => ⟨m, hread, hartist.symm, halbum.symm⟩
    obtain ⟨hfinal, hadds, m', hstores', hartist'⟩ :=
      insertSong_spec hinv' hread' hok
    refine ⟨⟨r, hfetch⟩, hfinal, ?_, ?_, ?_, .inr ⟨r, m, hfetch, hr, ?_⟩⟩
    · exact hstores'.working.trans (hstores.working.trans (hworking'.trans hworking.symm))
    · intro key hkey
      exact (hstores'.others key hkey).trans
        ((hstores.others key hkey).trans (hothers key hkey))
    · intro m₀ m₁ hm₀ hm₁
      rw [hold m₀ hm₀] at hr
      rw [hstores'.read_own hm₁, hartist', hartist, Option.some.inj hr]
    · exact adds_congr hadds rfl rfl (countedSong_congr rfl hartist halbum)

/-! ## `RemoveSong` -/

theorem Invariant.shrink {c c' : MusicCatalog} (h : c.Invariant)
    (hshelves : Shelves c'.artistList) (hunsorted : c'.unsorted ⊆ c.unsorted)
    (hsits : ∀ artist album u, Sits c'.artistList artist album u →
      Sits c.artistList artist album u) (hnodup : c'.urls.Nodup)
    (hread : ∀ u ∈ c'.urls, readMetaDataFromDatabase c'.database u =
      readMetaDataFromDatabase c.database u) : c'.Invariant where
  shelves := hshelves
  urls := hnodup
  unsorted := fun u hu m hm =>
    h.unsorted u (hunsorted hu) m ((hread u (List.mem_append_left _ hu)).symm.trans hm)
  sorted := fun artist album u hu m hm =>
    h.sorted artist album u (hsits artist album u hu) m
      ((hread u (mem_urls_of_sits hu)).symm.trans hm)
  records := by
    intro u hu
    have hmem : u ∈ c.urls := by
      rcases List.mem_append.mp hu with hun | hsorted
      · exact List.mem_append_left _ (hunsorted hun)
      · obtain ⟨artist, album, hsit⟩ := mem_sortedTracks.mp hsorted
        exact mem_urls_of_sits (hsits artist album u hsit)
    have hrec := h.records u hmem
    unfold Reads at hrec ⊢
    rw [← hread u hu] at hrec
    exact hrec

theorem Invariant.remove {c : MusicCatalog} {url : Text} (h : c.Invariant) (c' : MusicCatalog)
    (hdb : c'.database = c.database.remove url) (hshelves : Shelves c'.artistList)
    (hunsorted : c'.unsorted ⊆ c.unsorted)
    (hsits : ∀ artist album u, Sits c'.artistList artist album u →
      Sits c.artistList artist album u) (hperm : (url :: c'.urls).Perm c.urls) :
    c'.Invariant ∧ url ∉ c'.urls ∧ (c.urls.length : Int) = c'.urls.length + 1 := by
  have hnodup := List.nodup_cons.mp (hperm.nodup_iff.mpr h.urls)
  refine ⟨h.shrink hshelves hunsorted hsits hnodup.2 fun u hu => ?_, hnodup.1, ?_⟩
  · have hne : u ≠ url := by
      rintro rfl
      exact hnodup.1 hu
    rw [hdb]
    exact readMetaDataFromDatabase_congr rfl (c.database.value_remove_of_ne hne)
  · have hlen := hperm.length_eq
    rw [List.length_cons] at hlen
    omega

/-- Removing the record of a track that is not in the catalog. -/
theorem Invariant.remove_record {c : MusicCatalog} {url : Text} (h : c.Invariant)
    (hurl : url ∉ c.urls) : Invariant { c with database := c.database.remove url } := by
  refine h.frame fun u hu => ?_
  have hne : u ≠ url := by
    rintro rfl
    exact hurl hu
  exact readMetaDataFromDatabase_congr rfl (c.database.value_remove_of_ne hne)

/-- What `RemoveSong` does when the database works. -/
structure SongRemoved (c c' : MusicCatalog) (url : Text) (err : Error) : Prop where
  invariant : c'.Invariant
  working : c'.database.working = true
  counts : (c'.urls.length : Int) - c.urls.length = c'.trackCount - c.trackCount
  gone : isError err = false → url ∉ c'.urls
  failed : isError err = true → c' = c
  had : isError err = false → readMetaDataFromDatabase c.database url ≠ .ok none
  keeps : ∀ artist album u, u ≠ url → Filed c.artistList artist album u →
    Filed c'.artistList artist album u

theorem removeSong_spec {c c' : MusicCatalog} {url : Text} {err : Error} (h : c.Invariant)
    (hworking : c.database.working = true) (hok : c.removeSong url = .ok (err, c')) :
    SongRemoved c c' url err := by
  unfold removeSong at hok
  rw [hworking] at hok
  simp only [Bool.not_true, Bool.false_eq_true, if_false] at hok
  obtain ⟨metadata, hread, hok⟩ := bind_eq_ok.mp hok
  cases metadata with
  | none =>
    obtain ⟨rfl, rfl⟩ := pair_of_ok hok
    exact ⟨h, hworking, by omega, nofun, fun _ => rfl, nofun, fun _ _ _ _ => id⟩
  | some m =>
    have hm : c.Reads url m := hread
    have hhad : isError .noErr = false →
        readMetaDataFromDatabase c.database url ≠ .ok none := by
      rw [hread]
      exact fun _ => nofun
    simp only at hok
    split at hok
    · rename_i hblank
      split at hok
      · rename_i hun
        obtain ⟨rfl, rfl⟩ := pair_of_ok hok
        obtain ⟨hinv, hgone, hlen⟩ := h.remove { c with
            database := c.database.remove url
            unsorted := c.unsorted.erase url
            trackCount := c.trackCount - 1 } rfl h.shelves List.erase_subset
          (fun _ _ _ => id) ((List.perm_cons_erase hun).symm.append_right _)
        exact ⟨hinv, hworking, by dsimp only; omega, fun _ => hgone, nofun, hhad,
          fun _ _ _ _ => id⟩
      · rename_i hun
        obtain ⟨rfl, rfl⟩ := pair_of_ok hok
        have hurl : url ∉ c.urls := by
          intro hurl
          rcases h.where_is hurl hm with ⟨-, hmem⟩ | ⟨hartist, -⟩
          · exact hun hmem
          · rw [hblank] at hartist
            exact absurd hartist nofun
        exact ⟨h.remove_record hurl, hworking, by dsimp only [MusicCatalog.urls]; omega,
          fun _ => hurl, nofun, hhad, fun _ _ _ _ => id⟩
    · rename_i hblank
      rcases removeFromArtists_spec m.artist m.album url h.shelves with
        ⟨hremove, hnot⟩ | ⟨artists', hremove, hremoved⟩
      · simp only [hremove, ok_bind, Bool.false_eq_true, if_false] at hok
        obtain ⟨rfl, rfl⟩ := pair_of_ok hok
        have hurl : url ∉ c.urls := by
          intro hurl
          rcases h.where_is hurl hm with ⟨hartist, -⟩ | ⟨-, -, hfiled⟩
          · exact hblank hartist
          · exact hnot hfiled
        exact ⟨h.remove_record hurl, hworking, by dsimp only [MusicCatalog.urls]; omega,
          fun _ => hurl, nofun, hhad, fun _ _ _ _ => id⟩
      · simp only [hremove, ok_bind, if_true] at hok
        obtain ⟨rfl, rfl⟩ := pair_of_ok hok
        have hperm : (url :: (c.unsorted ++ sortedTracks artists')).Perm c.urls :=
          List.perm_middle.symm.trans (hremoved.perm.append_left _)
        obtain ⟨hinv, hgone, hlen⟩ := h.remove { c with
            database := c.database.remove url
            artistList := artists'
            trackCount := c.trackCount - 1 } rfl hremoved.shelves (List.Subset.refl _)
          hremoved.sits hperm
        refine ⟨hinv, hworking, by dsimp only; omega, fun _ => hgone, nofun, hhad, ?_⟩
        rintro artist album u hu ⟨name, albumName, hname, halbum, hsits⟩
        exact ⟨name, albumName, hname, halbum, hremoved.keeps name albumName u hu hsits⟩

/-! ## The other calls -/

/-- `UpdateSong` is `RemoveSong`, a record and `AddSong`. -/
theorem updateSong_spec {c c' : MusicCatalog} {item : PlaylistItem} {found : MetaData}
    {err : Error} (h : c.Invariant) (hworking : c.database.working = true)
    (hok : c.updateSong item found = .ok (err, c')) :
    c' = c ∨ ∃ d db, SongRemoved c d (cStr item.url) .noErr ∧
      writeMetaDataToDatabase d.database (cStr item.url) item.metadata .track = .ok db ∧
      SongAdded { d with database := db } c' (cStr item.url) found := by
  unfold updateSong at hok
  rw [hworking] at hok
  simp only [Bool.not_true, Bool.false_eq_true, if_false] at hok
  obtain ⟨r, hremove, hok⟩ := bind_eq_ok.mp hok
  have hremoved := removeSong_spec h hworking hremove
  split at hok
  · rename_i hfailed
    left
    rw [← (pair_of_ok hok).2]
    exact hremoved.failed hfailed
  · rename_i hfine
    right
    have hnoErr : r.1 = .noErr := by simpa [isError] using hfine
    obtain ⟨db, hwrite, hok⟩ := bind_eq_ok.mp hok
    rw [hnoErr] at hremoved
    obtain ⟨ost, -, hdb⟩ := writeMetaDataToDatabase_ok hremoved.working hwrite
    have hinv : Invariant { r.2 with database := db } := by
      refine hremoved.invariant.frame fun u hu => ?_
      have hne : u ≠ cStr item.url := by
        rintro rfl
        exact hremoved.gone rfl hu
      rw [hdb]
      exact readMetaDataFromDatabase_congr rfl (r.2.database.value_insert_of_ne ost hne)
    refine ⟨r.2, db, hremoved, hwrite, addSong_spec hinv ?_ hok⟩
    rw [hdb]
    exact hremoved.working

theorem invariant_of_empty {c : MusicCatalog} (hartists : c.artistList = [])
    (hunsorted : c.unsorted = []) : c.Invariant := by
  have hurls : c.urls = [] := by
    unfold MusicCatalog.urls
    rw [hartists, hunsorted]
    rfl
  refine ⟨?_, ?_, ?_, ?_, ?_⟩
  · rw [hartists]
    exact ⟨List.nodup_nil, nofun, nofun⟩
  · rw [hurls]
    exact List.nodup_nil
  · rw [hunsorted]
    exact nofun
  · rintro artist album url ⟨a, ha, -⟩
    rw [hartists] at ha
    exact absurd ha List.not_mem_nil
  · rw [hurls]
    exact nofun

theorem add_cases {c : MusicCatalog} {url : Text} {found : MetaData}
    {r : Error × MusicCatalog} (hok : c.add url found = .ok r) :
    r.2 = c ∨ (c.database.working = true ∧
      (∃ data, c.database.value url = some data ∧ data.head? = some 77) ∧
      c.addSong url found = .ok r) := by
  unfold add at hok
  split at hok
  · left
    rw [← Except.ok.inj hok]
  · rename_i hworking
    have hworking' : c.database.working = true := by simpa using hworking
    split at hok
    · left
      rw [← Except.ok.inj hok]
    · rename_i data hdata
      split at hok
      · rename_i hhead
        exact .inr ⟨hworking', ⟨data, hdata, hhead⟩, hok⟩
      · left
        split at hok
        · cases hread : readMetaDataFromDatabase c.database url with
          | error f =>
            rw [hread] at hok
            exact absurd hok nofun
          | ok m =>
            rw [hread, ok_bind] at hok
            rw [← Except.ok.inj hok]
        · split at hok <;> rw [← Except.ok.inj hok]

/-- The loop over the keys keeps what each of its songs keeps. -/
theorem addKeys_induct {P : MusicCatalog → List (Text × MetaData) → Prop}
    (hsame : ∀ c key keys, P c (key :: keys) → P c keys)
    (hadd : ∀ (c c' : MusicCatalog) key keys err, P c (key :: keys) →
      c.database.working = true →
      (∃ data, c.database.value key.1 = some data ∧ data.head? = some 77) →
      c.addSong key.1 key.2 = .ok (err, c') → P c' keys) :
    ∀ {keys : List (Text × MetaData)} {c c' : MusicCatalog},
      c.addKeys keys = .ok c' → P c keys → P c' [] := by
  intro keys
  induction keys with
  | nil =>
    intro c c' hok hc
    rw [← Except.ok.inj hok]
    exact hc
  | cons key keys ih =>
    intro c c' hok hc
    rw [addKeys] at hok
    obtain ⟨r, hkey, hok⟩ := bind_eq_ok.mp hok
    apply ih hok
    rcases add_cases hkey with heq | ⟨hworking, hdata, hsong⟩
    · rw [heq]
      exact hsame c key keys hc
    · exact hadd c r.2 key keys r.1 hc hworking hdata hsong

/-- What `RePopulateFromDatabase` does when the database works. -/
theorem rePopulate_spec {c c' : MusicCatalog} {keys : List (Text × MetaData)} {err : Error}
    (hworking : c.database.working = true)
    (hok : c.rePopulateFromDatabase keys = .ok (err, c')) :
    ∃ killGUIDs killGUIDs' d,
      addKeys { c.clearCatalog with killGUIDs := killGUIDs } keys = .ok d ∧
      c' = { d with
        database := d.database.insert subVersionKey (showInt databaseSubVersion)
        killGUIDs := killGUIDs' } := by
  unfold rePopulateFromDatabase at hok
  rw [hworking] at hok
  simp only [Bool.not_true, Bool.false_eq_true, if_false] at hok
  generalize (if decide (getSubVersion c.database < databaseSubVersion) = true then true
    else c.killGUIDs) = killGUIDs at hok
  obtain ⟨d, hkeys, hok⟩ := bind_eq_ok.mp hok
  exact ⟨killGUIDs, _, d, hkeys, (pair_of_ok hok).2.symm⟩

/-- Storing the version of the database keeps the invariant. -/
theorem Invariant.store_version {c : MusicCatalog} (h : c.Invariant)
    (hworking : c.database.working = true) : Invariant { c with
      database := c.database.insert subVersionKey (showInt databaseSubVersion) } := by
  -- the record that is stored over is too short for a track
  have hown : readMetaDataFromDatabase
      (c.database.insert subVersionKey (showInt databaseSubVersion)) subVersionKey =
        .error .badRecord := by
    unfold readMetaDataFromDatabase
    rw [Database.working_insert, hworking, Database.value_insert_self]
    rfl
  have hothers : ∀ u, u ≠ subVersionKey → readMetaDataFromDatabase
      (c.database.insert subVersionKey (showInt databaseSubVersion)) u =
        readMetaDataFromDatabase c.database u := fun u hu =>
    readMetaDataFromDatabase_congr rfl (c.database.value_insert_of_ne _ hu)
  have hread : ∀ u m, readMetaDataFromDatabase
      (c.database.insert subVersionKey (showInt databaseSubVersion)) u = .ok (some m) →
        c.Reads u m := by
    intro u m hm
    by_cases hu : u = subVersionKey
    · rw [hu, hown] at hm
      exact absurd hm nofun
    · exact (hothers u hu).symm.trans hm
  refine ⟨h.shelves, h.urls, fun u hu m hm => h.unsorted u hu m (hread u m hm),
    fun artist album u hu m hm => h.sorted artist album u hu m (hread u m hm), ?_⟩
  intro u hu
  by_cases hkey : u = subVersionKey
  · exact .inr (.inr ⟨hkey, by rw [hkey]; exact hown⟩)
  · have hrec := h.records u hu
    unfold Reads at hrec ⊢
    rw [← hothers u hkey] at hrec
    exact hrec

/-- The invariant and that the database works. -/
def InvariantWorking (c : MusicCatalog) : Prop :=
  c.Invariant ∧ c.database.working = true

theorem addKeys_invariant {keys : List (Text × MetaData)} {c c' : MusicCatalog}
    (hok : c.addKeys keys = .ok c') (h : c.InvariantWorking) : c'.InvariantWorking := by
  refine addKeys_induct (P := fun c _ => c.InvariantWorking) (fun c key keys h => h) ?_ hok h
  intro c c' key keys err h hworking _ hsong
  have hadded := addSong_spec h.1 hworking hsong
  exact ⟨hadded.invariant, hadded.working.trans hworking⟩

/-- A call whose database does not work does nothing, but for `ClearCatalog`. -/
theorem call_of_not_working {c c' : MusicCatalog} {k : Call} {err : Error}
    (hworking : c.database.working = false) (hok : c.call k = .ok (err, c')) :
    c' = c ∨ c' = c.clearCatalog := by
  have hsame : ∀ e : Error, (Except.ok (e, c) : Except RecordFault (Error × MusicCatalog)) =
      .ok (err, c') → c' = c := fun e h => (pair_of_ok h).2.symm
  cases k with
  | clearCatalog => exact .inr (pair_of_ok hok).2.symm
  | addSong url found =>
    simp only [call, addSong, hworking, Bool.not_false, if_true] at hok
    exact .inl (hsame _ hok)
  | removeSong url =>
    simp only [call, removeSong, hworking, Bool.not_false, if_true] at hok
    exact .inl (hsame _ hok)
  | updateSong item found =>
    simp only [call, updateSong, hworking, Bool.not_false, if_true] at hok
    exact .inl (hsame _ hok)
  | rePopulateFromDatabase keys =>
    simp only [call, rePopulateFromDatabase, hworking, Bool.not_false, if_true] at hok
    exact .inl (hsame _ hok)

theorem Step.invariant {c c' : MusicCatalog} {k : Call} (h : c.Invariant)
    (hstep : Step c k c') : c'.Invariant := by
  obtain ⟨err, hok⟩ := hstep
  cases hworking : c.database.working with
  | false =>
    rcases call_of_not_working hworking hok with rfl | rfl
    · exact h
    · exact invariant_of_empty rfl rfl
  | true =>
    cases k with
    | addSong url found => exact (addSong_spec h hworking hok).invariant
    | removeSong url => exact (removeSong_spec h hworking hok).invariant
    | updateSong item found =>
      rcases updateSong_spec h hworking hok with rfl | ⟨d, db, -, -, hadded⟩
      · exact h
      · exact hadded.invariant
    | clearCatalog =>
      rw [← (pair_of_ok hok).2]
      exact invariant_of_empty rfl rfl
    | rePopulateFromDatabase keys =>
      obtain ⟨killGUIDs, killGUIDs', d, hkeys, rfl⟩ := rePopulate_spec hworking hok
      have hempty : InvariantWorking { c.clearCatalog with killGUIDs := killGUIDs } :=
        ⟨invariant_of_empty rfl rfl, hworking⟩
      obtain ⟨hd, hworking'⟩ := addKeys_invariant hkeys hempty
      have hstored := hd.store_version hworking'
      exact ⟨hstored.shelves, hstored.urls, hstored.unsorted, hstored.sorted,
        hstored.records⟩

theorem invariant_initial (db : Database) : (initial db).Invariant :=
  invariant_of_empty rfl rfl

/-- Metadata of an artist and an album, and of the same in other letters. -/
def threeSongs : List (Text × MetaData) :=
  [([117], { MetaData.new with artist := bytes "Abc", album := bytes "Def" }),
    ([118], { MetaData.new with artist := bytes "aBC", album := bytes "DEF" }),
    ([119], .new)]

end MusicCatalog

end FreeAmp.Base
