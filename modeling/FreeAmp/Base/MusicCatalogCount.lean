/-
  Base/MusicCatalogCount.lean --- `m_trackCount`.

  `AddSong` counts a track that it puts in the unsorted list or on an album that is there,
  and not one that it makes an album or an artist for; `RemoveSong` counts every track
  that it takes out.  The count stays right as long as no album is made:

      trackCount_eq   the count, after calls that make none
-/
import FreeAmp.Base.MusicCatalogInvariant

namespace FreeAmp.Base

open FreeAmp.Lib

namespace MusicCatalog

/-! ## Counting -/

/-- The tracks in the unsorted list and in all albums of all artists. -/
def totalTracks (c : MusicCatalog) : Nat :=
  c.unsorted.length +
    (c.artistList.map fun a => (a.albumList.map fun b => b.trackList.length).sum).sum

theorem totalTracks_eq (c : MusicCatalog) : c.totalTracks = c.urls.length := by
  unfold totalTracks urls sortedTracks albumTracks
  rw [List.length_append, List.length_flatMap]
  simp only [List.length_flatMap]

/-- The count is right. -/
def Counted (c : MusicCatalog) : Prop := c.trackCount = c.urls.length

/-- Whether the song that `AddSong` reads is counted when it is added. -/
def CountsSong (c : MusicCatalog) (url : Text) (found : MetaData) : Prop :=
  ∀ r m, fetchSong c.database url found = .ok r → r.2 = some m → c.CountedSong m

/-- Whether the song that an item is written for is counted when it is added again: another
song is where it goes. -/
def CountsItem (c : MusicCatalog) (item : PlaylistItem) : Prop :=
  ∀ db m, writeMetaDataToDatabase c.database (cStr item.url) item.metadata .track = .ok db →
    readMetaDataFromDatabase db (cStr item.url) = .ok (some m) →
      blank m.artist = true ∨ ∃ u, u ≠ cStr item.url ∧
        Filed c.artistList (nameUnknown m).artist (nameUnknown m).album u

/-- Whether the songs under these keys are without an artist. -/
def CountsKeys (db : Database) (keys : List (Text × MetaData)) : Prop :=
  ∀ key ∈ keys, ∀ data, db.value key.1 = some data → data.head? = some 77 →
    ∀ m, readMetaDataFromDatabase db key.1 = .ok (some m) → blank m.artist = true

/-- Whether every song that a call adds is counted. -/
def Counts (c : MusicCatalog) : Call → Prop
  | .addSong url found => c.CountsSong url found
  | .removeSong _ => True
  | .updateSong item _ => readMetaDataFromDatabase c.database (cStr item.url) = .ok none ∨
      c.CountsItem item
  | .clearCatalog => True
  | .rePopulateFromDatabase keys => CountsKeys c.database keys

/-! ## One call -/

theorem SongAdded.counted {c c' : MusicCatalog} {url : Text} {found : MetaData}
    (h : SongAdded c c' url found) (hcounted : c.Counted) (hcounts : c.CountsSong url found) :
    c'.Counted := by
  unfold Counted at hcounted ⊢
  rcases h.adds with ⟨hurls, hcount⟩ | ⟨r, m, hfetch, hr, hadds⟩
  · rw [hurls, hcount, hcounted]
  · rcases hadds with ⟨hurls, hcount⟩ | ⟨hperm, hcount⟩
    · rw [hurls, hcount, hcounted]
    · rw [if_pos (hcounts r m hfetch hr)] at hcount
      rw [hcount, hcounted, hperm.length_eq, List.length_cons]
      omega

theorem filed_hasAlbum {artists : List ArtistList} {artist album u : Text}
    (h : Filed artists artist album u) : HasAlbum artists artist album := by
  obtain ⟨name, albumName, hname, halbum, a, ha, rfl, b, hb, rfl, -⟩ := h
  exact ⟨a, ha, hname, b, hb, halbum⟩

/-- What is written for an item is the same for every database that works. -/
theorem read_written {db db' d d' : Database} {url : Text} {m : MetaData}
    (hdb : db.working = true) (hd : d.working = true)
    (hwrite : writeMetaDataToDatabase db url m .track = .ok db')
    (hwrite' : writeMetaDataToDatabase d url m .track = .ok d') :
    readMetaDataFromDatabase d' url = readMetaDataFromDatabase db' url := by
  obtain ⟨ost, hrecord, rfl⟩ := writeMetaDataToDatabase_ok hdb hwrite
  obtain ⟨ost', hrecord', rfl⟩ := writeMetaDataToDatabase_ok hd hwrite'
  obtain rfl : ost = ost' := Except.ok.inj (hrecord.symm.trans hrecord')
  refine readMetaDataFromDatabase_congr (hd.trans hdb.symm) ?_
  rw [Database.value_insert_self, Database.value_insert_self]

theorem updateSong_counted {c c' : MusicCatalog} {item : PlaylistItem} {found : MetaData}
    {err : Error} (h : c.Invariant) (hworking : c.database.working = true)
    (hcounted : c.Counted) (hcounts : c.CountsItem item)
    (hok : c.updateSong item found = .ok (err, c')) : c'.Counted := by
  rcases updateSong_spec h hworking hok with rfl | ⟨d, db, hremoved, hwrite, hadded⟩
  · exact hcounted
  · have hd : Counted { d with database := db } := by
      have hcount := hremoved.counts
      unfold Counted at hcounted ⊢
      show d.trackCount = d.urls.length
      omega
    refine hadded.counted hd fun r m hfetch hr => ?_
    obtain ⟨db₀, hwrite₀⟩ : ∃ db₀, writeMetaDataToDatabase c.database (cStr item.url)
        item.metadata .track = .ok db₀ := by
      obtain ⟨ost, hrecord, -⟩ := writeMetaDataToDatabase_ok hremoved.working hwrite
      refine ⟨c.database.insert (cStr item.url) ost, ?_⟩
      unfold writeMetaDataToDatabase
      rw [hworking, hrecord]
      rfl
    have hsame := read_written hworking hremoved.working hwrite₀ hwrite
    have hdb : db.working = true := by
      obtain ⟨ost, -, rfl⟩ := writeMetaDataToDatabase_ok hremoved.working hwrite
      exact hremoved.working
    -- the record has just been written, and is what `AddSong` reads
    have hread : readMetaDataFromDatabase db (cStr item.url) = .ok (some m) := by
      obtain ⟨ost, -, rfl⟩ := writeMetaDataToDatabase_ok hremoved.working hwrite
      obtain ⟨m', hr', hread⟩ :=
        fetchSong_of_value hdb (Database.value_insert_self _ _ _) hfetch
      rw [hr'] at hr
      rw [← Option.some.inj hr]
      exact hread
    rcases hcounts db₀ m hwrite₀ (hsame.symm.trans hread) with hblank | ⟨u, hu, hfiled⟩
    · exact .inl hblank
    · exact .inr (filed_hasAlbum (hremoved.keeps _ _ u hu hfiled))

/-- The catalog while it is being filled from songs that have no artist. -/
structure Filling (c : MusicCatalog) (keys : List (Text × MetaData)) : Prop where
  invariant : c.Invariant
  counted : c.Counted
  keys : CountsKeys c.database keys

theorem addKeys_counted {keys : List (Text × MetaData)} {c c' : MusicCatalog}
    (hok : c.addKeys keys = .ok c') (h : Filling c keys) : c'.Counted := by
  refine (addKeys_induct (P := Filling) ?_ ?_ hok h).counted
  · exact fun c key keys h => ⟨h.invariant, h.counted,
      fun k hk => h.keys k (List.mem_cons_of_mem _ hk)⟩
  · intro c c' key keys err h hworking hdata hsong
    have hadded := addSong_spec h.invariant hworking hsong
    obtain ⟨data, hvalue, hhead⟩ := hdata
    have hblank := h.keys key List.mem_cons_self data hvalue hhead
    refine ⟨hadded.invariant, hadded.counted h.counted fun r m hfetch hr => .inl ?_, ?_⟩
    · obtain ⟨m', hr', hread⟩ := fetchSong_of_value hworking hvalue hfetch
      rw [hr'] at hr
      rw [← Option.some.inj hr]
      exact hblank m' hread
    · intro k hk data' hvalue' hhead' m' hread'
      by_cases heq : k.1 = key.1
      · obtain ⟨r, hfetch⟩ := hadded.fetched
        obtain ⟨m, -, hread⟩ := fetchSong_of_value hworking hvalue hfetch
        rw [heq] at hread'
        rw [hadded.artist m m' hread hread']
        exact hblank m hread
      · rw [hadded.others k.1 heq] at hvalue'
        refine h.keys k (List.mem_cons_of_mem _ hk) data' hvalue' hhead' m' ?_
        rw [← hread']
        exact readMetaDataFromDatabase_congr hadded.working.symm (hadded.others k.1 heq).symm

/-- A call that counts every song it adds keeps the count right. -/
theorem Step.counted {c c' : MusicCatalog} {k : Call} (h : c.Invariant) (hcounted : c.Counted)
    (hcounts : c.Counts k) (hstep : Step c k c') : c'.Counted := by
  obtain ⟨err, hok⟩ := hstep
  have hzero : c.clearCatalog.Counted := rfl
  cases hworking : c.database.working with
  | false =>
    rcases call_of_not_working hworking hok with rfl | rfl
    · exact hcounted
    · exact hzero
  | true =>
    cases k with
    | addSong url found => exact (addSong_spec h hworking hok).counted hcounted hcounts
    | removeSong url =>
      have hcount := (removeSong_spec h hworking hok).counts
      unfold Counted at hcounted ⊢
      omega
    | updateSong item found =>
      rcases hcounts with hnone | hcounts
      · rcases updateSong_spec h hworking hok with rfl | ⟨d, db, hremoved, -, -⟩
        · exact hcounted
        · exact absurd hnone (hremoved.had rfl)
      · exact updateSong_counted h hworking hcounted hcounts hok
    | clearCatalog =>
      rw [← (Prod.mk.inj (Except.ok.inj hok)).2]
      exact hzero
    | rePopulateFromDatabase keys =>
      obtain ⟨killGUIDs, killGUIDs', d, hkeys, rfl⟩ := rePopulate_spec hworking hok
      have hd : d.Counted :=
        addKeys_counted hkeys ⟨invariant_of_empty rfl rfl, rfl, hcounts⟩
      exact hd

/-- Calls that count every song that they add keep the count right. -/
theorem counted_of_run {c c' : MusicCatalog} {calls : List Call} (h : c.Invariant)
    (hcounted : c.Counted) (hrun : Run (Guarded Counts Step) c calls c') :
    c'.Invariant ∧ c'.Counted := by
  refine hrun.invariant (P := fun c => c.Invariant ∧ c.Counted) ?_ ⟨h, hcounted⟩
  exact fun c k c' hc hstep => ⟨hstep.2.invariant hc.1, hstep.2.counted hc.1 hc.2 hstep.1⟩

/-- In every run whose calls count every song that they add, the count is that of the tracks in
every state that is reached, and not negative. -/
theorem trackCount_eq {db : Database} {calls : List Call} {c : MusicCatalog}
    (h : Run (Guarded Counts Step) (initial db) calls c) :
    c.trackCount = c.totalTracks ∧ 0 ≤ c.trackCount := by
  have hcounted := (counted_of_run (invariant_initial db) rfl h).2
  rw [totalTracks_eq, ← hcounted]
  refine ⟨rfl, ?_⟩
  rw [hcounted]
  exact Int.natCast_nonneg _

/-- Metadata with a title and no artist. -/
def titleOnly : MetaData := { MetaData.new with title := bytes "a" }

/-- Metadata with an artist, an album and a title. -/
def titleOnAlbum : MetaData :=
  { MetaData.new with artist := bytes "A", album := bytes "B", title := bytes "a" }

theorem trackCount_eq_titleOnly :
    ∃ c, Run (Guarded Counts Step) (initial .empty)
        [.addSong [117] titleOnly, .addSong [118] titleOnly, .removeSong [117]] c ∧
      c.trackCount = c.totalTracks ∧ 0 ≤ c.trackCount ∧ c.unsorted = [[118]] := by
  have hcounts : ∀ (c : MusicCatalog) url, (∀ r m, fetchSong c.database url titleOnly = .ok r →
      r.2 = some m → m = titleOnly) → c.CountsSong url titleOnly := by
    intro c url h r m hfetch hr
    rw [h r m hfetch hr]
    exact .inl rfl
  obtain ⟨c, hrun, hc⟩ : ∃ c, Run (Guarded Counts Step) (initial .empty)
      [.addSong [117] titleOnly, .addSong [118] titleOnly, .removeSong [117]] c ∧
        c.unsorted = [[118]] := by
    refine ⟨_, .cons ⟨hcounts _ _ ?_, ⟨_, rfl⟩⟩ (.cons ⟨hcounts _ _ ?_, ⟨_, rfl⟩⟩
      (.cons ⟨trivial, ⟨_, rfl⟩⟩ (.refl _))), rfl⟩
    · intro r m hfetch hr
      obtain rfl := Except.ok.inj hfetch
      exact (Option.some.inj hr).symm
    · intro r m hfetch hr
      obtain rfl := Except.ok.inj hfetch
      exact (Option.some.inj hr).symm
  obtain ⟨hcount, hpos⟩ := trackCount_eq hrun
  exact ⟨c, hrun, hcount, hpos, hc⟩

/-- The first song of an artist is not counted, and removing it is. -/
theorem trackCount_wrong_titleOnAlbum :
    ∃ c c', Run Step (initial .empty) [.addSong [117] titleOnAlbum] c ∧
      c.trackCount = 0 ∧ c.totalTracks = 1 ∧
      Run Step (initial .empty) [.addSong [117] titleOnAlbum, .removeSong [117]] c' ∧
      c'.trackCount = -1 ∧ c'.totalTracks = 0 :=
  ⟨_, _, .cons ⟨_, rfl⟩ (.refl _), rfl, rfl,
    .cons ⟨_, rfl⟩ (.cons ⟨_, rfl⟩ (.refl _)), rfl, rfl⟩

end MusicCatalog

end FreeAmp.Base
