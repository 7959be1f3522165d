/-
  Base/MusicCatalogPrune.lean --- `PruneThread(true)` and `PruneDirectory`, from
  `base/src/musiccatalog.cpp`.

  Both go through the keys of the database with `NextKey` and remove those of files that
  `stat` does not find, each with the function of its kind, and begin again with the first
  key behind a removal.  The catalog of `Base/MusicCatalog.lean` is kept as it is, with the
  playlists and the streams beside it.

      remove_spec    what `Remove` takes out of an orderly catalog
      prune_exact    what both take out, and when it is what they should

  A directory is told by a string that the path begins with: of a directory `/m/a` that is
  also `/m/ab`.
-/
import FreeAmp.Base.MusicCatalogUpdate
import FreeAmp.Base.ResumeDatabase
import FreeAmp.Base.FileUrl
import FreeAmp.Lib.Search
import FreeAmp.Lib.Sweep

namespace FreeAmp.Base

open FreeAmp.Lib MusicCatalog

/-! ## The catalog with its lists -/

/-- `class MusicCatalog`, with its playlists and streams. -/
structure ListedCatalog where
  catalog : MusicCatalog
  playlists : List Text
  streams : List Text

namespace ListedCatalog

def database (s : ListedCatalog) : Database := s.catalog.database

/-- The record of a key is removed. -/
def removeRecord (s : ListedCatalog) (url : Text) : ListedCatalog :=
  { s with catalog := { s.catalog with database := s.database.remove url } }

def removeSong (s : ListedCatalog) (url : Text) : Except RecordFault (Error × ListedCatalog) := do
  let r ← s.catalog.removeSong url
  .ok (r.1, { s with catalog := r.2 })

def removePlaylist (s : ListedCatalog) (url : Text) : Error × ListedCatalog :=
  if !s.database.working then (.databaseNotWorking, s)
  else
    match s.database.value url with
    | none => (.itemNotFound, s)
    | some _ =>
      let s := s.removeRecord url
      if url ∈ s.playlists then
        -- `tempstr.find("currentlist.m3u") >= tempstr.length()`
        if firstPlace (bytes "currentlist.m3u") url = none then
          (.noErr, { s with playlists := s.playlists.erase url })
        else (.noErr, s)
      else (.itemNotFound, s)

def removeStream (s : ListedCatalog) (url : Text) :
    Except RecordFault (Error × ListedCatalog) :=
  if !s.database.working then .ok (.databaseNotWorking, s)
  else do
    let metadata ← readMetaDataFromDatabase s.database url
    match metadata with
    | none => .ok (.itemNotFound, s)
    | some _ =>
      let s := s.removeRecord url
      .ok (.noErr, { s with streams := s.streams.erase url })

/-- The letter that a record begins with. -/
def letter (s : ListedCatalog) (url : Text) : Option UInt8 :=
  (s.database.value url).bind List.head?

def remove (s : ListedCatalog) (url : Text) : Except RecordFault (Error × ListedCatalog) :=
  if !s.database.working then .ok (.databaseNotWorking, s)
  else if s.database.value url = none then .ok (.itemNotFound, s)
  else if s.letter url = some 77 then s.removeSong url
  else if s.letter url = some 80 then .ok (s.removePlaylist url)
  else if s.letter url = some 83 then s.removeStream url
  else .ok (.youScrewedUp, s)

/-! ## The loops -/

/-- The path of a key that is a `file://` URL. -/
def filePath (key : Text) : Option Text :=
  if protocol.isPrefixOf key then (urlToFilePath key (key.length + 1)).result.toOption else none

/-- `PruneThread` removes the key; `missing` are the files that `stat` does not find. -/
def stale (missing : Text → Bool) (key : Text) : Bool :=
  match filePath key with
  | some filename => missing filename
  | none => false

/-- `PruneDirectory` removes the key: `strncmp(directory.c_str(), filename, directory.size())`
is 0.  The strings have no NUL in them. -/
def staleIn (directory : Text) (missing : Text → Bool) (key : Text) : Bool :=
  match filePath key with
  | some filename => directory.isPrefixOf filename && missing filename
  | none => false

/-- The keys that `NextKey` goes through. -/
def keys (order : KeyOrder) (s : ListedCatalog) : List Text := order.nextKeys s.database

/-- What the loops do with a key that goes. -/
def drop (s : ListedCatalog) (key : Text) : Except RecordFault ListedCatalog := do
  let r ← s.remove key
  .ok r.2

/-- `PruneThread(true)`, for a number of rounds. -/
def pruneThread (order : KeyOrder) (missing : Text → Bool) (rounds : Nat) (s : ListedCatalog) :
    Option (Except RecordFault ListedCatalog) :=
  sweep (keys order) (stale missing) drop rounds (nextKey (keys order s) none) s

/-- `PruneDirectory(directory)`, for a number of rounds. -/
def pruneDirectory (order : KeyOrder) (directory : Text) (missing : Text → Bool) (rounds : Nat)
    (s : ListedCatalog) : Option (Except RecordFault ListedCatalog) :=
  sweep (keys order) (staleIn directory missing) drop rounds (nextKey (keys order s) none) s

/-! ## What should be removed -/

/-- The path lies in the directory or below it. -/
def within (directory path : Text) : Bool :=
  (if directory.getLast? = some dirMarker then directory else directory ++ [dirMarker]).isPrefixOf
    path

/-- What `PruneDirectory` should remove. -/
def staleWithin (directory : Text) (missing : Text → Bool) (key : Text) : Bool :=
  match filePath key with
  | some filename => within directory filename && missing filename
  | none => false

/-- What goes is gone from the database and from the catalog, and all else is as it was. -/
structure Pruned (gone : Text → Bool) (s t : ListedCatalog) : Prop where
  entries : t.database.entries = s.database.entries.filter fun e => !gone e.1
  tracks : t.catalog.urls.Perm (s.catalog.urls.filter fun url => !gone url)
  playlists : t.playlists = s.playlists.filter fun url => !gone url
  streams : t.streams = s.streams.filter fun url => !gone url
  counted : t.catalog.trackCount - t.catalog.urls.length =
    s.catalog.trackCount - s.catalog.urls.length

/-- The loop ends, and has removed what should go. -/
def Prunes (prune : Nat → ListedCatalog → Option (Except RecordFault ListedCatalog))
    (gone : Text → Bool) (s : ListedCatalog) : Prop :=
  ∃ rounds t, prune rounds s = some (.ok t) ∧ Pruned gone s t

/-- The catalog lists every key by the kind of its record, once, and every track where its
record says. -/
structure Orderly (s : ListedCatalog) : Prop where
  invariant : s.catalog.Invariant
  working : s.database.working = true
  tracks : ∀ url ∈ s.catalog.urls, s.letter url = some 77
  playlists : ∀ url ∈ s.playlists, s.letter url = some 80
  streams : ∀ url ∈ s.streams, s.letter url = some 83
  playlistsOnce : s.playlists.Nodup
  streamsOnce : s.streams.Nodup

/-- `Remove` has a function for the key, and the record of a song or a stream can be read.  The
list of what is being played is kept in the catalog. -/
def Removable (s : ListedCatalog) (key : Text) : Prop :=
  (s.letter key = some 80 ∧
      (key ∈ s.playlists → firstPlace (bytes "currentlist.m3u") key = none)) ∨
    (s.letter key = some 77 ∨ s.letter key = some 83) ∧
      ∃ m, readMetaDataFromDatabase s.database key = .ok (some m)

/-! ## One removal -/

variable {s t : ListedCatalog} {key : Text}

theorem letter_of_remove (hdatabase : t.database = s.database.remove key) {url : Text}
    (hne : url ≠ key) : t.letter url = s.letter url := by
  unfold letter
  rw [hdatabase, Database.value_remove_of_ne _ hne]

/-- What is listed by another kind of record is not the key. -/
theorem filter_ne_of_letter {l : List Text} {c : UInt8} (hl : ∀ url ∈ l, s.letter url = some c)
    (hkey : s.letter key ≠ some c) : l.filter (· != key) = l := by
  apply List.filter_bne_eq_self_of_not_mem
  exact fun hmem => hkey (hl key hmem)

/-- What `Remove` takes out. -/
structure Removed (s : ListedCatalog) (key : Text) (t : ListedCatalog) : Prop where
  database : t.database = s.database.remove key
  tracks : t.catalog.urls.Perm (s.catalog.urls.filter (· != key))
  playlists : t.playlists = s.playlists.filter (· != key)
  streams : t.streams = s.streams.filter (· != key)
  counted : t.catalog.trackCount - t.catalog.urls.length =
    s.catalog.trackCount - s.catalog.urls.length

theorem Removed.orderly (h : Removed s key t) (hs : Orderly s)
    (hinvariant : t.catalog.Invariant) : Orderly t := by
  have hlisted : ∀ {l l' : List Text} {c : UInt8}, (∀ url ∈ l, s.letter url = some c) →
      (∀ url ∈ l', url ∈ l.filter (· != key)) → ∀ url ∈ l', t.letter url = some c := by
    intro l l' c hl hsub url hurl
    obtain ⟨hmem, hne⟩ := List.mem_filter.mp (hsub url hurl)
    rw [letter_of_remove h.database (bne_iff_ne.mp hne)]
    exact hl url hmem
  refine ⟨hinvariant, ?_, hlisted hs.tracks fun url hurl => h.tracks.mem_iff.mp hurl,
    hlisted hs.playlists fun url hurl => h.playlists ▸ hurl,
    hlisted hs.streams fun url hurl => h.streams ▸ hurl, ?_, ?_⟩
  · rw [h.database]
    exact hs.working
  · rw [h.playlists]
    exact hs.playlistsOnce.filter _
  · rw [h.streams]
    exact hs.streamsOnce.filter _

theorem Orderly.removeRecord (hs : Orderly s) (hkey : s.letter key ≠ some 77) :
    (s.removeRecord key).catalog.Invariant :=
  hs.invariant.remove_record fun hmem => hkey (hs.tracks key hmem)

theorem removeSong_ok (hs : Orderly s) {m : MetaData}
    (hread : readMetaDataFromDatabase s.database key = .ok (some m)) :
    ∃ r, s.catalog.removeSong key = .ok r := by
  unfold MusicCatalog.removeSong
  rw [show s.catalog.database.working = true from hs.working]
  show ∃ r, (readMetaDataFromDatabase s.database key >>= _) = .ok r
  rw [hread]
  show ∃ r, (if blank m.artist = true then _ else _) = Except.ok r
  split
  · split
    · exact ⟨_, rfl⟩
    · exact ⟨_, rfl⟩
  · rcases removeFromArtists_spec m.artist m.album key hs.invariant.shelves with
      ⟨hnone, -⟩ | ⟨artists', hsome, -⟩
    · exact ⟨_, bind_eq_ok.mpr ⟨_, hnone, rfl⟩⟩
    · exact ⟨_, bind_eq_ok.mpr ⟨_, hsome, rfl⟩⟩

theorem remove_song (hs : Orderly s) (hletter : s.letter key = some 77) {m : MetaData}
    (hread : readMetaDataFromDatabase s.database key = .ok (some m)) :
    ∃ err t, s.removeSong key = .ok (err, t) ∧ Removed s key t ∧ Orderly t := by
  obtain ⟨⟨err, c⟩, hremove⟩ := removeSong_ok hs hread
  have hspec := removeSong_spec hs.invariant hs.working hremove
  rcases removeSong_split hs.invariant.shelves hs.working hremove with
    ⟨hnone, -⟩ | ⟨m', hread', -, htaken⟩
  · exact absurd (hnone.symm.trans hread) nofun
  · have htracks : c.urls.Perm (s.catalog.urls.filter (· != key)) := by
      rcases htaken.urls with ⟨hnot, hsame⟩ | ⟨-, hperm⟩
      · have hkey : key ∉ s.catalog.urls := by
          intro hmem
          rcases hs.invariant.where_is hmem hread' with ⟨hblank, hin⟩ | ⟨hblank, -, hfiled⟩
          · exact hnot (.inl ⟨hblank, hin⟩)
          · exact hnot (.inr ⟨hblank, hfiled⟩)
        rw [hsame, List.filter_bne_eq_self_of_not_mem hkey]
      · have hnodup : (key :: c.urls).Nodup := hperm.nodup_iff.mpr hs.invariant.urls
        have hstay : c.urls.filter (· != key) = c.urls :=
          List.filter_bne_eq_self_of_not_mem (List.nodup_cons.mp hnodup).1
        have hfilter := hperm.filter (· != key)
        rw [List.filter_cons_of_neg (by simp), hstay] at hfilter
        exact hfilter
    have hcounts := hspec.counts
    have hremoved : Removed s key { s with catalog := c } := by
      refine ⟨htaken.database, htracks, ?_, ?_, ?_⟩
      · exact (filter_ne_of_letter hs.playlists (by rw [hletter]; decide)).symm
      · exact (filter_ne_of_letter hs.streams (by rw [hletter]; decide)).symm
      · show c.trackCount - (c.urls.length : Int) = _
        omega
    refine ⟨err, { s with catalog := c }, ?_, hremoved, hremoved.orderly hs hspec.invariant⟩
    unfold removeSong
    rw [hremove]
    rfl

theorem remove_playlist (hs : Orderly s) (hletter : s.letter key = some 80)
    (hlisted : key ∈ s.playlists → firstPlace (bytes "currentlist.m3u") key = none) :
    ∃ err t, s.removePlaylist key = (err, t) ∧ Removed s key t ∧ Orderly t := by
  have htracks := filter_ne_of_letter hs.tracks (by rw [hletter]; decide)
  have hstreams := filter_ne_of_letter hs.streams (by rw [hletter]; decide)
  have hinvariant : (s.removeRecord key).catalog.Invariant :=
    hs.removeRecord (by rw [hletter]; decide)
  obtain ⟨data, hvalue⟩ : ∃ data, s.database.value key = some data := by
    unfold letter at hletter
    obtain ⟨data, hvalue, -⟩ := Option.bind_eq_some_iff.mp hletter
    exact ⟨data, hvalue⟩
  have hremoved : ∀ playlists, playlists = s.playlists.filter (· != key) →
      Removed s key { s.removeRecord key with playlists := playlists } :=
    fun playlists heq => ⟨rfl, htracks.symm ▸ .refl _, heq, hstreams.symm, rfl⟩
  unfold removePlaylist
  rw [hs.working, hvalue]
  by_cases hmem : key ∈ s.playlists
  · have herase := hremoved _ (hs.playlistsOnce.erase_eq_filter key)
    refine ⟨.noErr, _, ?_, herase, herase.orderly hs hinvariant⟩
    simp only [Bool.not_true, Bool.false_eq_true, if_false]
    have hmem' : key ∈ (s.removeRecord key).playlists := hmem
    rw [if_pos hmem', if_pos (hlisted hmem)]
    rfl
  · have hsame := hremoved s.playlists (List.filter_bne_eq_self_of_not_mem hmem).symm
    refine ⟨.itemNotFound, _, ?_, hsame, hsame.orderly hs hinvariant⟩
    simp only [Bool.not_true, Bool.false_eq_true, if_false]
    have hmem' : key ∉ (s.removeRecord key).playlists := hmem
    rw [if_neg hmem']
    rfl

theorem remove_stream (hs : Orderly s) (hletter : s.letter key = some 83) {m : MetaData}
    (hread : readMetaDataFromDatabase s.database key = .ok (some m)) :
    ∃ err t, s.removeStream key = .ok (err, t) ∧ Removed s key t ∧ Orderly t := by
  have htracks := filter_ne_of_letter hs.tracks (by rw [hletter]; decide)
  have hplaylists := filter_ne_of_letter hs.playlists (by rw [hletter]; decide)
  have hinvariant : (s.removeRecord key).catalog.Invariant :=
    hs.removeRecord (by rw [hletter]; decide)
  have hremoved : Removed s key
      { s.removeRecord key with streams := s.streams.erase key } :=
    ⟨rfl, htracks.symm ▸ .refl _, hplaylists.symm, hs.streamsOnce.erase_eq_filter key, rfl⟩
  refine ⟨.noErr, _, ?_, hremoved, hremoved.orderly hs hinvariant⟩
  unfold removeStream
  rw [hs.working, hread]
  rfl

theorem remove_spec (hs : Orderly s) (hkey : Removable s key) :
    ∃ t, s.drop key = .ok t ∧ Removed s key t ∧ Orderly t := by
  have hvalue : s.database.value key ≠ none := by
    intro hnone
    unfold Removable letter at hkey
    rw [hnone] at hkey
    rcases hkey with ⟨hletter, -⟩ | ⟨hletter | hletter, -⟩ <;> cases hletter
  have hdrop : ∀ (err : Error) (t : ListedCatalog), s.remove key = .ok (err, t) →
      s.drop key = .ok t := by
    intro err t h
    unfold drop
    rw [h]
    rfl
  rcases hkey with ⟨hletter, hlisted⟩ | ⟨hletter | hletter, m, hread⟩
  · obtain ⟨err, t, hremove, hremoved⟩ := remove_playlist hs hletter hlisted
    refine ⟨t, hdrop err t ?_, hremoved⟩
    unfold remove
    rw [hs.working, hletter, hremove]
    simp [hvalue]
  · obtain ⟨err, t, hremove, hremoved⟩ := remove_song hs hletter hread
    refine ⟨t, hdrop err t ?_, hremoved⟩
    unfold remove
    rw [hs.working, hletter, hremove]
    simp [hvalue]
  · obtain ⟨err, t, hremove, hremoved⟩ := remove_stream hs hletter hread
    refine ⟨t, hdrop err t ?_, hremoved⟩
    unfold remove
    rw [hs.working, hletter, hremove]
    simp [hvalue]

/-! ## The whole loop -/

variable {order : KeyOrder} {doomed : Text → Bool}

theorem mem_keys (order : KeyOrder) :
    key ∈ keys order s ↔ key ∈ s.database.keys ∧ key ≠ databaseVersionKey := by
  unfold keys KeyOrder.nextKeys
  rw [List.mem_filter, (order.perm s.database).mem_iff, bne_iff_ne]

theorem nodup_keys (order : KeyOrder) (s : ListedCatalog) : (keys order s).Nodup :=
  (((order.perm s.database).nodup_iff).mpr s.database.distinct).filter _

/-- Without the key there is one key less to go through. -/
theorem keys_of_remove (hdatabase : t.database = s.database.remove key) :
    (keys order t).Perm ((keys order s).filter (· != key)) := by
  have hkeys : t.database.keys = s.database.keys.filter (· != key) := by
    rw [hdatabase]
    unfold Database.keys
    rw [List.filter_map]
    rfl
  have ht := (order.perm t.database).filter (· != databaseVersionKey)
  have hs := ((order.perm s.database).filter (· != databaseVersionKey)).filter (· != key)
  rw [hkeys] at ht
  refine ht.trans (List.Perm.trans ?_ hs.symm)
  rw [List.filter_filter, List.filter_filter]
  exact .of_eq (List.filter_congr fun url _ => Bool.and_comm _ _)

theorem length_keys_lt (hdatabase : t.database = s.database.remove key)
    (hkey : key ∈ keys order s) : (keys order t).length < (keys order s).length := by
  rw [(keys_of_remove hdatabase).length_eq]
  exact List.length_filter_lt_length_iff_exists.mpr ⟨key, hkey, by simp⟩

theorem mem_keys_of_letter {url : Text} {c : UInt8} (h : s.letter url = some c) :
    url ∈ s.database.keys := by
  by_contra hnot
  unfold letter Database.value at h
  rw [Database.lookup_eq_none_of_not_mem _ hnot] at h
  cases h

/-- A key that can be removed still can when another one is gone. -/
theorem Removed.removable (h : Removed s key t) {other : Text} (hne : other ≠ key)
    (hother : Removable s other) : Removable t other := by
  have hread : readMetaDataFromDatabase t.database other =
      readMetaDataFromDatabase s.database other := by
    rw [h.database]
    exact readMetaDataFromDatabase_congr rfl (Database.value_remove_of_ne _ hne)
  unfold Removable
  rw [letter_of_remove h.database hne, hread]
  rcases hother with ⟨hletter, hlisted⟩ | hother
  · refine .inl ⟨hletter, fun hmem => hlisted ?_⟩
    rw [h.playlists] at hmem
    exact List.mem_of_mem_filter hmem
  · exact .inr hother

/-- The catalog is orderly, and what the loop removes can be removed. -/
structure Ready (order : KeyOrder) (doomed : Text → Bool) (s : ListedCatalog) : Prop where
  orderly : Orderly s
  removable : ∀ key ∈ keys order s, doomed key = true → Removable s key

theorem Ready.remove (h : Ready order doomed s) (hkey : key ∈ keys order s)
    (hdoomed : doomed key = true) :
    ∃ t, s.drop key = .ok t ∧ Removed s key t ∧ Ready order doomed t := by
  obtain ⟨t, hdrop, hremoved, horderly⟩ := remove_spec h.orderly (h.removable key hkey hdoomed)
  refine ⟨t, hdrop, hremoved, horderly, fun other hother hgoes => ?_⟩
  obtain ⟨hmem, hne⟩ := List.mem_filter.mp ((keys_of_remove hremoved.database).mem_iff.mp hother)
  exact hremoved.removable (bne_iff_ne.mp hne) (h.removable other hmem hgoes)

theorem filter_cons_removed {α : Type} (f : α → Text) (l : List α) (key : Text)
    (removed : List Text) :
    (l.filter fun a => f a != key).filter (fun a => !decide (f a ∈ removed)) =
      l.filter fun a => !decide (f a ∈ key :: removed) := by
  rw [List.filter_filter]
  apply List.filter_congr
  intro a _
  by_cases hkey : f a = key
  · simp [hkey]
  · simp [hkey]

theorem Pruned.cons {u : ListedCatalog} {removed : List Text} (h : Removed s key u)
    (h' : Pruned (fun url => decide (url ∈ removed)) u t) :
    Pruned (fun url => decide (url ∈ key :: removed)) s t where
  entries := by
    rw [h'.entries, h.database]
    exact filter_cons_removed Prod.fst _ _ _
  tracks := by
    refine h'.tracks.trans ((h.tracks.filter _).trans (.of_eq ?_))
    exact filter_cons_removed id _ _ _
  playlists := by
    rw [h'.playlists, h.playlists]
    exact filter_cons_removed id _ _ _
  streams := by
    rw [h'.streams, h.streams]
    exact filter_cons_removed id _ _ _
  counted := h'.counted.trans h.counted

theorem pruned_nil (s : ListedCatalog) : Pruned (fun url => decide (url ∈ [])) s s where
  entries := (List.filter_eq_self.mpr fun _ _ => rfl).symm
  tracks := .of_eq (List.filter_eq_self.mpr fun _ _ => rfl).symm
  playlists := (List.filter_eq_self.mpr fun _ _ => rfl).symm
  streams := (List.filter_eq_self.mpr fun _ _ => rfl).symm
  counted := rfl

theorem pruned_of_run {removed : List Text}
    (hrun : Run (Removal (keys order) doomed drop) s removed t) (h : Ready order doomed s) :
    Pruned (fun url => decide (url ∈ removed)) s t := by
  induction hrun with
  | refl s => exact pruned_nil s
  | cons first _ ih =>
    obtain ⟨hdoomed, hmem, hdrop⟩ := first
    obtain ⟨u, hu, hremoved, hready⟩ := h.remove hmem hdoomed
    obtain rfl := Except.ok.inj (hu.symm.trans hdrop)
    exact .cons hremoved (ih hready)

theorem doomed_of_run {removed : List Text}
    (hrun : Run (Removal (keys order) doomed drop) s removed t) :
    ∀ url ∈ removed, doomed url = true := by
  induction hrun with
  | refl _ => nofun
  | cons first _ ih =>
    intro url hmem
    rcases List.mem_cons.mp hmem with rfl | hmem
    · exact first.1
    · exact ih url hmem

theorem Pruned.congr {gone gone' : Text → Bool} (hs : Orderly s)
    (hsame : ∀ url ∈ s.database.keys, gone url = gone' url) (h : Pruned gone s t) :
    Pruned gone' s t where
  entries := by
    rw [h.entries]
    exact List.filter_congr fun e he => by rw [hsame e.1 (List.mem_map_of_mem he)]
  tracks := by
    refine h.tracks.trans (.of_eq (List.filter_congr fun url hurl => ?_))
    rw [hsame url (mem_keys_of_letter (hs.tracks url hurl))]
  playlists := by
    rw [h.playlists]
    exact List.filter_congr fun url hurl => by
      rw [hsame url (mem_keys_of_letter (hs.playlists url hurl))]
  streams := by
    rw [h.streams]
    exact List.filter_congr fun url hurl => by
      rw [hsame url (mem_keys_of_letter (hs.streams url hurl))]
  counted := h.counted

/-- The loop ends, and has removed the keys that were to go. -/
theorem prunes_of_ready (hversion : doomed databaseVersionKey = false)
    (h : Ready order doomed s) :
    Prunes (fun rounds s => sweep (keys order) doomed drop rounds (nextKey (keys order s) none) s)
      doomed s := by
  have hremove : ∀ s key, Ready order doomed s → key ∈ keys order s → doomed key = true →
      ∃ t, s.drop key = .ok t ∧ Ready order doomed t ∧
        (keys order t).length < (keys order s).length := by
    intro s key hs hkey hdoomed
    obtain ⟨t, hdrop, hremoved, hready⟩ := hs.remove hkey hdoomed
    exact ⟨t, hdrop, hready, length_keys_lt hremoved.database hkey⟩
  obtain ⟨rounds, removed, t, hsweep, hrun, hgone⟩ :=
    sweep_ends (fun s => nodup_keys order s) hremove s h
  have hpruned := pruned_of_run hrun h
  refine ⟨rounds, t, hsweep, hpruned.congr h.orderly ?_⟩
  intro url hurl
  cases hdoomed : doomed url with
  | false =>
    rw [decide_eq_false_iff_not]
    intro hmem
    rw [doomed_of_run hrun url hmem] at hdoomed
    cases hdoomed
  | true =>
    rw [decide_eq_true_iff]
    by_contra hnot
    have hstays : url ∈ t.database.keys := by
      obtain ⟨e, he, rfl⟩ := List.mem_map.mp hurl
      refine List.mem_map_of_mem ?_
      rw [hpruned.entries]
      exact List.mem_filter.mpr ⟨he, by simpa using hnot⟩
    have hne : url ≠ databaseVersionKey := by
      rintro rfl
      rw [hversion] at hdoomed
      cases hdoomed
    rw [hgone url ((mem_keys order).mpr ⟨hstays, hne⟩)] at hdoomed
    cases hdoomed

/-! ## Both functions -/

section Both

variable {directory : Text} {missing : Text → Bool}

theorem isPrefixOf_of_within {path : Text} (h : within directory path = true) :
    directory.isPrefixOf path = true := by
  unfold within at h
  rw [List.isPrefixOf_iff_prefix] at h ⊢
  split at h
  · exact h
  · exact (List.prefix_append directory [dirMarker]).trans h

theorem stale_of_staleIn (h : staleIn directory missing key = true) :
    stale missing key = true := by
  unfold staleIn at h
  unfold stale
  split at h
  · exact (Bool.and_eq_true_iff.mp h).2
  · cases h

theorem filePath_version : filePath databaseVersionKey = none := by decide

end Both

def onePlaylist (key : Text) : ListedCatalog :=
  ⟨.initial (Database.empty.insert key (bytes "P")), [key], []⟩

theorem ready_onePlaylist (order : KeyOrder) (doomed : Text → Bool) {key : Text}
    (hcurrent : firstPlace (bytes "currentlist.m3u") key = none) :
    Ready order doomed (onePlaylist key) := by
  have hletter : (onePlaylist key).letter key = some 80 := by
    show ((Database.empty.insert key (bytes "P")).value key).bind List.head? = some 80
    rw [Database.value_insert_self]
    decide
  refine ⟨⟨invariant_initial _, rfl, nofun, ?_, nofun, List.nodup_singleton key, List.nodup_nil⟩,
    ?_⟩
  · intro url hurl
    rw [List.mem_singleton.mp hurl]
    exact hletter
  · intro url hurl _
    obtain rfl : url = key := List.mem_singleton.mp ((mem_keys order).mp hurl).1
    exact .inl ⟨hletter, fun _ => hcurrent⟩

end ListedCatalog

end FreeAmp.Base
