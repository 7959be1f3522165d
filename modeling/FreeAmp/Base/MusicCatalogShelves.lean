/-
  Base/MusicCatalogShelves.lean --- the tree of artists, albums and tracks.

  The names in the tree are pairwise different, so a search by name ends at one place at
  most.  For the two insertions and the two removals this file says where they end and
  what they leave:

      addToArtists_spec       a track is there already, or there is one more
      removeFromArtists_spec  a track is not there, or there is one less
-/
import FreeAmp.Base.MusicCatalog
import Mathlib.Data.List.Nodup

namespace FreeAmp.Base

open FreeAmp.Lib MusicCatalog

/-! ## Names -/

/-- A name as `CaseCompare` sees it. -/
def upper (s : Text) : Text := s.map toUpper

theorem caseCompare_iff {s t : Text} : caseCompare s t = true ↔ upper s = upper t := by
  unfold caseCompare upper
  induction s generalizing t with
  | nil => cases t <;> simp
  | cons c s ih =>
    cases t with
    | nil => simp
    | cons d t =>
      have hrest := @ih t
      simp only [Bool.and_eq_true, beq_iff_eq] at hrest
      simp only [List.length_cons, List.zip_cons_cons, List.all_cons, Bool.and_eq_true,
        beq_iff_eq, List.map_cons, List.cons.injEq, ← hrest]
      constructor
      · rintro ⟨hlen, hhead, htail⟩
        exact ⟨hhead, Nat.succ.inj hlen, htail⟩
      · rintro ⟨hhead, hlen, htail⟩
        exact ⟨congrArg Nat.succ hlen, hhead, htail⟩

theorem caseCompare_refl (s : Text) : caseCompare s s = true := caseCompare_iff.mpr rfl

theorem caseCompare_congr {s t u : Text} (h : caseCompare s t = true) :
    caseCompare s u = caseCompare t u := by
  rw [Bool.eq_iff_iff, caseCompare_iff, caseCompare_iff, caseCompare_iff.mp h]

section Named

variable {α : Type} {name : α → Text}

/-- The names are pairwise different. -/
def Named (name : α → Text) (l : List α) : Prop := (l.map fun a => upper (name a)).Nodup

theorem Named.split {l : List α} (h : Named name l) (n : Text) :
    (∀ a ∈ l, caseCompare n (name a) = false) ∨
      ∃ before a after, l = before ++ a :: after ∧ caseCompare n (name a) = true ∧
        (∀ b ∈ before, caseCompare n (name b) = false) ∧
        ∀ b ∈ after, caseCompare n (name b) = false := by
  by_cases hfound : ∃ a ∈ l, caseCompare n (name a) = true
  · right
    obtain ⟨a, ha, hname⟩ := hfound
    obtain ⟨before, after, rfl⟩ := List.append_of_mem ha
    unfold Named at h
    rw [List.map_append, List.map_cons, List.nodup_append] at h
    obtain ⟨-, hafter, hbefore⟩ := h
    refine ⟨before, a, after, rfl, hname, fun b hb => ?_, fun b hb => ?_⟩
    · rw [caseCompare_congr hname, Bool.eq_false_iff, Ne, caseCompare_iff]
      intro heq
      exact hbefore _ (List.mem_map_of_mem hb) _ List.mem_cons_self heq.symm
    · rw [caseCompare_congr hname, Bool.eq_false_iff, Ne, caseCompare_iff]
      intro heq
      apply (List.nodup_cons.mp hafter).1
      rw [heq]
      exact List.mem_map_of_mem hb
  · left
    intro a ha
    rw [Bool.eq_false_iff]
    exact fun hname => hfound ⟨a, ha, hname⟩

theorem Named.replace {before after : List α} {a b : α} (h : Named name (before ++ a :: after))
    (hname : name b = name a) : Named name (before ++ b :: after) := by
  unfold Named at h ⊢
  rw [List.map_append, List.map_cons] at h ⊢
  rw [hname]
  exact h

theorem Named.concat {l : List α} {a : α} (h : Named name l)
    (hnew : ∀ b ∈ l, caseCompare (name a) (name b) = false) : Named name (l ++ [a]) := by
  unfold Named at h ⊢
  rw [List.map_append, List.nodup_append]
  refine ⟨h, List.nodup_singleton _, ?_⟩
  intro x hx y hy heq
  obtain ⟨b, hb, rfl⟩ := List.mem_map.mp hx
  obtain rfl := List.mem_singleton.mp hy
  have hfalse := hnew b hb
  rw [Bool.eq_false_iff] at hfalse
  exact hfalse (caseCompare_iff.mpr heq.symm)

theorem Named.sublist {l l' : List α} (h : Named name l) (hsub : l'.Sublist l) :
    Named name l' :=
  List.Nodup.sublist (hsub.map _) h

theorem named_iff {l : List α} :
    Named name l ↔ l.Pairwise fun a b => caseCompare (name a) (name b) = false := by
  unfold Named List.Nodup
  rw [List.pairwise_map]
  constructor <;> refine List.Pairwise.imp fun {a b} hab => ?_
  · rw [Bool.eq_false_iff]
    exact fun heq => hab (caseCompare_iff.mp heq)
  · intro heq
    rw [caseCompare_iff.mpr heq] at hab
    exact absurd hab nofun

end Named

/-! ## Albums -/

/-- The albums of an artist as they ought to be. -/
structure AlbumShelf (albums : List AlbumList) : Prop where
  names : Named AlbumList.name albums
  tracks : ∀ b ∈ albums, b.trackList ≠ []

/-- The tracks on all of the albums. -/
def albumTracks (albums : List AlbumList) : List Text := albums.flatMap AlbumList.trackList

/-- The track is on an album of that name. -/
def OnAlbum (albums : List AlbumList) (name url : Text) : Prop :=
  ∃ b ∈ albums, b.name = name ∧ url ∈ b.trackList

theorem mem_albumTracks {albums : List AlbumList} {url : Text} :
    url ∈ albumTracks albums ↔ ∃ name, OnAlbum albums name url := by
  unfold albumTracks OnAlbum
  rw [List.mem_flatMap]
  constructor
  · rintro ⟨b, hb, hurl⟩
    exact ⟨b.name, b, hb, rfl, hurl⟩
  · rintro ⟨name, b, hb, -, hurl⟩
    exact ⟨b, hb, hurl⟩

theorem albumTracks_append_cons (before after : List AlbumList) (b : AlbumList) :
    albumTracks (before ++ b :: after) =
      albumTracks before ++ (b.trackList ++ albumTracks after) := by
  unfold albumTracks
  rw [List.flatMap_append, List.flatMap_cons]

/-- What adding a track to the albums of an artist leaves. -/
structure AlbumAdded (album url : Text) (albums albums' : List AlbumList) : Prop where
  shelf : AlbumShelf albums'
  nonempty : albums' ≠ []
  perm : (albumTracks albums').Perm (url :: albumTracks albums)
  sits : ∀ name u, OnAlbum albums' name u →
    (u = url ∧ caseCompare album name = true) ∨ OnAlbum albums name u

theorem addToAlbums_of_not (album url : Text) {albums : List AlbumList}
    (h : ∀ b ∈ albums, caseCompare album b.name = false) :
    addToAlbums album url albums = (albums ++ [⟨album, [url]⟩], .newAlbum) := by
  induction albums with
  | nil => rfl
  | cons b albums ih =>
    rw [List.forall_mem_cons] at h
    simp only [addToAlbums, h.1, Bool.false_eq_true, if_false, ih h.2, List.cons_append]

theorem addToAlbums_split (album url : Text) {before after : List AlbumList} {b : AlbumList}
    (hbefore : ∀ a ∈ before, caseCompare album a.name = false)
    (hname : caseCompare album b.name = true) :
    addToAlbums album url (before ++ b :: after) =
      if url ∈ b.trackList then (before ++ b :: after, .duplicate)
      else (before ++ { b with trackList := b.trackList ++ [url] } :: after, .pushed) := by
  induction before with
  | nil =>
    simp only [List.nil_append, addToAlbums, hname, if_true]
  | cons a before ih =>
    rw [List.forall_mem_cons] at hbefore
    simp only [List.cons_append, addToAlbums, hbefore.1, Bool.false_eq_true, if_false,
      ih hbefore.2]
    split <;> rfl

theorem onAlbum_append_cons {before after : List AlbumList} {b : AlbumList} {name u : Text} :
    OnAlbum (before ++ b :: after) name u ↔
      OnAlbum before name u ∨ (b.name = name ∧ u ∈ b.trackList) ∨ OnAlbum after name u := by
  unfold OnAlbum
  constructor
  · rintro ⟨a, ha, hname, hu⟩
    rcases List.mem_append.mp ha with ha | ha
    · exact .inl ⟨a, ha, hname, hu⟩
    · rcases List.mem_cons.mp ha with rfl | ha
      · exact .inr (.inl ⟨hname, hu⟩)
      · exact .inr (.inr ⟨a, ha, hname, hu⟩)
  · rintro (⟨a, ha, hname, hu⟩ | ⟨hname, hu⟩ | ⟨a, ha, hname, hu⟩)
    · exact ⟨a, List.mem_append_left _ ha, hname, hu⟩
    · exact ⟨b, List.mem_append_right _ List.mem_cons_self, hname, hu⟩
    · exact ⟨a, List.mem_append_right _ (List.mem_cons_of_mem _ ha), hname, hu⟩

theorem onAlbum_nil {name u : Text} : ¬ OnAlbum [] name u := by
  rintro ⟨b, hb, -⟩
  exact absurd hb List.not_mem_nil

/-- Where the loop over the albums ends, and what it leaves. -/
theorem addToAlbums_spec (album url : Text) {albums : List AlbumList} (h : AlbumShelf albums) :
    (addToAlbums album url albums = (albums, .duplicate) ∧
        ∃ b ∈ albums, caseCompare album b.name = true ∧ url ∈ b.trackList) ∨
      ∃ albums' how, addToAlbums album url albums = (albums', how) ∧ how ≠ .duplicate ∧
        (how = .pushed ↔ ∃ b ∈ albums, caseCompare album b.name = true) ∧
        (∀ b ∈ albums, caseCompare album b.name = true → url ∉ b.trackList) ∧
        AlbumAdded album url albums albums' := by
  rcases h.names.split album with hnone | ⟨before, b, after, rfl, hname, hbefore, hafter⟩
  · right
    have hno : ∀ b ∈ albums, ¬ caseCompare album b.name = true := by
      intro b hb
      rw [hnone b hb]
      exact Bool.false_ne_true
    refine ⟨_, _, addToAlbums_of_not album url hnone, nofun, ⟨nofun, ?_⟩, ?_, ?_⟩
    · rintro ⟨b, hb, hname⟩
      exact absurd hname (hno b hb)
    · exact fun b hb hname => absurd hname (hno b hb)
    · refine ⟨⟨h.names.concat hnone, ?_⟩, List.append_ne_nil_of_right_ne_nil _ (List.cons_ne_nil _ _),
        ?_, ?_⟩
      · intro b hb
        rcases List.mem_append.mp hb with hb | hb
        · exact h.tracks b hb
        · rw [List.mem_singleton.mp hb]
          exact List.cons_ne_nil _ _
      · rw [albumTracks_append_cons]
        exact List.perm_append_singleton url _
      · intro name u hu
        rcases onAlbum_append_cons.mp hu with hold | ⟨rfl, hnew⟩ | hnil
        · exact .inr hold
        · exact .inl ⟨List.mem_singleton.mp hnew, caseCompare_refl _⟩
        · exact absurd hnil onAlbum_nil
  · have hmem : b ∈ before ++ b :: after := List.mem_append_right _ List.mem_cons_self
    rw [addToAlbums_split album url hbefore hname]
    by_cases hurl : url ∈ b.trackList
    · left
      rw [if_pos hurl]
      exact ⟨rfl, b, hmem, hname, hurl⟩
    · right
      rw [if_neg hurl]
      refine ⟨_, _, rfl, nofun, ⟨fun _ => ⟨b, hmem, hname⟩, fun _ => rfl⟩, ?_, ?_⟩
      · intro a ha hmatch
        rcases List.mem_append.mp ha with ha | ha
        · rw [hbefore a ha] at hmatch
          exact absurd hmatch nofun
        · rcases List.mem_cons.mp ha with rfl | ha
          · exact hurl
          · rw [hafter a ha] at hmatch
            exact absurd hmatch nofun
      · refine ⟨⟨h.names.replace rfl, ?_⟩, List.append_ne_nil_of_right_ne_nil _ (List.cons_ne_nil _ _),
          ?_, ?_⟩
        · intro a ha
          rcases List.mem_append.mp ha with ha | ha
          · exact h.tracks a (List.mem_append_left _ ha)
          · rcases List.mem_cons.mp ha with rfl | ha
            · exact List.append_ne_nil_of_right_ne_nil _ (List.cons_ne_nil _ _)
            · exact h.tracks a (List.mem_append_right _ (List.mem_cons_of_mem _ ha))
        · have hpush : (albumTracks before ++ b.trackList ++ url :: albumTracks after).Perm
              (url :: (albumTracks before ++ b.trackList ++ albumTracks after)) :=
            List.perm_middle
          rw [albumTracks_append_cons, albumTracks_append_cons]
          simpa only [List.append_assoc, List.singleton_append] using hpush
        · intro name u hu
          rcases onAlbum_append_cons.mp hu with hu | ⟨rfl, htrack⟩ | hu
          · exact .inr (onAlbum_append_cons.mpr (.inl hu))
          · rcases List.mem_append.mp htrack with hold | hnew
            · exact .inr (onAlbum_append_cons.mpr (.inr (.inl ⟨rfl, hold⟩)))
            · exact .inl ⟨List.mem_singleton.mp hnew, hname⟩
          · exact .inr (onAlbum_append_cons.mpr (.inr (.inr hu)))

/-! ## Artists -/

/-- The artists as they ought to be. -/
structure Shelves (artists : List ArtistList) : Prop where
  names : Named ArtistList.name artists
  albums : ∀ a ∈ artists, AlbumShelf a.albumList
  nonempty : ∀ a ∈ artists, a.albumList ≠ []

/-- The tracks of all of the artists. -/
def sortedTracks (artists : List ArtistList) : List Text :=
  artists.flatMap fun a => albumTracks a.albumList

/-- The track sits under an artist and an album of these names. -/
def Sits (artists : List ArtistList) (artist album url : Text) : Prop :=
  ∃ a ∈ artists, a.name = artist ∧ OnAlbum a.albumList album url

/-- The track sits under an artist and an album of such names. -/
def Filed (artists : List ArtistList) (artist album url : Text) : Prop :=
  ∃ name albumName, caseCompare artist name = true ∧ caseCompare album albumName = true ∧
    Sits artists name albumName url

/-- There are an artist and an album of such names. -/
def HasAlbum (artists : List ArtistList) (artist album : Text) : Prop :=
  ∃ a ∈ artists, caseCompare artist a.name = true ∧
    ∃ b ∈ a.albumList, caseCompare album b.name = true

instance (artists : List ArtistList) (artist album : Text) :
    Decidable (HasAlbum artists artist album) :=
  inferInstanceAs (Decidable (∃ a ∈ artists, caseCompare artist a.name = true ∧
    ∃ b ∈ a.albumList, caseCompare album b.name = true))

theorem mem_sortedTracks {artists : List ArtistList} {url : Text} :
    url ∈ sortedTracks artists ↔ ∃ artist album, Sits artists artist album url := by
  unfold sortedTracks Sits
  rw [List.mem_flatMap]
  constructor
  · rintro ⟨a, ha, hurl⟩
    obtain ⟨album, halbum⟩ := mem_albumTracks.mp hurl
    exact ⟨a.name, album, a, ha, rfl, halbum⟩
  · rintro ⟨artist, album, a, ha, -, halbum⟩
    exact ⟨a, ha, mem_albumTracks.mpr ⟨album, halbum⟩⟩

theorem sortedTracks_append_cons (before after : List ArtistList) (a : ArtistList) :
    sortedTracks (before ++ a :: after) =
      sortedTracks before ++ (albumTracks a.albumList ++ sortedTracks after) := by
  unfold sortedTracks
  rw [List.flatMap_append, List.flatMap_cons]

theorem sits_append_cons {before after : List ArtistList} {a : ArtistList}
    {artist album u : Text} :
    Sits (before ++ a :: after) artist album u ↔
      Sits before artist album u ∨ (a.name = artist ∧ OnAlbum a.albumList album u) ∨
        Sits after artist album u := by
  unfold Sits
  constructor
  · rintro ⟨b, hb, hname, hu⟩
    rcases List.mem_append.mp hb with hb | hb
    · exact .inl ⟨b, hb, hname, hu⟩
    · rcases List.mem_cons.mp hb with rfl | hb
      · exact .inr (.inl ⟨hname, hu⟩)
      · exact .inr (.inr ⟨b, hb, hname, hu⟩)
  · rintro (⟨b, hb, hname, hu⟩ | ⟨hname, hu⟩ | ⟨b, hb, hname, hu⟩)
    · exact ⟨b, List.mem_append_left _ hb, hname, hu⟩
    · exact ⟨a, List.mem_append_right _ List.mem_cons_self, hname, hu⟩
    · exact ⟨b, List.mem_append_right _ (List.mem_cons_of_mem _ hb), hname, hu⟩

/-- Another artist in the place of one of the same name. -/
theorem Shelves.replace {before after : List ArtistList} {a : ArtistList}
    {albums : List AlbumList} (h : Shelves (before ++ a :: after)) (halbums : AlbumShelf albums)
    (hne : albums ≠ []) : Shelves (before ++ { a with albumList := albums } :: after) := by
  have hall : ∀ b ∈ before ++ { a with albumList := albums } :: after,
      b ∈ before ++ a :: after ∨ b = { a with albumList := albums } := by
    intro b hb
    rcases List.mem_append.mp hb with hb | hb
    · exact .inl (List.mem_append_left _ hb)
    · rcases List.mem_cons.mp hb with rfl | hb
      · exact .inr rfl
      · exact .inl (List.mem_append_right _ (List.mem_cons_of_mem _ hb))
  refine ⟨h.names.replace rfl, fun b hb => ?_, fun b hb => ?_⟩
  · rcases hall b hb with hold | rfl
    · exact h.albums b hold
    · exact halbums
  · rcases hall b hb with hold | rfl
    · exact h.nonempty b hold
    · exact hne

/-- What adding a track to the artists leaves. -/
structure TrackAdded (artist album url : Text) (artists artists' : List ArtistList) : Prop where
  shelves : Shelves artists'
  perm : (sortedTracks artists').Perm (url :: sortedTracks artists)
  sits : ∀ name albumName u, Sits artists' name albumName u →
    (u = url ∧ caseCompare artist name = true ∧ caseCompare album albumName = true) ∨
      Sits artists name albumName u

theorem addToArtists_of_not (artist album url : Text) {artists : List ArtistList}
    (h : ∀ a ∈ artists, caseCompare artist a.name = false) (foundArtist : Bool) :
    addToArtists artist album url foundArtist artists =
      (if foundArtist then artists else artists ++ [⟨artist, [⟨album, [url]⟩]⟩], 0, false) := by
  induction artists with
  | nil => cases foundArtist <;> rfl
  | cons a artists ih =>
    rw [List.forall_mem_cons] at h
    simp only [addToArtists, h.1, Bool.false_eq_true, if_false, ih h.2]
    cases foundArtist <;> rfl

theorem addToArtists_split (artist album url : Text) {before after : List ArtistList}
    {a : ArtistList} (hbefore : ∀ b ∈ before, caseCompare artist b.name = false)
    (hname : caseCompare artist a.name = true)
    (hafter : ∀ b ∈ after, caseCompare artist b.name = false) :
    addToArtists artist album url false (before ++ a :: after) =
      match addToAlbums album url a.albumList with
      | (_, .duplicate) => (before ++ a :: after, 0, true)
      | (albums, .newAlbum) => (before ++ { a with albumList := albums } :: after, 0, false)
      | (albums, .pushed) => (before ++ { a with albumList := albums } :: after, 1, false) := by
  induction before with
  | nil =>
    simp only [List.nil_append, addToArtists, hname, if_true,
      addToArtists_of_not artist album url hafter]
    cases addToAlbums album url a.albumList with
    | mk albums how => cases how <;> rfl
  | cons b before ih =>
    rw [List.forall_mem_cons] at hbefore
    simp only [List.cons_append, addToArtists, hbefore.1, Bool.false_eq_true, if_false,
      ih hbefore.2]
    cases addToAlbums album url a.albumList with
    | mk albums how => cases how <;> rfl

/-- Where a track of a given artist and album can sit, when the artist is known. -/
theorem filed_split {artist album url : Text} {before after : List ArtistList} {a : ArtistList}
    (hbefore : ∀ b ∈ before, caseCompare artist b.name = false)
    (hafter : ∀ b ∈ after, caseCompare artist b.name = false)
    (h : Filed (before ++ a :: after) artist album url) :
    ∃ b ∈ a.albumList, caseCompare album b.name = true ∧ url ∈ b.trackList := by
  obtain ⟨name, albumName, hname, halbum, hsits⟩ := h
  rcases sits_append_cons.mp hsits with ⟨b, hb, rfl, -⟩ | ⟨-, hon⟩ | ⟨b, hb, rfl, -⟩
  · rw [hbefore b hb] at hname
    exact absurd hname nofun
  · obtain ⟨b, hb, rfl, hurl⟩ := hon
    exact ⟨b, hb, halbum, hurl⟩
  · rw [hafter b hb] at hname
    exact absurd hname nofun

/-- The track is there already, or there is one more, and it is counted when its album was
there. -/
theorem addToArtists_spec (artist album url : Text) {artists : List ArtistList}
    (h : Shelves artists) :
    (addToArtists artist album url false artists = (artists, 0, true) ∧
        Filed artists artist album url) ∨
      ∃ artists', addToArtists artist album url false artists =
          (artists', if HasAlbum artists artist album then 1 else 0, false) ∧
        ¬ Filed artists artist album url ∧ TrackAdded artist album url artists artists' := by
  rcases h.names.split artist with hnone | ⟨before, a, after, rfl, hname, hbefore, hafter⟩
  · right
    have hno : ∀ a ∈ artists, ¬ caseCompare artist a.name = true := by
      intro a ha
      rw [hnone a ha]
      exact Bool.false_ne_true
    have halbum : ¬ HasAlbum artists artist album :=
      fun ⟨a, ha, hname, _⟩ => hno a ha hname
    rw [if_neg halbum]
    refine ⟨_, addToArtists_of_not artist album url hnone false, ?_, ⟨?_, ?_, ?_⟩⟩
    · rintro ⟨name, albumName, hname, -, a, ha, rfl, -⟩
      exact hno a ha hname
    · have hnew : AlbumShelf [⟨album, [url]⟩] := by
        refine ⟨List.nodup_singleton _, fun b hb => ?_⟩
        rw [List.mem_singleton.mp hb]
        exact List.cons_ne_nil _ _
      refine ⟨h.names.concat hnone, fun a ha => ?_, fun a ha => ?_⟩
      · rcases List.mem_append.mp ha with ha | ha
        · exact h.albums a ha
        · rw [List.mem_singleton.mp ha]
          exact hnew
      · rcases List.mem_append.mp ha with ha | ha
        · exact h.nonempty a ha
        · rw [List.mem_singleton.mp ha]
          exact List.cons_ne_nil _ _
    · show (sortedTracks (artists ++ [_])).Perm _
      rw [sortedTracks_append_cons]
      exact List.perm_append_singleton url _
    · intro name albumName u hu
      rcases sits_append_cons.mp hu with hold | ⟨rfl, b, hb, rfl, hnew⟩ | ⟨b, hb, -⟩
      · exact .inr hold
      · obtain rfl := List.mem_singleton.mp hb
        exact .inl ⟨List.mem_singleton.mp hnew, caseCompare_refl _, caseCompare_refl _⟩
      · exact absurd hb List.not_mem_nil
  · have hmem : a ∈ before ++ a :: after := List.mem_append_right _ List.mem_cons_self
    rw [addToArtists_split artist album url hbefore hname hafter]
    have hhas : HasAlbum (before ++ a :: after) artist album ↔
        ∃ b ∈ a.albumList, caseCompare album b.name = true := by
      constructor
      · rintro ⟨b, hb, hmatch, hon⟩
        rcases List.mem_append.mp hb with hb | hb
        · rw [hbefore b hb] at hmatch
          exact absurd hmatch nofun
        · rcases List.mem_cons.mp hb with rfl | hb
          · exact hon
          · rw [hafter b hb] at hmatch
            exact absurd hmatch nofun
      · exact fun hon => ⟨a, hmem, hname, hon⟩
    rcases addToAlbums_spec album url (h.albums a hmem) with
      ⟨hadd, b, hb, halbum, hurl⟩ | ⟨albums', how, hadd, hdup, hpushed, hfresh, hadded⟩
    · left
      rw [hadd]
      exact ⟨rfl, a.name, b.name, hname, halbum, a, hmem, rfl, b, hb, rfl, hurl⟩
    · right
      refine ⟨before ++ { a with albumList := albums' } :: after, ?_, ?_, ⟨?_, ?_, ?_⟩⟩
      · rw [hadd]
        cases how with
        | duplicate => exact absurd rfl hdup
        | pushed => rw [if_pos (hhas.mpr (hpushed.mp rfl))]
        | newAlbum =>
          rw [if_neg]
          intro hhas'
          exact absurd (hpushed.mpr (hhas.mp hhas')) nofun
      · intro hfiled
        obtain ⟨b, hb, halbum, hurl⟩ := filed_split hbefore hafter hfiled
        exact hfresh b hb halbum hurl
      · exact h.replace hadded.shelf hadded.nonempty
      · have hpush : (sortedTracks before ++ url :: (albumTracks a.albumList ++
            sortedTracks after)).Perm (url :: (sortedTracks before ++
              (albumTracks a.albumList ++ sortedTracks after))) := List.perm_middle
        rw [sortedTracks_append_cons, sortedTracks_append_cons]
        refine List.Perm.trans ?_ hpush
        exact (hadded.perm.append_right _).append_left _
      · intro name albumName u hu
        rcases sits_append_cons.mp hu with hu | ⟨rfl, hon⟩ | hu
        · exact .inr (sits_append_cons.mpr (.inl hu))
        · rcases hadded.sits albumName u hon with ⟨rfl, halbum⟩ | hold
          · exact .inl ⟨rfl, hname, halbum⟩
          · exact .inr (sits_append_cons.mpr (.inr (.inl ⟨rfl, hold⟩)))
        · exact .inr (sits_append_cons.mpr (.inr (.inr hu)))

/-! ## Removing -/

/-- What removing a track from the albums of an artist leaves. -/
structure AlbumRemoved (url : Text) (albums albums' : List AlbumList) : Prop where
  shelf : AlbumShelf albums'
  perm : (url :: albumTracks albums').Perm (albumTracks albums)
  sits : ∀ name u, OnAlbum albums' name u → OnAlbum albums name u
  keeps : ∀ name u, u ≠ url → OnAlbum albums name u → OnAlbum albums' name u

theorem removeFromAlbums_of_not (album url : Text) {albums : List AlbumList}
    (h : ∀ b ∈ albums, caseCompare album b.name = false) :
    removeFromAlbums album url false albums = .ok (albums, false) := by
  induction albums with
  | nil => rfl
  | cons b albums ih =>
    rw [List.forall_mem_cons] at h
    rw [removeFromAlbums, h.1, Bool.and_false, ih h.2]
    rfl

theorem removeFromAlbums_split (album url : Text) {before after : List AlbumList}
    {b : AlbumList} (hbefore : ∀ a ∈ before, caseCompare album a.name = false)
    (hname : caseCompare album b.name = true) (htracks : b.trackList ≠ [])
    (hafter : ∀ a ∈ after, caseCompare album a.name = false) :
    removeFromAlbums album url false (before ++ b :: after) =
      .ok (if url ∈ b.trackList then
        (before ++ (if b.trackList.erase url = [] then after
          else { b with trackList := b.trackList.erase url } :: after), true)
      else (before ++ b :: after, false)) := by
  induction before with
  | nil =>
    rw [List.nil_append, removeFromAlbums, hname, if_pos (by rfl)]
    by_cases hurl : url ∈ b.trackList
    · rw [if_pos hurl, if_pos hurl]
      rfl
    · rw [if_neg hurl, if_neg hurl, if_neg htracks, removeFromAlbums_of_not album url hafter]
      rfl
  | cons a before ih =>
    rw [List.forall_mem_cons] at hbefore
    rw [List.cons_append, removeFromAlbums, hbefore.1, Bool.and_false, ih hbefore.2]
    show Except.ok _ = Except.ok _
    congr 1
    split <;> rfl

/-- The track is on no album of that name, or there is one less. -/
theorem removeFromAlbums_spec (album url : Text) {albums : List AlbumList}
    (h : AlbumShelf albums) :
    (removeFromAlbums album url false albums = .ok (albums, false) ∧
        ∀ b ∈ albums, caseCompare album b.name = true → url ∉ b.trackList) ∨
      ∃ albums', removeFromAlbums album url false albums = .ok (albums', true) ∧
        AlbumRemoved url albums albums' := by
  rcases h.names.split album with hnone | ⟨before, b, after, rfl, hname, hbefore, hafter⟩
  · left
    refine ⟨removeFromAlbums_of_not album url hnone, fun b hb hmatch => ?_⟩
    rw [hnone b hb] at hmatch
    exact absurd hmatch nofun
  · have hmem : b ∈ before ++ b :: after := List.mem_append_right _ List.mem_cons_self
    rw [removeFromAlbums_split album url hbefore hname (h.tracks b hmem) hafter]
    by_cases hurl : url ∈ b.trackList
    · right
      rw [if_pos hurl]
      have herase := List.perm_cons_erase hurl
      refine ⟨_, rfl, ?_⟩
      have hperm : (url :: (albumTracks before ++ (b.trackList.erase url ++
          albumTracks after))).Perm (albumTracks (before ++ b :: after)) := by
        rw [albumTracks_append_cons]
        refine List.perm_middle.symm.trans ?_
        exact (herase.symm.append_right _).append_left _
      split
      · rename_i hempty
        have hsub : (before ++ after).Sublist (before ++ b :: after) :=
          (List.Sublist.refl before).append (List.sublist_cons_self b after)
        refine ⟨⟨h.names.sublist hsub, fun a ha => h.tracks a (hsub.subset ha)⟩, ?_, ?_, ?_⟩
        · rw [hempty, List.nil_append] at hperm
          unfold albumTracks at hperm ⊢
          rw [List.flatMap_append]
          exact hperm
        · rintro name u ⟨a, ha, hon⟩
          exact ⟨a, hsub.subset ha, hon⟩
        · intro name u hu hon
          rcases onAlbum_append_cons.mp hon with ⟨a, ha, hat⟩ | ⟨-, htrack⟩ | ⟨a, ha, hat⟩
          · exact ⟨a, List.mem_append_left _ ha, hat⟩
          · have hmem := (List.mem_erase_of_ne hu).mpr htrack
            rw [hempty] at hmem
            exact absurd hmem List.not_mem_nil
          · exact ⟨a, List.mem_append_right _ ha, hat⟩
      · rename_i hne
        refine ⟨⟨h.names.replace rfl, fun a ha => ?_⟩, ?_, ?_, ?_⟩
        · rcases List.mem_append.mp ha with ha | ha
          · exact h.tracks a (List.mem_append_left _ ha)
          · rcases List.mem_cons.mp ha with rfl | ha
            · exact hne
            · exact h.tracks a (List.mem_append_right _ (List.mem_cons_of_mem _ ha))
        · rw [albumTracks_append_cons before after { b with trackList := _ }]
          exact hperm
        · intro name u hu
          rcases onAlbum_append_cons.mp hu with hu | ⟨rfl, htrack⟩ | hu
          · exact onAlbum_append_cons.mpr (.inl hu)
          · exact onAlbum_append_cons.mpr (.inr (.inl ⟨rfl, List.mem_of_mem_erase htrack⟩))
          · exact onAlbum_append_cons.mpr (.inr (.inr hu))
        · intro name u hne hu
          rcases onAlbum_append_cons.mp hu with hu | ⟨rfl, htrack⟩ | hu
          · exact onAlbum_append_cons.mpr (.inl hu)
          · exact onAlbum_append_cons.mpr
              (.inr (.inl ⟨rfl, (List.mem_erase_of_ne hne).mpr htrack⟩))
          · exact onAlbum_append_cons.mpr (.inr (.inr hu))
    · left
      rw [if_neg hurl]
      refine ⟨rfl, fun a ha hmatch => ?_⟩
      rcases List.mem_append.mp ha with ha | ha
      · rw [hbefore a ha] at hmatch
        exact absurd hmatch nofun
      · rcases List.mem_cons.mp ha with rfl | ha
        · exact hurl
        · rw [hafter a ha] at hmatch
          exact absurd hmatch nofun

/-- What removing a track from the artists leaves. -/
structure TrackRemoved (url : Text) (artists artists' : List ArtistList) : Prop where
  shelves : Shelves artists'
  perm : (url :: sortedTracks artists').Perm (sortedTracks artists)
  sits : ∀ artist album u, Sits artists' artist album u → Sits artists artist album u
  keeps : ∀ artist album u, u ≠ url → Sits artists artist album u → Sits artists' artist album u

theorem removeFromArtists_of_not (artist album url : Text) {artists : List ArtistList}
    (h : ∀ a ∈ artists, caseCompare artist a.name = false) :
    removeFromArtists artist album url false artists = .ok (artists, false) := by
  induction artists with
  | nil => rfl
  | cons a artists ih =>
    rw [List.forall_mem_cons] at h
    rw [removeFromArtists, h.1, Bool.and_false, ih h.2]
    rfl

theorem removeFromArtists_split (artist album url : Text) {before after : List ArtistList}
    {a : ArtistList} {r : List AlbumList × Bool}
    (hbefore : ∀ b ∈ before, caseCompare artist b.name = false)
    (hname : caseCompare artist a.name = true)
    (hafter : ∀ b ∈ after, caseCompare artist b.name = false)
    (hremove : removeFromAlbums album url false a.albumList = .ok r)
    (hr : r.2 = false → r.1 ≠ []) :
    removeFromArtists artist album url false (before ++ a :: after) =
      .ok (before ++ (if r.1 = [] then after else { a with albumList := r.1 } :: after), r.2) := by
  induction before with
  | nil =>
    rw [List.nil_append, removeFromArtists, hname, if_pos (by rfl), hremove, ok_bind]
    cases hfound : r.2 with
    | true =>
      rw [if_pos rfl]
      rfl
    | false =>
      rw [if_neg Bool.false_ne_true, if_neg (hr hfound), if_neg (hr hfound),
        removeFromArtists_of_not artist album url hafter]
      rfl
  | cons b before ih =>
    rw [List.forall_mem_cons] at hbefore
    rw [List.cons_append, removeFromArtists, hbefore.1, Bool.and_false, ih hbefore.2]
    rfl

/-- The track sits under no such artist and album, or there is one less. -/
theorem removeFromArtists_spec (artist album url : Text) {artists : List ArtistList}
    (h : Shelves artists) :
    (removeFromArtists artist album url false artists = .ok (artists, false) ∧
        ¬ Filed artists artist album url) ∨
      ∃ artists', removeFromArtists artist album url false artists = .ok (artists', true) ∧
        TrackRemoved url artists artists' := by
  rcases h.names.split artist with hnone | ⟨before, a, after, rfl, hname, hbefore, hafter⟩
  · left
    refine ⟨removeFromArtists_of_not artist album url hnone, ?_⟩
    rintro ⟨name, albumName, hname, -, a, ha, rfl, -⟩
    rw [hnone a ha] at hname
    exact absurd hname nofun
  · have hmem : a ∈ before ++ a :: after := List.mem_append_right _ List.mem_cons_self
    rcases removeFromAlbums_spec album url (h.albums a hmem) with
      ⟨hremove, hnot⟩ | ⟨albums', hremove, hremoved⟩
    · left
      have hsplit := removeFromArtists_split artist album url hbefore hname hafter hremove
        fun _ => h.nonempty a hmem
      rw [if_neg (h.nonempty a hmem)] at hsplit
      refine ⟨hsplit, fun hfiled => ?_⟩
      obtain ⟨b, hb, halbum, hurl⟩ := filed_split hbefore hafter hfiled
      exact hnot b hb halbum hurl
    · right
      refine ⟨_, removeFromArtists_split artist album url hbefore hname hafter hremove nofun, ?_⟩
      have hperm : (url :: (sortedTracks before ++ (albumTracks albums' ++
          sortedTracks after))).Perm (sortedTracks (before ++ a :: after)) := by
        rw [sortedTracks_append_cons]
        refine List.perm_middle.symm.trans ?_
        exact (hremoved.perm.append_right _).append_left _
      show TrackRemoved url _ (before ++ if albums' = [] then after
        else { a with albumList := albums' } :: after)
      split
      · rename_i hempty
        have hsub : (before ++ after).Sublist (before ++ a :: after) :=
          (List.Sublist.refl before).append (List.sublist_cons_self a after)
        refine ⟨⟨h.names.sublist hsub, fun b hb => h.albums b (hsub.subset hb),
          fun b hb => h.nonempty b (hsub.subset hb)⟩, ?_, ?_, ?_⟩
        · rw [hempty] at hperm
          unfold sortedTracks at hperm ⊢
          rw [List.flatMap_append]
          exact hperm
        · rintro name albumName u ⟨b, hb, hon⟩
          exact ⟨b, hsub.subset hb, hon⟩
        · intro name albumName u hu hsits
          rcases sits_append_cons.mp hsits with ⟨b, hb, hat⟩ | ⟨-, hon⟩ | ⟨b, hb, hat⟩
          · exact ⟨b, List.mem_append_left _ hb, hat⟩
          · have hon' := hremoved.keeps albumName u hu hon
            rw [hempty] at hon'
            exact absurd hon' onAlbum_nil
          · exact ⟨b, List.mem_append_right _ hb, hat⟩
      · rename_i hne
        refine ⟨h.replace hremoved.shelf hne, ?_, ?_, ?_⟩
        · rw [sortedTracks_append_cons before after { a with albumList := albums' }]
          exact hperm
        · intro name albumName u hu
          rcases sits_append_cons.mp hu with hu | ⟨rfl, hon⟩ | hu
          · exact sits_append_cons.mpr (.inl hu)
          · exact sits_append_cons.mpr (.inr (.inl ⟨rfl, hremoved.sits albumName u hon⟩))
          · exact sits_append_cons.mpr (.inr (.inr hu))
        · intro name albumName u hne hu
          rcases sits_append_cons.mp hu with hu | ⟨rfl, hon⟩ | hu
          · exact sits_append_cons.mpr (.inl hu)
          · exact sits_append_cons.mpr (.inr (.inl ⟨rfl, hremoved.keeps albumName u hne hon⟩))
          · exact sits_append_cons.mpr (.inr (.inr hu))

end FreeAmp.Base
