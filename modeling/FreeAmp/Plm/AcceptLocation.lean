/-
  Plm/AcceptLocation.lean --- a new location in all playlists, as `AcceptLocation` of
  `base/src/missingfile.cpp` puts it there.

      accept_step              what is done to one playlist
      acceptLocation_replaces  what is done to all of them

  Every playlist is written again from what could be read of it, with the errors of both
  ignored.
-/
import FreeAmp.Plm.Id3v1
import FreeAmp.Plm.Pls

namespace FreeAmp.Plm

open FreeAmp.Base FreeAmp.Lib

/-! ## `PlaylistManager` -/

/-- The extension by which a plug-in is found, in small letters. -/
def playlistExtension (url : Text) : Option Text :=
  (Id3v1.fromLastDot url).map fun extension => (extension.drop 1).map toLower

/-- `PlaylistManager::ReadPlaylist`; nothing while the plug-in reads on. -/
def plmReadPlaylist (fuel : Nat) (url : Text) (files : Files) :
    Option (Except BufferFault (Error × List PlaylistItem)) :=
  if playlistExtension url = some (bytes "m3u") then some (M3u.readPlaylist url files)
  else if playlistExtension url = some (bytes "pls") then Pls.readPlaylist fuel url files
  else some (pure (.formatNotSupported, []))

/-- `PlaylistManager::WritePlaylist`: the plug-in gets its own extension. -/
def plmWritePlaylist (url : Text) (items : List PlaylistItem) (files : Files) :
    Except BufferFault (Error × Files) :=
  if playlistExtension url = some (bytes "m3u") then
    M3u.writePlaylist url (bytes "m3u") items files
  else if playlistExtension url = some (bytes "pls") then
    Pls.writePlaylist url (bytes "pls") items files
  else pure (.formatNotSupported, files)

/-! ## `MissingFile::AcceptLocation` -/

/-- What happens when a file is read. -/
inductive ReadFault where
  | none
  /-- it cannot be opened -/
  | cannotOpen
  /-- an error behind that many bytes, which the readers take for the end -/
  | after (n : Nat)
  deriving DecidableEq, Repr

/-- The files as they are read. -/
def Files.seen (files : Files) (faults : Text → ReadFault) : Files :=
  { files with
    contents := fun path => match faults path with
      | .none => files.contents path
      | .cannotOpen => Option.none
      | .after n => (files.contents path).map (·.take n) }

/-- `if((*i)->URL() == item->URL()) (*i)->SetURL(newUrl.c_str())` -/
def substitute (oldUrl newUrl url : Text) : Text := if url = oldUrl then cStr newUrl else url

/-- A round of the loop of `AcceptLocation`. -/
def accept (fuel : Nat) (faults : Text → ReadFault) (oldUrl newUrl url : Text) (files : Files) :
    Option (Except BufferFault Files) :=
  (plmReadPlaylist fuel url (files.seen faults)).map fun r => do
    let tracks ← r
    let tracks := tracks.2.map fun i => { i with url := substitute oldUrl newUrl i.url }
    let files ← plmWritePlaylist url tracks files
    pure files.2

/-- `AcceptLocation`, over the playlists of the catalog. -/
def acceptLocation (fuel : Nat) (faults : Text → ReadFault) (oldUrl newUrl : Text) :
    List Text → Files → Option (Except BufferFault Files)
  | [], files => some (pure files)
  | url :: urls, files =>
    match accept fuel faults oldUrl newUrl url files with
    | none => none
    | some (.error fault) => some (.error fault)
    | some (.ok files) => acceptLocation fuel faults oldUrl newUrl urls files

/-- The playlist can be read. -/
def Readable (faults : Text → ReadFault) (files : Files) (path : Text) : Prop :=
  faults path = .none ∧ (files.contents path).isSome

section Accept

variable (fuel : Nat) (faults : Text → ReadFault) (oldUrl newUrl : Text)

/-- A playlist that can be read has the same URLs, with the old one replaced; another one is as
it was. -/
def Replaced (files files' : Files) (path : Text) : Prop :=
  (Readable faults files path → ∃ e e' items back more,
    plmReadPlaylist fuel (protocol ++ path) files = some (.ok (e, items)) ∧
    plmReadPlaylist more (protocol ++ path) files' = some (.ok (e', back)) ∧
    back.map (·.url) = items.map fun i => substitute oldUrl newUrl i.url) ∧
  (¬ Readable faults files path → files'.contents path = files.contents path)

/-- A URL that is read from an M3U playlist as it is written to it. -/
structure Fits (url : Text) : Prop where
  stored : M3u.Stored url
  room : url.length < maxPath
  slashes : M3u.comesBack url = url

/-- The playlists that are kept: those that can be read and written, in M3U, of URLs that come
back; those that cannot be written, without the old URL; and those in PLS with no entries. -/
def Keeps (files : Files) (path : Text) : Prop :=
  path.length < maxPath ∧ ∃ e items,
    plmReadPlaylist fuel (protocol ++ path) (files.seen faults) = some (.ok (e, items)) ∧
    ((Readable faults files path ∧ playlistExtension (protocol ++ path) = some (bytes "m3u") ∧
        files.writable path = true ∧ ∀ i ∈ items, Fits (substitute oldUrl newUrl i.url)) ∨
      (files.writable path = false ∧
        (Readable faults files path → ∀ i ∈ items, i.url ≠ oldUrl)) ∨
      (Readable faults files path ∧ playlistExtension (protocol ++ path) = some (bytes "pls") ∧
        files.writable path = true ∧ items = []))

end Accept

/-! ## Reading and writing one file -/

section Step

variable {fuel : Nat} {faults : Text → ReadFault} {oldUrl newUrl path : Text} {files files' : Files}

theorem plmReadPlaylist_congr (hpath : path.length < maxPath)
    (h : files'.contents path = files.contents path) :
    plmReadPlaylist fuel (protocol ++ path) files' =
      plmReadPlaylist fuel (protocol ++ path) files := by
  unfold plmReadPlaylist M3u.readPlaylist Pls.readPlaylist
  rw [urlToFilePath_append hpath]
  dsimp only
  rw [h]

theorem seen_of_readable (h : Readable faults files path) :
    (files.seen faults).contents path = files.contents path := by
  unfold Files.seen
  dsimp only
  rw [h.1]

theorem writePlaylistAs_ok {format : Text} (hformat : format.map toLower = format)
    (hpath : path.length < maxPath) (hwritable : files.writable path = true)
    (items : List PlaylistItem) :
    writePlaylistAs format (protocol ++ path) format items files =
      .ok (.noErr, files.write path (items.flatMap fun item => urlLine (cStr item.url))) := by
  unfold writePlaylistAs
  rw [if_pos hformat, urlToFilePath_append hpath]
  dsimp only
  rw [if_pos hwritable]
  rfl

theorem plmWritePlaylist_not (hpath : path.length < maxPath)
    (hwritable : files.writable path = false)
    (items : List PlaylistItem) :
    ∃ e, plmWritePlaylist (protocol ++ path) items files = .ok (e, files) := by
  have hnot : ∀ {format : Text}, format.map toLower = format →
      writePlaylistAs format (protocol ++ path) format items files =
        .ok (.fileNoAccess, files) := by
    intro format hformat
    unfold writePlaylistAs
    rw [if_pos hformat, urlToFilePath_append hpath]
    dsimp only
    rw [hwritable, if_neg Bool.false_ne_true]
    rfl
  unfold plmWritePlaylist
  split
  · exact ⟨_, hnot (by decide)⟩
  · split
    · exact ⟨_, hnot (by decide)⟩
    · exact ⟨_, rfl⟩

/-- What is done to one playlist, and to no other file. -/
theorem accept_step (h : Keeps fuel faults oldUrl newUrl files path) :
    ∃ files', accept fuel faults oldUrl newUrl (protocol ++ path) files = some (.ok files') ∧
      Replaced fuel faults oldUrl newUrl files files' path ∧
      (∀ q, q ≠ path → files'.contents q = files.contents q) ∧
      files'.writable = files.writable := by
  obtain ⟨hpath, e, items, hread, hcases⟩ := h
  have haccept : ∀ {e' : Error} {files' : Files},
      plmWritePlaylist (protocol ++ path)
        (items.map fun i => { i with url := substitute oldUrl newUrl i.url }) files =
          .ok (e', files') →
      accept fuel faults oldUrl newUrl (protocol ++ path) files = some (.ok files') := by
    intro e' files' hwrite
    unfold accept
    rw [hread, Option.map_some, ok_bind]
    dsimp only
    rw [hwrite]
    rfl
  have hother : ∀ text q, q ≠ path → (files.write path text).contents q = files.contents q :=
    fun text q hq => if_neg hq
  have hself : ∀ text, (files.write path text).contents path = some text := fun text => if_pos rfl
  rcases hcases with ⟨hreadable, hm3u, hwritable, hfits⟩ | ⟨hwritable, hold⟩ |
      ⟨hreadable, hpls, hwritable, rfl⟩
  · have hwrite := @writePlaylistAs_ok _ _ (bytes "m3u") (by decide) hpath hwritable
      (items.map fun i => { i with url := substitute oldUrl newUrl i.url })
    have hbefore := hread
    rw [plmReadPlaylist_congr hpath (seen_of_readable hreadable)] at hbefore
    refine ⟨_, haccept ((if_pos hm3u).trans hwrite),
      ⟨fun _ => ?_, fun hnot => absurd hreadable hnot⟩, hother _, rfl⟩
    have hback := @M3u.readEntries_urlLines (rootOf path)
      (items.map fun i => { i with url := substitute oldUrl newUrl i.url }) fun item hitem => by
        obtain ⟨i, hi, rfl⟩ := List.mem_map.mp hitem
        exact ⟨(hfits i hi).stored, (hfits i hi).room⟩
    refine ⟨e, .noErr, items, (items.map fun i : PlaylistItem =>
      { i with url := substitute oldUrl newUrl i.url }).map fun item =>
        .create (M3u.comesBack item.url) default, 0, hbefore, ?_, ?_⟩
    · unfold plmReadPlaylist M3u.readPlaylist
      rw [if_pos hm3u, urlToFilePath_append hpath]
      dsimp only
      rw [hself]
      dsimp only
      rw [hback]
      rfl
    · rw [List.map_map, List.map_map]
      exact List.map_congr_left fun i hi => (hfits i hi).slashes
  · obtain ⟨e', hwrite⟩ := plmWritePlaylist_not hpath hwritable
      (items.map fun i => { i with url := substitute oldUrl newUrl i.url })
    refine ⟨files, haccept hwrite, ⟨fun hreadable => ?_, fun _ => rfl⟩, fun _ _ => rfl, rfl⟩
    rw [plmReadPlaylist_congr hpath (seen_of_readable hreadable)] at hread
    refine ⟨e, e, items, items, fuel, hread, hread, List.map_congr_left fun i hi => ?_⟩
    exact (if_neg (hold hreadable i hi)).symm
  · have hwrite := @writePlaylistAs_ok _ _ (bytes "pls") (by decide) hpath hwritable []
    have hm3u : playlistExtension (protocol ++ path) ≠ some (bytes "m3u") := by
      rw [hpls]
      decide
    have hbefore := hread
    rw [plmReadPlaylist_congr hpath (seen_of_readable hreadable)] at hbefore
    refine ⟨_, haccept (((if_neg hm3u).trans (if_pos hpls)).trans hwrite),
      ⟨fun _ => ?_, fun hnot => absurd hreadable hnot⟩, hother _, rfl⟩
    refine ⟨e, .noErr, [], [], 2, hbefore, ?_, rfl⟩
    unfold plmReadPlaylist Pls.readPlaylist
    rw [if_neg hm3u, if_pos hpls, urlToFilePath_append hpath]
    dsimp only
    rw [hself]
    rfl

/-! ## All playlists -/

theorem seen_congr (h : files'.contents path = files.contents path) :
    (files'.seen faults).contents path = (files.seen faults).contents path := by
  unfold Files.seen
  dsimp only
  rw [h]

/-- A playlist is kept or not whatever is done to other files. -/
theorem Keeps.congr (h : Keeps fuel faults oldUrl newUrl files path)
    (hcontents : files'.contents path = files.contents path)
    (hwritable : files'.writable = files.writable) :
    Keeps fuel faults oldUrl newUrl files' path := by
  obtain ⟨hpath, e, items, hread, hcases⟩ := h
  have hreadable : Readable faults files' path ↔ Readable faults files path := by
    unfold Readable
    rw [hcontents]
  refine ⟨hpath, e, items, ?_, ?_⟩
  · rw [plmReadPlaylist_congr hpath (seen_congr hcontents), hread]
  · rw [hreadable, hwritable]
    exact hcases

theorem Replaced.congr {files'' : Files} (hpath : path.length < maxPath)
    (h : Replaced fuel faults oldUrl newUrl files files' path)
    (hcontents : files''.contents path = files'.contents path) :
    Replaced fuel faults oldUrl newUrl files files'' path := by
  refine ⟨fun hreadable => ?_, fun hnot => hcontents.trans (h.2 hnot)⟩
  obtain ⟨e, e', items, back, more, hread, hback, hurls⟩ := h.1 hreadable
  exact ⟨e, e', items, back, more, hread,
    (plmReadPlaylist_congr hpath hcontents).trans hback, hurls⟩

theorem Replaced.of_congr (hpath : path.length < maxPath) {before : Files}
    (h : Replaced fuel faults oldUrl newUrl files files' path)
    (hcontents : files.contents path = before.contents path) :
    Replaced fuel faults oldUrl newUrl before files' path := by
  have hreadable : Readable faults files path ↔ Readable faults before path := by
    unfold Readable
    rw [hcontents]
  refine ⟨fun hread => ?_, fun hnot => (h.2 (hreadable.not.mpr hnot)).trans hcontents⟩
  obtain ⟨e, e', items, back, more, hitems, hback, hurls⟩ := h.1 (hreadable.mpr hread)
  rw [plmReadPlaylist_congr hpath hcontents] at hitems
  exact ⟨e, e', items, back, more, hitems, hback, hurls⟩

theorem acceptLocation_run (paths : List Text) (hnodup : paths.Nodup)
    (h : ∀ path ∈ paths, Keeps fuel faults oldUrl newUrl files path) :
    ∃ files', acceptLocation fuel faults oldUrl newUrl (paths.map (protocol ++ ·)) files =
        some (.ok files') ∧
      (∀ path ∈ paths, Replaced fuel faults oldUrl newUrl files files' path) ∧
      ∀ q, q ∉ paths → files'.contents q = files.contents q := by
  induction paths generalizing files with
  | nil => exact ⟨files, rfl, fun _ hp => absurd hp List.not_mem_nil, fun _ _ => rfl⟩
  | cons path paths ih =>
    obtain ⟨hnot, hrest⟩ := List.nodup_cons.mp hnodup
    obtain ⟨mid, haccept, hreplaced, hother, hwritable⟩ := accept_step (h path List.mem_cons_self)
    have hne : ∀ q ∈ paths, q ≠ path := fun q hq heq => hnot (heq ▸ hq)
    obtain ⟨files', hrun, hall, hframe⟩ := ih hrest fun q hq =>
      (h q (List.mem_cons_of_mem path hq)).congr (hother q (hne q hq)) hwritable
    refine ⟨files', ?_, fun q hq => ?_, fun q hq => ?_⟩
    · rw [List.map_cons, acceptLocation, haccept]
      exact hrun
    · rcases List.mem_cons.mp hq with rfl | hq
      · exact hreplaced.congr (h q List.mem_cons_self).1 (hframe q hnot)
      · exact (hall q hq).of_congr (h q (List.mem_cons_of_mem path hq)).1 (hother q (hne q hq))
    · rw [hframe q fun hq' => hq (List.mem_cons_of_mem path hq')]
      exact hother q fun heq => hq (heq ▸ List.mem_cons_self)

end Step

/-! ## Two playlists -/

/-- One file, which can be written. -/
def oneFile (path text : Text) : Files :=
  ⟨fun p => if p = path then some text else none, fun _ => true⟩

theorem fits_file_b : Fits (bytes "file:///b") where
  stored := by
    refine @M3u.Stored.file (bytes "/b") rfl ⟨by decide, by decide, fun c hc => ?_, by decide⟩
    obtain rfl : c = 98 := (Option.some.inj hc).symm
    decide
  room := by decide
  slashes := by decide

end FreeAmp.Plm
