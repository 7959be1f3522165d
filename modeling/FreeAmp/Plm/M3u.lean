/-
  Plm/M3u.lean --- reading and writing M3U playlists, from `plm/playlist/m3u/m3u.cpp`.

  `WritePlaylist` writes one line for each item: its path, or its URL if that is no file
  URL.  `ReadPlaylist` takes the lines with `fgets`, and makes of each a URL again.  What
  it does to an entry is `entryURL`, which the PLS plug-in does as well.
-/
import FreeAmp.Base.FileUrl
import FreeAmp.Lib.Lines

namespace FreeAmp.Plm

open FreeAmp.Base FreeAmp.Lib

/-! ## An entry -/

/-- `!strncmp(entry, "http://", 7) || !strncmp(entry, "rtp://", 6) || ..` -/
def isURL (entry : Text) : Bool :=
  (bytes "http://").isPrefixOf entry || (bytes "rtp://").isPrefixOf entry ||
    protocol.isPrefixOf entry

/-- Each `\\` becomes the path separator. -/
def convertSeparators (entry : Text) : Text :=
  entry.map fun c => if c == 92 then dirMarker else c

/-- `get rid of nasty trailing whitespace` -/
def trimEnd (entry : Text) : Text := (entry.reverse.dropWhile isSpace).reverse

def isRelativePath (entry : Text) : Bool :=
  (bytes "..").isPrefixOf entry ||
    (!(bytes ":\\").isPrefixOf (entry.drop 1) && !([dirMarker] : Text).isPrefixOf entry)

/-- `strcpy` into a buffer of `_MAX_PATH` bytes. -/
def strcpyPath (s : Text) : Except BufferFault Text :=
  if s.length < maxPath then .ok s else .error .overflow

/-- The directory of a playlist, with the separator at its end. -/
def rootOf (path : Text) : Text :=
  if dirMarker ∈ path then (path.reverse.dropWhile (· != dirMarker)).reverse else path

/-- The URL of an entry, if there is anything left of it. -/
def entryURL (root entry : Text) : Except BufferFault (Option Text) := do
  let entry := trimEnd (if isURL entry then entry else convertSeparators entry)
  if entry.length ≠ 0 then
    if isURL entry then
      let path ← strcpyPath entry
      pure (some path)
    else
      let path ← strcpyPath (if isRelativePath entry then root ++ entry else entry)
      match (filePathToURL path (path.length + 15)).result with
      | .ok itemurl =>
        let path ← strcpyPath itemurl
        pure (some path)
      | .error _ => pure (some path)
  else pure none

/-! ## The files -/

/-- The files by their paths, and the paths that can be opened for writing. -/
structure Files where
  contents : Text → Option Text
  writable : Text → Bool

/-- `fopen(path, "wb")`, the writing of `text` and `fclose`. -/
def Files.write (files : Files) (path text : Text) : Files :=
  { files with contents := fun p => if p = path then some text else files.contents p }

/-- The line that is written for a URL. -/
def urlLine (url : Text) : Text :=
  match (urlToFilePath url maxPath).result with
  | .error _ => url ++ [10]
  | .ok path => path ++ [10]

/-- `WritePlaylist` of a plug-in for one format. -/
def writePlaylistAs (format url extension : Text) (items : List PlaylistItem) (files : Files) :
    Except BufferFault (Error × Files) :=
  if extension.map toLower = format then
    match (urlToFilePath url maxPath).result with
    -- the error is not looked at, and `path` is what it was
    | .error _ => .error .uninitialised
    | .ok path =>
      if files.writable path then
        pure (.noErr, files.write path (items.flatMap fun item => urlLine (cStr item.url)))
      else pure (.fileNoAccess, files)
  else pure (.formatNotSupported, files)

namespace M3u

/-- One round of the loop of `ReadPlaylist`: the item of a line. -/
def readEntry (root line : Text) : Except BufferFault (Option PlaylistItem) := do
  let entry := cStr line
  if entry.head? = some 35 then pure none
  else
    let url ← entryURL root entry
    pure (url.map fun path => .create path default)

/-- `while(fgets(entry, _MAX_PATH, fp)) { .. }` -/
def readEntries (root : Text) : List Text → Except BufferFault (List PlaylistItem)
  | [] => pure []
  | line :: lines => do
      let item ← readEntry root line
      let items ← readEntries root lines
      pure (item.toList ++ items)

/-- The lines as `fgets` takes them. -/
def fgetsLines (text : Text) : List Text := pieces (· == 10) (maxPath - 1) (maxPath - 1) text

/-- `ReadPlaylist`: the error, and the items it has added to the list. -/
def readPlaylist (url : Text) (files : Files) :
    Except BufferFault (Error × List PlaylistItem) :=
  match (urlToFilePath url maxPath).result with
  | .error err => pure (err, [])
  | .ok path =>
    match files.contents path with
    | none => pure (.fileNotFound, [])
    | some text => do
        let items ← readEntries (rootOf path) (fgetsLines text)
        pure (.noErr, items)

def writePlaylist (url extension : Text) (items : List PlaylistItem) (files : Files) :
    Except BufferFault (Error × Files) :=
  writePlaylistAs (bytes "m3u") url extension items files

/-! ## The URLs the player stores -/

/-- A string that fits a line and a buffer. -/
structure Plain (s : Text) : Prop where
  nulFree : NulFree s
  oneLine : (10 : UInt8) ∉ s
  trimmed : ∀ c, s.getLast? = some c → isSpace c = false
  fits : s.length < maxPath

/-- The URLs of files, which are known by their absolute paths, and of streams. -/
inductive Stored : Text → Prop where
  | file {path : Text} : path.head? = some dirMarker → Plain path → Stored (protocol ++ path)
  | stream {url : Text} : (bytes "http://").isPrefixOf url = true ∨
      (bytes "rtp://").isPrefixOf url = true → Plain url → Stored url

/-- The URL that is read for one that was written: a `\` in a path is taken for the
separator of another platform. -/
def comesBack (url : Text) : Text :=
  if isFileURL url then protocol ++ convertSeparators (url.drop protocol.length) else url

end M3u

/-! ## Reading a line back -/

section Entry

variable {root entry : Text}

theorem convertSeparators_length : (convertSeparators entry).length = entry.length :=
  List.length_map _

theorem trimEnd_of_last (h : ∀ c, entry.getLast? = some c → isSpace c = false) :
    trimEnd entry = entry := by
  unfold trimEnd
  rw [← List.head?_reverse] at h
  cases hrev : entry.reverse with
  | nil =>
    rw [List.reverse_eq_nil_iff] at hrev
    rw [hrev]
    rfl
  | cons c rest =>
    rw [hrev] at h
    have hc : ¬ isSpace c = true := Bool.eq_false_iff.mp (h c rfl)
    rw [List.dropWhile_cons_of_neg hc, ← hrev, List.reverse_reverse]

theorem trimEnd_newline (h : ∀ c, entry.getLast? = some c → isSpace c = false) :
    trimEnd (entry ++ [10]) = entry := by
  have hspace : isSpace 10 = true := by decide
  have hentry := trimEnd_of_last h
  unfold trimEnd at hentry ⊢
  rw [List.reverse_append, List.reverse_singleton, List.singleton_append,
    List.dropWhile_cons_of_pos hspace, hentry]

/-- A line as it is taken: with its end, or without it if it fills the buffer. -/
def TakenFrom (entry line : Text) : Prop := line = entry ∨ line = entry ++ [10]

theorem TakenFrom.trimEnd {line : Text} (h : TakenFrom entry line)
    (hlast : ∀ c, entry.getLast? = some c → isSpace c = false) : trimEnd line = entry := by
  rcases h with rfl | rfl
  · exact trimEnd_of_last hlast
  · exact trimEnd_newline hlast

theorem isURL_append (h : isURL entry = true) (rest : Text) : isURL (entry ++ rest) = true := by
  unfold isURL at h ⊢
  simp only [Bool.or_eq_true, List.isPrefixOf_iff_prefix] at h ⊢
  have hprefix := List.prefix_append entry rest
  exact h.imp (Or.imp (·.trans hprefix) (·.trans hprefix)) (·.trans hprefix)

theorem TakenFrom.isURL {line : Text} (h : TakenFrom entry line) (hurl : isURL entry = true) :
    isURL line = true := by
  rcases h with rfl | rfl
  · exact hurl
  · exact isURL_append hurl [10]

theorem TakenFrom.convertSeparators {line : Text} (h : TakenFrom entry line) :
    TakenFrom (convertSeparators entry) (convertSeparators line) := by
  rcases h with rfl | rfl
  · exact .inl rfl
  · exact .inr (List.map_append)

theorem isURL_absolute (rest : Text) : isURL (dirMarker :: rest) = false := rfl

theorem isRelativePath_absolute (rest : Text) : isRelativePath (dirMarker :: rest) = false := by
  unfold isRelativePath
  have hslash : ([dirMarker] : Text).isPrefixOf (dirMarker :: rest) = true := rfl
  have hdots : (bytes "..").isPrefixOf (dirMarker :: rest) = false := rfl
  rw [hslash, hdots, Bool.not_true, Bool.and_false, Bool.or_false]

theorem convertSeparators_absolute (rest : Text) :
    convertSeparators (dirMarker :: rest) = dirMarker :: convertSeparators rest := rfl

theorem convertSeparators_last (h : ∀ c, entry.getLast? = some c → isSpace c = false) :
    ∀ c, (convertSeparators entry).getLast? = some c → isSpace c = false := by
  intro c hc
  unfold convertSeparators at hc
  rw [List.getLast?_map, Option.map_eq_some_iff] at hc
  obtain ⟨b, hb, rfl⟩ := hc
  split
  · decide
  · exact h b hb

theorem entryURL_stream {line : Text} (h : TakenFrom entry line) (hurl : isURL entry = true)
    (hne : entry ≠ []) (hlast : ∀ c, entry.getLast? = some c → isSpace c = false)
    (hfits : entry.length < maxPath) : entryURL root line = .ok (some entry) := by
  have hlen : entry.length ≠ 0 := List.length_eq_zero_iff.not.mpr hne
  unfold entryURL
  rw [if_pos (h.isURL hurl)]
  dsimp only
  rw [h.trimEnd hlast, if_pos hlen, if_pos hurl]
  unfold strcpyPath
  rw [if_pos hfits]
  rfl

theorem entryURL_file {line rest : Text} (h : TakenFrom (dirMarker :: rest) line)
    (hlast : ∀ c, (dirMarker :: rest).getLast? = some c → isSpace c = false)
    (hfits : (dirMarker :: rest).length < maxPath) :
    entryURL root line = (do
      let path ← strcpyPath (protocol ++ convertSeparators (dirMarker :: rest))
      pure (some path)) := by
  have hurl : isURL line = false := by
    rcases h with rfl | rfl
    · exact isURL_absolute rest
    · exact isURL_absolute (rest ++ [10])
  have hconv := h.convertSeparators.trimEnd (convertSeparators_last hlast)
  have hlen : (convertSeparators (dirMarker :: rest)).length < maxPath := by
    rw [convertSeparators_length]
    exact hfits
  unfold entryURL
  rw [hurl, if_neg Bool.false_ne_true]
  dsimp only
  rw [hconv, if_pos (by rw [convertSeparators_length]; exact Nat.succ_ne_zero _),
    convertSeparators_absolute, isURL_absolute, if_neg Bool.false_ne_true,
    isRelativePath_absolute, if_neg Bool.false_ne_true, ← convertSeparators_absolute]
  have hroom : (convertSeparators (dirMarker :: rest)).length + protocol.length + 1 ≤
      (convertSeparators (dirMarker :: rest)).length + 15 := by
    rw [protocol_length]
    omega
  unfold strcpyPath
  rw [if_pos hlen, ok_bind, filePathToURL_ok hroom]

end Entry

/-! ## Reading a playlist back -/

namespace M3u

variable {root : Text}

/-- The line of an entry is read, and nothing of it is left for the next. -/
theorem readEntries_line {entry : Text} {url : Except BufferFault (Option Text)}
    (hplain : Plain entry) (hne : entry ≠ []) (hcomment : entry.head? ≠ some 35)
    (hurl : ∀ line, TakenFrom entry line → entryURL root line = url) (text : Text) :
    readEntries root (fgetsLines (entry ++ [10] ++ text)) = (do
      let path ← url
      let items ← readEntries root (fgetsLines text)
      pure ((path.map fun path => PlaylistItem.create path default).toList ++ items)) := by
  have hstop : ∀ c ∈ entry, (c == 10) = false := by
    intro c hc
    rw [beq_eq_false_iff_ne]
    exact fun h => hplain.oneLine (h ▸ hc)
  have hread : ∀ line, TakenFrom entry line → readEntry root line = (do
      let path ← url
      pure (path.map fun path => .create path default)) := by
    intro line hline
    have hcStr : cStr line = line := by
      refine NulFree.cStr_eq ?_
      rcases hline with rfl | rfl
      · exact hplain.nulFree
      · exact fun h => (List.mem_append.mp h).elim hplain.nulFree (by decide)
    have hhead : line.head? ≠ some 35 := by
      obtain ⟨c, rest, rfl⟩ := List.exists_cons_of_ne_nil hne
      rcases hline with rfl | rfl
      · exact hcomment
      · exact hcomment
    unfold readEntry
    dsimp only
    rw [hcStr, if_neg hhead, hurl line hline]
  have hfits : entry.length ≤ maxPath - 1 := Nat.le_sub_one_of_lt hplain.fits
  have hnewline : ((10 : UInt8) == 10) = true := by decide
  unfold fgetsLines
  rcases Nat.lt_or_eq_of_le hfits with hlt | hfull
  · rw [pieces_line_append (fun c : UInt8 => c == 10) _ hnewline hstop hlt, readEntries,
      hread _ (.inr rfl)]
    cases url with
    | error fault => rfl
    | ok path => rfl
  · -- the end of the line is taken by itself, and is white space
    have hend : readEntry root [10] = .ok none := rfl
    have hempty : ([] : Text).length < maxPath - 1 := by decide
    have htail := pieces_line_append (fun c : UInt8 => c == 10) (maxPath - 1) hnewline
      (fun c hc => absurd hc List.not_mem_nil) hempty text
    rw [List.nil_append] at htail
    rw [List.append_assoc, pieces_full (fun c : UInt8 => c == 10) _ hstop hfull hne, readEntries,
      hread _ (.inl rfl), htail, readEntries, hend]
    cases url with
    | error fault => rfl
    | ok path =>
      cases readEntries root
        (pieces (fun c : UInt8 => c == 10) (maxPath - 1) (maxPath - 1) text) with
      | error fault => rfl
      | ok items => rfl

theorem stream_cons {url : Text} (h : (bytes "http://").isPrefixOf url = true ∨
    (bytes "rtp://").isPrefixOf url = true) :
    ∃ c rest, url = c :: rest ∧ (c = 104 ∨ c = 114) := by
  rcases h with h | h
  · obtain ⟨rest, rfl⟩ := List.isPrefixOf_iff_prefix.mp h
    exact ⟨104, bytes "ttp://" ++ rest, rfl, .inl rfl⟩
  · obtain ⟨rest, rfl⟩ := List.isPrefixOf_iff_prefix.mp h
    exact ⟨114, bytes "tp://" ++ rest, rfl, .inr rfl⟩

theorem isFileURL_stream {c : UInt8} (rest : Text) (hc : c = 104 ∨ c = 114) :
    isFileURL (c :: rest) = false := by
  rcases hc with rfl | rfl <;> rfl

theorem urlLine_file {path : Text} (hplain : Plain path) :
    urlLine (cStr (protocol ++ path)) = path ++ [10] := by
  have hnul : NulFree (protocol ++ path) :=
    fun h => (List.mem_append.mp h).elim (by decide) hplain.nulFree
  unfold urlLine
  rw [hnul.cStr_eq, urlToFilePath_append hplain.fits]

/-- The line of a path that is written for a file is read with `file://` in front. -/
theorem readEntries_file {path : Text} (hslash : path.head? = some dirMarker)
    (hplain : Plain path) (text : Text) :
    readEntries root (fgetsLines (urlLine (cStr (protocol ++ path)) ++ text)) = (do
      let url ← strcpyPath (protocol ++ convertSeparators path)
      let items ← readEntries root (fgetsLines text)
      pure (.create url default :: items)) := by
  obtain ⟨rest, rfl⟩ := List.head?_eq_some_iff.mp hslash
  have hcomment : (dirMarker :: rest).head? ≠ some 35 :=
    fun h => absurd (Option.some.inj h) (by decide)
  rw [urlLine_file hplain, readEntries_line hplain (List.cons_ne_nil _ rest) hcomment
    (fun line h => entryURL_file h hplain.trimmed hplain.fits) text]
  cases strcpyPath (protocol ++ convertSeparators (dirMarker :: rest)) with
  | error fault => rfl
  | ok url => rfl

theorem readEntries_urlLine {url : Text} (hstored : Stored url) (hroom : url.length < maxPath)
    (text : Text) :
    readEntries root (fgetsLines (urlLine (cStr url) ++ text)) = (do
      let items ← readEntries root (fgetsLines text)
      pure (.create (comesBack url) default :: items)) := by
  cases hstored with
  | @file path hslash hplain =>
    have hback : comesBack (protocol ++ path) = protocol ++ convertSeparators path := by
      unfold comesBack
      rw [if_pos (isFileURL_append path), List.drop_left]
    rw [readEntries_file hslash hplain, hback]
    unfold strcpyPath
    rw [List.length_append, convertSeparators_length, ← List.length_append, if_pos hroom]
    rfl
  | stream hscheme hplain =>
    obtain ⟨c, rest, rfl, hc⟩ := stream_cons hscheme
    have hfile := isFileURL_stream rest hc
    have hline : urlLine (cStr (c :: rest)) = c :: rest ++ [10] := by
      unfold urlLine urlToFilePath
      rw [hplain.nulFree.cStr_eq, hfile]
      rfl
    have hback : comesBack (c :: rest) = c :: rest := by
      unfold comesBack
      rw [hfile]
      rfl
    have hcomment : (c :: rest).head? ≠ some 35 := by
      intro h
      obtain rfl : c = 35 := Option.some.inj h
      exact absurd hc (by decide)
    have hurl : isURL (c :: rest) = true := by
      unfold isURL
      rw [Bool.or_eq_true, Bool.or_eq_true]
      exact .inl hscheme
    rw [hline, hback]
    exact readEntries_line hplain (List.cons_ne_nil c rest) hcomment
      (fun line h => entryURL_stream h hurl (List.cons_ne_nil c rest) hplain.trimmed hplain.fits)
      text

theorem readEntries_urlLines : ∀ items : List PlaylistItem,
    (∀ item ∈ items, Stored item.url ∧ item.url.length < maxPath) →
      readEntries root (fgetsLines (items.flatMap fun item => urlLine (cStr item.url))) =
        .ok (items.map fun item => .create (comesBack item.url) default) := by
  intro items
  induction items with
  | nil => exact fun _ => rfl
  | cons item items ih =>
    intro h
    obtain ⟨hstored, hroom⟩ := h item List.mem_cons_self
    rw [List.flatMap_cons, readEntries_urlLine hstored hroom,
      ih fun other hother => h other (List.mem_cons_of_mem item hother)]
    rfl

theorem readPlaylist_of_written {path extension : Text} {files : Files}
    (items : List PlaylistItem) (hpath : path.length < maxPath)
    (hextension : extension.map toLower = bytes "m3u") (hwritable : files.writable path = true) :
    ∃ files', writePlaylist (protocol ++ path) extension items files = .ok (.noErr, files') ∧
      readPlaylist (protocol ++ path) files' = (do
        let back ← readEntries (rootOf path)
          (fgetsLines (items.flatMap fun item => urlLine (cStr item.url)))
        pure (.noErr, back)) := by
  refine ⟨files.write path (items.flatMap fun item => urlLine (cStr item.url)), ?_, ?_⟩
  · unfold writePlaylist writePlaylistAs
    rw [if_pos hextension, urlToFilePath_append hpath]
    dsimp only
    rw [if_pos hwritable]
    rfl
  · have hcontents : (files.write path (items.flatMap fun item =>
        urlLine (cStr item.url))).contents path =
          some (items.flatMap fun item => urlLine (cStr item.url)) := if_pos rfl
    unfold readPlaylist
    rw [urlToFilePath_append hpath]
    dsimp only
    rw [hcontents]

/-- A playlist that has been written is read back, each URL as it comes back. -/
theorem m3u_comes_back {path extension : Text} {files : Files}
    {items : List PlaylistItem} (hpath : path.length < maxPath)
    (hextension : extension.map toLower = bytes "m3u") (hwritable : files.writable path = true)
    (hitems : ∀ item ∈ items, Stored item.url ∧ item.url.length < maxPath) :
    ∃ files' back,
      writePlaylist (protocol ++ path) extension items files = .ok (.noErr, files') ∧
      readPlaylist (protocol ++ path) files' = .ok (.noErr, back) ∧
      back.map (·.url) = items.map fun item => comesBack item.url := by
  obtain ⟨files', hwrite, hread⟩ := readPlaylist_of_written items hpath hextension hwritable
  rw [readEntries_urlLines items hitems] at hread
  refine ⟨files', items.map fun item : PlaylistItem => .create (comesBack item.url) default,
    hwrite, hread, ?_⟩
  rw [List.map_map]
  rfl

/-! ## Two paths -/

/-- Files that can all be written. -/
def writableFiles : Files := ⟨fun _ => none, fun _ => true⟩

theorem m3u_comes_back_one : ∃ files' back,
    writePlaylist (protocol ++ bytes "/m") (bytes "M3U")
        [.create (bytes "file:///a b#c") default] writableFiles = .ok (.noErr, files') ∧
      readPlaylist (protocol ++ bytes "/m") files' = .ok (.noErr, back) ∧
      back.map (·.url) = [comesBack (bytes "file:///a b#c")] := by
  refine m3u_comes_back (by decide) (by decide) rfl fun item hitem => ?_
  obtain rfl := List.mem_singleton.mp hitem
  refine ⟨@Stored.file (bytes "/a b#c") rfl ⟨by decide, by decide, ?_, by decide⟩, by decide⟩
  intro c hc
  obtain rfl : c = 99 := (Option.some.inj hc).symm
  decide

/-- A path that leaves no room for `file://` in the buffer. -/
def longPath : Text := (dirMarker :: List.replicate 4087 97) ++ [97]

theorem longPath_plain : Plain longPath where
  nulFree h := by
    unfold longPath at h
    rw [List.mem_append, List.mem_cons, List.mem_replicate, List.mem_singleton] at h
    exact absurd h (by decide)
  oneLine h := by
    unfold longPath at h
    rw [List.mem_append, List.mem_cons, List.mem_replicate, List.mem_singleton] at h
    exact absurd h (by decide)
  trimmed c hc := by
    unfold longPath at hc
    rw [List.getLast?_concat] at hc
    obtain rfl : 97 = c := Option.some.inj hc
    decide
  fits := by
    unfold longPath
    rw [List.length_append, List.length_cons, List.length_replicate]
    decide

/-- A `\` is read as a `/`, and a long path is written past the end of the buffer. -/
theorem stored_not_read_back :
    (Stored (bytes "file:///a\\b") ∧ ∃ files',
      writePlaylist (protocol ++ bytes "/m") (bytes "m3u")
        [.create (bytes "file:///a\\b") default] writableFiles = .ok (.noErr, files') ∧
      readPlaylist (protocol ++ bytes "/m") files' =
        .ok (.noErr, [.create (bytes "file:///a/b") default])) ∧
    (Stored (protocol ++ longPath) ∧ ∃ files',
      writePlaylist (protocol ++ bytes "/m") (bytes "m3u")
        [.create (protocol ++ longPath) default] writableFiles = .ok (.noErr, files') ∧
      readPlaylist (protocol ++ bytes "/m") files' = .error .overflow) := by
  refine ⟨⟨@Stored.file (bytes "/a\\b") rfl ⟨by decide, by decide, ?_, by decide⟩, _, rfl,
    rfl⟩, Stored.file rfl longPath_plain, ?_⟩
  · intro c hc
    obtain rfl : c = 98 := (Option.some.inj hc).symm
    decide
  · have hlong : ¬ (protocol ++ convertSeparators longPath).length < maxPath := by
      rw [List.length_append, convertSeparators_length]
      unfold longPath
      rw [List.length_append, List.length_cons, List.length_replicate]
      decide
    obtain ⟨files', hwrite, hread⟩ := readPlaylist_of_written
      [.create (protocol ++ longPath) default] (by decide : (bytes "/m").length < maxPath)
      (by decide : (bytes "m3u").map toLower = bytes "m3u") (rfl : writableFiles.writable _ = true)
    refine ⟨files', hwrite, ?_⟩
    rw [hread, List.flatMap_cons, PlaylistItem.create, readEntries_file rfl longPath_plain]
    unfold strcpyPath
    rw [if_neg hlong]
    rfl

end M3u

end FreeAmp.Plm
