/-
  Plm/Pls.lean --- reading and writing PLS playlists, from `plm/playlist/pls/pls.cpp`.

  `ReadPlaylist` looks for lines of the form `FileN=`, `TitleN=` and `LengthN=`.
  `WritePlaylist` writes the lines of an M3U playlist.
-/
import FreeAmp.Lib.Scanf
import FreeAmp.Plm.M3u

namespace FreeAmp.Plm

open FreeAmp.Base FreeAmp.Lib

namespace Pls

/-- `" [%[^]]] "` -/
def sectionFormat : List Directive :=
  [.space, .lit 91, .set none (· != 93), .lit 93, .space]

/-- `"%[^=]=%[^\n\r] "` -/
def entryFormat : List Directive :=
  [.set none (· != 61), .lit 61, .set none (fun c => c != 10 && c != 13), .space]

/-- The local variables of `ReadPlaylist` in its loop, and the list it adds to. -/
structure Reading where
  /-- what is not read of the file -/
  rest : Text
  /-- `feof(fp)` -/
  eof : Bool
  /-- `key`, once it has been written -/
  key : Option Text
  /-- `value`, once it has been written -/
  value : Option Text
  file : Text
  title : Text
  len : Int
  list : List PlaylistItem

def addItem (list : List PlaylistItem) (entry title : Text) (len : Int) (root : Text) :
    Except BufferFault (List PlaylistItem) := do
  let url ← entryURL root entry
  let metadata : MetaData :=
    { (default : MetaData) with
      title := title
      time := if 0 < len then UInt32.ofNat len.toNat else 0 }
  pure (list ++ (url.map fun path => PlaylistItem.create path metadata).toList)

/-- A string that has been read into a buffer of `_MAX_PATH` bytes. -/
def buffered (old field : Option Text) : Except BufferFault (Option Text) :=
  match field with
  | none => pure old
  | some s => do
      let s ← strcpyPath s
      pure (some s)

/-- A buffer as a string. -/
def readBuffer : Option Text → Except BufferFault Text
  | none => .error .uninitialised
  | some s => pure (cStr s)

/-- What is done with a key and its value. -/
def entry (root : Text) (r : Reading) : Except BufferFault Reading := do
  let key ← readBuffer r.key
  if (bytes "File").isPrefixOf key then
    let r ← (if r.file.length ≠ 0 then do
        let list ← addItem r.list r.file r.title r.len root
        pure { r with list := list, title := [], len := -1 }
      else pure r)
    let file ← readBuffer r.value
    pure { r with file := file }
  else if (bytes "Title").isPrefixOf key then
    let title ← readBuffer r.value
    pure { r with title := title }
  else if (bytes "Length").isPrefixOf key then
    let value ← readBuffer r.value
    pure { r with len := atoi value }
  else pure r

/-- One round of the loop. -/
def round (root : Text) (r : Reading) : Except BufferFault Reading := do
  let s := scanf sectionFormat r.rest 0
  let key ← buffered r.key s.fields[0]?
  let r := { r with rest := s.rest, eof := r.eof || s.eof, key := key }
  if s.ret ≠ some 0 then pure r
  else
    let s := scanf entryFormat r.rest 0
    let key ← buffered r.key s.fields[0]?
    let value ← buffered r.value s.fields[1]?
    let r := { r with rest := s.rest, eof := r.eof || s.eof, key := key, value := value }
    if s.ret ≠ some 0 then entry root r else pure r

/-- `while(!feof(fp)) { .. }`, for as many rounds as there is fuel. -/
def loop (root : Text) : Nat → Reading → Option (Except BufferFault Reading)
  | 0, _ => none
  | fuel + 1, r =>
    if r.eof then some (pure r)
    else
      match round root r with
      | .error fault => some (.error fault)
      | .ok r => loop root fuel r

/-- The loop is entered with an item that is empty. -/
def start (text : Text) : Reading where
  rest := text
  eof := false
  key := none
  value := none
  file := []
  title := []
  len := -1
  list := []

/-- The item that is left when the loop is over. -/
def lastItem (root : Text) (r : Reading) : Except BufferFault (List PlaylistItem) :=
  if r.file.length ≠ 0 then addItem r.list r.file r.title r.len root else pure r.list

/-- `ReadPlaylist`: the error, and the items it has added to the list; nothing if it is
still reading when the fuel is used up. -/
def readPlaylist (fuel : Nat) (url : Text) (files : Files) :
    Option (Except BufferFault (Error × List PlaylistItem)) :=
  match (urlToFilePath url maxPath).result with
  | .error err => some (pure (err, []))
  | .ok path =>
    match files.contents path with
    | none => some (pure (.fileNotFound, []))
    | some text =>
      (loop (rootOf path) fuel (start text)).map fun r => do
        let r ← r
        let list ← lastItem (rootOf path) r
        pure (.noErr, list)

def writePlaylist (url extension : Text) (items : List PlaylistItem) (files : Files) :
    Except BufferFault (Error × Files) :=
  writePlaylistAs (bytes "pls") url extension items files

/-! ## What is read of the lines of an M3U playlist -/

/-- The bytes that begin a path or a URL. -/
def begins (c : UInt8) : Bool := c == 47 || c == 102 || c == 104 || c == 114

/-- Each line begins with a path or a URL. -/
def LinesBegin (text : Text) : Prop :=
  ∀ before c after, text = before ++ 10 :: c :: after → begins c = true

theorem LinesBegin.suffix {text rest : Text} (h : LinesBegin text) (hsuffix : rest <:+ text) :
    LinesBegin rest := by
  obtain ⟨front, rfl⟩ := hsuffix
  intro before c after hrest
  refine h (front ++ before) c after ?_
  rw [hrest, List.append_assoc]

/-- What is not read yet of such lines: it begins with a line, or with the end of one. -/
structure Quiet (rest : Text) : Prop where
  lines : LinesBegin rest
  noReturn : (13 : UInt8) ∉ rest
  head : ∀ c, rest.head? = some c → begins c = true ∨ c = 10

theorem begins_cases {c : UInt8} (h : begins c = true) :
    c = 47 ∨ c = 102 ∨ c = 104 ∨ c = 114 := by
  unfold begins at h
  simp only [Bool.or_eq_true, beq_iff_eq, or_assoc] at h
  exact h

theorem isSpace_begins {c : UInt8} (h : begins c = true) : isSpace c = false := by
  rcases begins_cases h with rfl | rfl | rfl | rfl <;> decide

/-- The rest of quiet lines, if it begins with the end of one when it begins at all. -/
theorem Quiet.suffix {text rest : Text} (h : Quiet text) (hsuffix : rest <:+ text)
    (hhead : ∀ c, rest.head? = some c → begins c = true ∨ c = 10) : Quiet rest where
  lines := h.lines.suffix hsuffix
  noReturn hmem := h.noReturn (hsuffix.subset hmem)
  head := hhead

theorem Quiet.skip {text : Text} (h : Quiet text) :
    Quiet (text.dropWhile isSpace) ∧
      ∀ c, (text.dropWhile isSpace).head? = some c → begins c = true := by
  have hline : ∀ c, (text.dropWhile isSpace).head? = some c → begins c = true := by
    intro c hc
    cases text with
    | nil => exact absurd hc nofun
    | cons d rest =>
      rcases h.head d rfl with hbegins | rfl
      · rw [List.dropWhile_cons_of_neg (Bool.eq_false_iff.mp (isSpace_begins hbegins))] at hc
        obtain rfl : d = c := Option.some.inj hc
        exact hbegins
      · rw [List.dropWhile_cons_of_pos (by decide)] at hc
        cases rest with
        | nil => exact absurd hc nofun
        | cons e rest =>
          have hbegins := h.lines [] e rest rfl
          rw [List.dropWhile_cons_of_neg (Bool.eq_false_iff.mp (isSpace_begins hbegins))] at hc
          obtain rfl : e = c := Option.some.inj hc
          exact hbegins
  exact ⟨h.suffix (List.dropWhile_suffix _) fun c hc => .inl (hline c hc), hline⟩

theorem Quiet.value {text rest : Text} (h : Quiet text) (hsuffix : rest <:+ text)
    (hhead : ∀ c, rest.head? = some c → (c != 10 && c != 13) = false) : Quiet rest := by
  refine h.suffix hsuffix fun c hc => .inr ?_
  have hnot := hhead c hc
  have hreturn : c ≠ 13 := by
    rintro rfl
    exact h.noReturn (hsuffix.subset (List.mem_of_head? hc))
  rw [Bool.and_eq_false_iff, bne_eq_false_iff_eq, bne_eq_false_iff_eq] at hnot
  exact hnot.resolve_right hreturn

theorem section_quiet {text : Text} (h : Quiet text) :
    (scanf sectionFormat text 0).rest = text.dropWhile isSpace ∧
      (scanf sectionFormat text 0).fields = [] ∧
      ((scanf sectionFormat text 0).ret = some 0 → text.dropWhile isSpace ≠ []) := by
  unfold sectionFormat
  rw [scanf]
  cases hskip : text.dropWhile isSpace with
  | nil => exact ⟨rfl, rfl, fun hret => by cases hret⟩
  | cons c rest =>
    have hbegins := h.skip.2 c (by rw [hskip]; rfl)
    have hne : c ≠ 91 := by
      rintro rfl
      exact absurd hbegins (by decide)
    dsimp only
    rw [scanf, if_neg hne]
    exact ⟨rfl, rfl, fun _ => List.cons_ne_nil c rest⟩

theorem entry_quiet {c : UInt8} {rest : Text} (hbegins : begins c = true)
    (h : Quiet (c :: rest)) :
    Quiet (scanf entryFormat (c :: rest) 0).rest ∧
      ∃ key, (scanf entryFormat (c :: rest) 0).fields[0]? = some (c :: key) := by
  have hne : (c != 61) = true := by
    rcases begins_cases hbegins with rfl | rfl | rfl | rfl <;> decide
  have hfield := setField_cons (fun c => c != 61) hne rest
  unfold entryFormat
  rw [scanf]
  dsimp only
  rw [hfield, if_neg (List.cons_ne_nil c _), ← hfield, drop_setField]
  refine ⟨?_, setField none (fun c => c != 61) rest, by rw [hfield]; rfl⟩
  have hsuffix : (c :: rest).dropWhile (· != 61) <:+ c :: rest := List.dropWhile_suffix _
  cases hkey : (c :: rest).dropWhile (· != 61) with
  | nil => exact h.suffix (List.nil_suffix) fun c hc => by cases hc
  | cons d tail =>
    have hd : d = 61 := by
      have hhead : ((c :: rest).dropWhile (· != 61)).head? = some d := by
        rw [hkey]
        rfl
      exact bne_eq_false_iff_eq.mp (head?_dropWhile (fun c => c != 61) hhead)
    have htail : tail <:+ c :: rest := (List.suffix_cons d tail).trans (hkey ▸ hsuffix)
    rw [scanf, if_pos hd]
    cases tail with
    | nil => exact h.suffix htail fun c hc => by cases hc
    | cons e tail =>
      rw [scanf]
      dsimp only
      split
      · -- there is no value
        rename_i hempty
        refine h.value htail fun c' hc' => ?_
        obtain rfl : e = c' := Option.some.inj hc'
        cases hvalue : (e != 10 && e != 13) with
        | false => rfl
        | true =>
          rw [setField_cons (fun c => c != 10 && c != 13) hvalue] at hempty
          exact absurd hempty (List.cons_ne_nil e _)
      · rw [drop_setField]
        refine (Quiet.skip ?_).1
        exact h.value ((List.dropWhile_suffix _).trans htail) fun c' hc' =>
          head?_dropWhile _ hc'

/-- The reader has found no item yet. -/
structure Idle (r : Reading) : Prop where
  quiet : Quiet r.rest
  file : r.file = []
  list : r.list = []

theorem buffered_some {old : Option Text} {field : Text} {b : Option Text}
    (h : buffered old (some field) = .ok b) : b = some field := by
  unfold buffered strcpyPath at h
  obtain ⟨s, hs, hb⟩ := bind_eq_ok.mp h
  split at hs
  · cases hs
    cases hb
    rfl
  · cases hs

/-- A key that begins as a line does is none that is looked for. -/
theorem entry_idle {root : Text} {r r' : Reading} {c : UInt8} {key : Text}
    (hbegins : begins c = true) (hkey : r.key = some (c :: key))
    (h : entry root r = .ok r') : r' = r := by
  have hcStr : cStr (c :: key) = c :: cStr key := by
    refine List.takeWhile_cons_of_pos ?_
    rcases begins_cases hbegins with rfl | rfl | rfl | rfl <;> decide
  have hfile : (bytes "File").isPrefixOf (c :: cStr key) = false := by
    rcases begins_cases hbegins with rfl | rfl | rfl | rfl <;> rfl
  have htitle : (bytes "Title").isPrefixOf (c :: cStr key) = false := by
    rcases begins_cases hbegins with rfl | rfl | rfl | rfl <;> rfl
  have hlength : (bytes "Length").isPrefixOf (c :: cStr key) = false := by
    rcases begins_cases hbegins with rfl | rfl | rfl | rfl <;> rfl
  unfold entry readBuffer at h
  rw [hkey] at h
  obtain ⟨k, hk, h⟩ := bind_eq_ok.mp h
  cases hk
  rw [hcStr, hfile, htitle, hlength] at h
  cases h
  rfl

theorem round_idle {root : Text} {r r' : Reading} (hr : Idle r) (h : round root r = .ok r') :
    Idle r' := by
  obtain ⟨hrest, hfields, hret⟩ := section_quiet hr.quiet
  obtain ⟨hskip, hline⟩ := hr.quiet.skip
  unfold round at h
  dsimp only at h
  obtain ⟨key, hkey, h⟩ := bind_eq_ok.mp h
  rw [hrest] at h
  split at h
  · cases h
    exact ⟨hskip, hr.file, hr.list⟩
  · rename_i hzero
    rw [ne_eq, not_not] at hzero
    obtain ⟨c, rest, hcons⟩ := List.exists_cons_of_ne_nil (hret hzero)
    rw [hcons] at hskip hline h
    have hbegins := hline c rfl
    obtain ⟨hquiet, k, hk⟩ := entry_quiet hbegins hskip
    obtain ⟨key', hkey', h⟩ := bind_eq_ok.mp h
    obtain ⟨value, -, h⟩ := bind_eq_ok.mp h
    rw [hk] at hkey'
    obtain rfl := buffered_some hkey'
    split at h
    · obtain rfl := entry_idle hbegins rfl h
      exact ⟨hquiet, hr.file, hr.list⟩
    · cases h
      exact ⟨hquiet, hr.file, hr.list⟩

theorem loop_idle {root : Text} : ∀ (fuel : Nat) {r r' : Reading}, Idle r →
    loop root fuel r = some (.ok r') → Idle r' := by
  intro fuel
  induction fuel with
  | zero => exact fun _ h => absurd h nofun
  | succ fuel ih =>
    intro r r' hr h
    rw [loop] at h
    split at h
    · cases h
      exact hr
    · cases hround : round root r with
      | error fault =>
        rw [hround] at h
        exact absurd (Option.some.inj h) nofun
      | ok r₂ =>
        rw [hround] at h
        exact ih (round_idle hr hround) h

/-! ## What is written is not read back -/

/-- A string without the ends of lines that the reader knows. -/
structure LineFree (s : Text) : Prop where
  nulFree : NulFree s
  noNewline : (10 : UInt8) ∉ s
  noReturn : (13 : UInt8) ∉ s

theorem LineFree.protocol {path : Text} (h : LineFree path) : LineFree (protocol ++ path) where
  nulFree hmem := (List.mem_append.mp hmem).elim (by decide) h.nulFree
  noNewline hmem := (List.mem_append.mp hmem).elim (by decide) h.noNewline
  noReturn hmem := (List.mem_append.mp hmem).elim (by decide) h.noReturn

/-- The URLs of files, which are known by their absolute paths, and of streams. -/
inductive Kept : Text → Prop where
  | file {path : Text} : path.head? = some dirMarker → LineFree path → Kept (protocol ++ path)
  | stream {url : Text} : (bytes "http://").isPrefixOf url = true ∨
      (bytes "rtp://").isPrefixOf url = true → LineFree url → Kept url

theorem Quiet.line {c : UInt8} {s text : Text} (hbegins : begins c = true)
    (hs : LineFree (c :: s)) (h : Quiet text)
    (hhead : ∀ d, text.head? = some d → begins d = true) :
    Quiet (c :: s ++ [10] ++ text) := by
  refine ⟨?_, ?_, ?_⟩
  · intro before d after hsplit
    rw [List.append_assoc, List.append_eq_append_iff] at hsplit
    rcases hsplit with ⟨x, -, hx⟩ | ⟨x, hx, hx'⟩
    · cases x with
      | nil =>
        obtain rfl : text = d :: after := (List.cons.inj hx).2
        exact hhead d rfl
      | cons e x => exact h.lines x d after (List.cons.inj hx).2
    · cases x with
      | nil =>
        obtain rfl : d :: after = text := (List.cons.inj hx').2
        exact hhead d rfl
      | cons e x =>
        obtain rfl : 10 = e := (List.cons.inj hx').1
        refine absurd ?_ hs.noNewline
        rw [hx]
        exact List.mem_append_right before List.mem_cons_self
  · intro hmem
    rcases List.mem_append.mp hmem with hmem | hmem
    · rcases List.mem_append.mp hmem with hmem | hmem
      · exact hs.noReturn hmem
      · exact absurd hmem (by decide)
    · exact h.noReturn hmem
  · intro d hd
    obtain rfl : c = d := Option.some.inj hd
    exact .inl hbegins

theorem urlLine_begins {url : Text} (h : Kept url) :
    ∃ c s, urlLine (cStr url) = c :: s ++ [10] ∧ begins c = true ∧ LineFree (c :: s) := by
  have hnul : NulFree url := by
    cases h with
    | file hslash hfree => exact hfree.protocol.nulFree
    | stream hscheme hfree => exact hfree.nulFree
  unfold urlLine urlToFilePath
  rw [hnul.cStr_eq]
  cases h with
  | @file path hslash hfree =>
    obtain ⟨rest, rfl⟩ := List.head?_eq_some_iff.mp hslash
    rw [if_pos (isFileURL_append _), List.drop_left]
    dsimp only
    split
    · -- too long a path: the URL is written as it is
      exact ⟨102, bytes "ile://" ++ dirMarker :: rest, rfl, rfl, hfree.protocol⟩
    · rename_i path hpath
      split at hpath
      · cases hpath
        exact ⟨dirMarker, rest, rfl, rfl, hfree⟩
      · cases hpath
  | stream hscheme hfree =>
    obtain ⟨c, rest, rfl, hc⟩ := M3u.stream_cons hscheme
    rw [M3u.isFileURL_stream rest hc]
    refine ⟨c, rest, rfl, ?_, hfree⟩
    rcases hc with rfl | rfl <;> rfl

theorem urlLines_quiet : ∀ items : List PlaylistItem, (∀ item ∈ items, Kept item.url) →
    Quiet (items.flatMap fun item => urlLine (cStr item.url)) ∧
      ∀ d, (items.flatMap fun item => urlLine (cStr item.url)).head? = some d →
        begins d = true := by
  intro items
  induction items with
  | nil =>
    intro _
    refine ⟨⟨fun before c after h => ?_, List.not_mem_nil, fun c hc => absurd hc nofun⟩,
      fun d hd => absurd hd nofun⟩
    exact absurd h (List.append_ne_nil_of_right_ne_nil before (List.cons_ne_nil 10 _)).symm
  | cons item items ih =>
    intro h
    obtain ⟨hquiet, hhead⟩ := ih fun other hother => h other (List.mem_cons_of_mem item hother)
    obtain ⟨c, s, hline, hbegins, hfree⟩ := urlLine_begins (h item List.mem_cons_self)
    rw [List.flatMap_cons, hline]
    refine ⟨hquiet.line hbegins hfree hhead, fun d hd => ?_⟩
    obtain rfl : c = d := Option.some.inj hd
    exact hbegins

/-- What is read of a playlist that has been written: nothing. -/
theorem readPlaylist_nothing {path text : Text} {files : Files} (hpath : path.length < maxPath)
    (hfile : files.contents path = some text) (hquiet : Quiet text) {fuel : Nat}
    {back : List PlaylistItem}
    (h : readPlaylist fuel (protocol ++ path) files = some (.ok (.noErr, back))) : back = [] := by
  unfold readPlaylist at h
  rw [urlToFilePath_append hpath] at h
  dsimp only at h
  rw [hfile] at h
  obtain ⟨r, hloop, hr⟩ := Option.map_eq_some_iff.mp h
  obtain ⟨r', rfl, hlast⟩ := bind_eq_ok.mp hr
  obtain ⟨list, hlist, hback⟩ := bind_eq_ok.mp hlast
  cases hback
  have hidle : Idle r' := loop_idle fuel ⟨hquiet, rfl, rfl⟩ hloop
  unfold lastItem at hlist
  rw [hidle.file] at hlist
  cases hlist
  exact hidle.list

/-- A playlist that is written is read back exactly if there is nothing in it. -/
theorem pls_comes_back {path extension : Text} {files : Files}
    {items : List PlaylistItem} (hpath : path.length < maxPath)
    (hextension : extension.map toLower = bytes "pls") (hwritable : files.writable path = true)
    (hitems : ∀ item ∈ items, Kept item.url) :
    (∃ files' fuel back,
      writePlaylist (protocol ++ path) extension items files = .ok (.noErr, files') ∧
      readPlaylist fuel (protocol ++ path) files' = some (.ok (.noErr, back)) ∧
      back.map (·.url) = items.map (·.url)) ↔ items = [] := by
  have hwrite : writePlaylist (protocol ++ path) extension items files =
      .ok (.noErr, files.write path (items.flatMap fun item => urlLine (cStr item.url))) := by
    unfold writePlaylist writePlaylistAs
    rw [if_pos hextension, urlToFilePath_append hpath]
    dsimp only
    rw [if_pos hwritable]
    rfl
  have hcontents : (files.write path (items.flatMap fun item =>
      urlLine (cStr item.url))).contents path =
        some (items.flatMap fun item => urlLine (cStr item.url)) := if_pos rfl
  constructor
  · rintro ⟨files', fuel, back, hfiles, hread, hback⟩
    rw [hwrite] at hfiles
    cases hfiles
    rw [readPlaylist_nothing hpath hcontents (urlLines_quiet items hitems).1 hread] at hback
    exact List.map_eq_nil_iff.mp hback.symm
  · rintro rfl
    refine ⟨_, 2, [], hwrite, ?_, rfl⟩
    unfold readPlaylist
    rw [urlToFilePath_append hpath]
    dsimp only
    rw [hcontents]
    rfl

theorem pls_comes_back_nil :
    (∃ files' fuel back,
      writePlaylist (protocol ++ bytes "/p") (bytes "pls") [] M3u.writableFiles =
        .ok (.noErr, files') ∧
      readPlaylist fuel (protocol ++ bytes "/p") files' = some (.ok (.noErr, back)) ∧
      back.map (·.url) = ([] : List PlaylistItem).map (·.url)) ↔ ([] : List PlaylistItem) = [] :=
  pls_comes_back (by decide) (by decide) rfl fun _ h => absurd h List.not_mem_nil

/-- One file is written, and none is read. -/
theorem one_item_lost : Kept (bytes "file:///a") ∧ ∃ files',
    writePlaylist (protocol ++ bytes "/p") (bytes "pls")
        [.create (bytes "file:///a") default] M3u.writableFiles = .ok (.noErr, files') ∧
      readPlaylist 2 (protocol ++ bytes "/p") files' = some (.ok (.noErr, [])) :=
  ⟨@Kept.file (bytes "/a") rfl ⟨by decide, by decide, by decide⟩, _, rfl, rfl⟩

end Pls

end FreeAmp.Plm
