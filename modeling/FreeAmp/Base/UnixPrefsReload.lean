/-
  Base/UnixPrefsReload.lean --- what is loaded of a file that has been saved, from
  `base/unix/src/unixprefs.cpp`.

  `Save` writes an entry after the other, and the constructor reads a line after the
  other.  `fits` says when the lines are the entries:

      readLines_append   a file that comes in two parts
      reads_line         the line of an entry
      reload             all entries
      prefs_come_back    the preferences that are set, saved and loaded
-/
import FreeAmp.Base.UnixPrefsEntries

namespace FreeAmp.Base

open FreeAmp.Lib

namespace UnixPrefs

/-! ## The condition -/

/-- The value is in quotes, or what follows it does not belong to it; the blanks behind an empty
value belong to the separator. -/
def closes (value suffix : Text) : Bool :=
  needQuotes (bytes "#") value ||
    match (if value = [] then suffix.dropWhile isBlank else suffix).head? with
    | none => true
    | some c => isSpace c || c == 35

/-- The line of the entry is read with one `fgets`, and its key is not taken for the name of a
file. -/
def lineFits (e : UnixPrefEntry) : Bool :=
  match e.key, e.separator, e.value, e.suffix with
  | some key, some _, some value, some suffix =>
    key.head? != some 47 && closes value suffix &&
      decide ((keyText e).length + suffix.length ≤ 1022)
  | _, _, _, _ => true

/-- The comments are read as comments, and end where a line does if another is to follow. -/
def commentsFit (e : UnixPrefEntry) (last : Bool) : Bool :=
  match e.comments with
  | none => true
  | some t =>
    (pieces (· == 10) 1022 1022 t).all (fun line => line.head? == some 35) &&
      (last || t.getLast? == some 10)

/-- What is written is read as it was meant. -/
def fits : List UnixPrefEntry → Bool
  | [] => true
  | e :: entries =>
    commentsFit e (entries.isEmpty && e.separator.isNone) && lineFits e && fits entries

/-! ## The lines of a file -/

theorem readLines_append (l : Loading) {s : Text} (hs : s = [] ∨ s.getLast? = some 10) (t : Text) :
    l.readLines (s ++ t) = (l.readLines s).readLines t := by
  rcases hs with rfl | hs
  · rfl
  · unfold Loading.readLines
    rw [pieces_append (· == 10) 1022 1022 10 hs rfl t, List.foldl_append]

theorem readLines_line (l : Loading) {body : Text} (hnul : NulFree body) (hline : 10 ∉ body)
    (hlt : body.length < 1022) : l.readLines (body ++ [10]) = l.readLine (body ++ [10]) := by
  have hnot : ∀ c ∈ body, (c == 10) = false := by
    intro c hc
    rw [beq_eq_false_iff_ne]
    rintro rfl
    exact hline hc
  have hnul' : NulFree (body ++ [10]) := hnul.append (by decide)
  unfold Loading.readLines
  rw [pieces_line (· == 10) 1022 rfl hnot hlt, List.foldl_cons, List.foldl_nil, hnul'.cStr_eq]

theorem readLines_comments {l : Loading} (hbare : l.entry.Bare) {t : Text} (hnul : NulFree t)
    (hlines : (pieces (· == 10) 1022 1022 t).all (fun line => line.head? == some 35) = true) :
    (l.readLines t).entries = l.entries ∧
      (l.readLines t).errorLineNumber = l.errorLineNumber ∧ (l.readLines t).entry.Bare ∧
        (l.readLines t).entry.comments.getD [] = l.entry.comments.getD [] ++ t := by
  have hflat := flatten_pieces (· == 10) 1022 t 1022
  unfold Loading.readLines
  generalize pieces (· == 10) 1022 1022 t = lines at hlines hflat
  induction lines generalizing l t with
  | nil =>
    obtain rfl : [] = t := hflat
    exact ⟨rfl, rfl, hbare, (List.append_nil _).symm⟩
  | cons line lines ih =>
    obtain rfl : line ++ lines.flatten = t := hflat
    rw [List.all_cons, Bool.and_eq_true] at hlines
    have hnulLine : NulFree line := hnul.of_subset (List.subset_append_left _ _)
    have hnulRest : NulFree lines.flatten := hnul.of_subset (List.subset_append_right _ _)
    have hread : l.readLine line = { l with
        entry := { l.entry with comments := appendToString l.entry.comments line }
        lineNumber := l.lineNumber + 1 } := by
      unfold Loading.readLine
      rw [if_pos hlines.1]
    have hbare' : (l.readLine line).entry.Bare := by
      rw [hread]
      exact hbare.append hnulLine
    obtain ⟨hentries, herror, hbare'', hcomments⟩ := ih hbare' hnulRest hlines.2 rfl
    rw [List.foldl_cons, hnulLine.cStr_eq]
    refine ⟨?_, ?_, hbare'', ?_⟩
    · rw [hentries, hread]
    · rw [herror, hread]
    · rw [hcomments, hread, appendToString, Option.getD_some, List.append_assoc]

/-! ## The line of an entry -/

theorem delims_key : Delims (bytes ":#") := ⟨by decide, by decide, by decide⟩

theorem delims_value : Delims (bytes "#") := ⟨by decide, by decide, by decide⟩

theorem isSpace_of_isBlank {c : UInt8} (h : isBlank c = true) : isSpace c = true := by
  unfold isBlank at h
  rw [Bool.or_eq_true, beq_iff_eq, beq_iff_eq] at h
  rcases h with rfl | rfl <;> rfl

theorem ends_separator {separator : Text} (h : Separates separator) (t : Text) :
    Ends (bytes ":#") (separator ++ t) := by
  obtain ⟨b, b', hb, -, rfl⟩ := h
  intro c s heq
  cases b with
  | nil =>
    obtain rfl := (List.cons.inj heq).1
    rfl
  | cons d b =>
    obtain rfl := (List.cons.inj heq).1
    rw [isSpace_of_isBlank (hb d List.mem_cons_self)]
    rfl

theorem ends_of_closes {value suffix : Text} (h : closes value suffix = true) :
    needQuotes (bytes "#") value = true ∨
      Ends (bytes "#") (if value = [] then suffix.dropWhile isBlank else suffix) := by
  unfold closes at h
  rw [Bool.or_eq_true] at h
  refine h.imp_right fun hnext => ?_
  intro c t heq
  rw [heq] at hnext
  simp only [List.head?_cons, Bool.or_eq_true, beq_iff_eq] at hnext
  rw [Bool.or_eq_true, List.contains_iff_mem]
  exact hnext.imp_right fun hc => by rw [hc]; exact List.mem_singleton.mpr rfl

/-- The blanks in front of a `#` do not belong to a comment. -/
theorem dropWhile_comment (s : Text) :
    (s.dropWhile isBlank).dropWhile (· != 35) = s.dropWhile (· != 35) := by
  conv_rhs => rw [← List.takeWhile_append_dropWhile (p := isBlank) (l := s)]
  rw [List.dropWhile_append_of_pos]
  intro c hc
  have hblank := List.mem_takeWhile_imp hc
  rw [bne_iff_ne]
  rintro rfl
  exact absurd hblank (by decide)

theorem getLast?_dropWhile_blank (body : Text) :
    ((body ++ [10]).dropWhile isBlank).getLast? = some 10 := by
  have hne : (body ++ [10]).dropWhile isBlank ≠ [] := by
    rw [Ne, List.dropWhile_eq_nil_iff]
    intro h
    exact absurd (h 10 (List.mem_append_right body List.mem_cons_self)) (by decide)
  have hlast := congrArg List.getLast? (List.takeWhile_append_dropWhile (p := isBlank)
    (l := body ++ [10]))
  rw [List.getLast?_append_of_ne_nil _ hne, List.getLast?_concat] at hlast
  exact hlast

/-- What is read of a line that has been written: the key and the value, and the comment. -/
theorem reads_line {l : Loading} {key separator value body : Text} (hsep : Separates separator)
    (hnul : NulFree key ∧ NulFree value ∧ NulFree body) (hfile : key.head? ≠ some 47)
    (hfresh : l.entries.any (UnixPrefEntry.isOf key) = false)
    (hcloses : closes value (body ++ [10]) = true) :
    ∃ separator' rest, Loading.Reads l (writeQuotableString (bytes ":#") key ++ separator ++
        writeQuotableString (bytes "#") value ++ (body ++ [10])) key separator' value rest ∧
      (closeLine rest).dropWhile (· != 35) = (body ++ [10]).dropWhile (· != 35) := by
  have hkey := readQuotableString_write delims_key hnul.1
    (.inr (ends_separator hsep (writeQuotableString (bytes "#") value ++ (body ++ [10]))))
  rw [← List.append_assoc, ← List.append_assoc] at hkey
  by_cases hwritten : writeQuotableString (bytes "#") value = []
  · -- an empty value: the separator takes the blanks behind it
    have hvalue : value = [] := by
      cases value with
      | nil => rfl
      | cons c value => exact absurd hwritten (writeQuotableString_ne_nil (List.cons_ne_nil c value))
    subst hvalue
    rw [hwritten, List.nil_append] at hkey
    have hends := (ends_of_closes hcloses).resolve_left (by decide)
    rw [if_pos rfl] at hends
    have hread := readQuotableString_write delims_value nulFree_nil (.inr hends)
    rw [hwritten, List.nil_append] at hread
    obtain ⟨b, b', hb, hb', hcolon⟩ := hsep
    refine ⟨separator ++ (body ++ [10]).takeWhile isBlank, (body ++ [10]).dropWhile isBlank,
      ⟨⟨(body ++ [10]).dropWhile isBlank, ?_, begins_dropWhile _, hread⟩,
        ⟨b, b' ++ (body ++ [10]).takeWhile isBlank, hb, ?_, ?_⟩, hfile, hfresh⟩, ?_⟩
    · rw [hwritten, List.append_nil, List.append_assoc separator, List.takeWhile_append_dropWhile]
      rw [List.append_nil] at hkey
      exact hkey
    · intro c hc
      rcases List.mem_append.mp hc with hc | hc
      · exact hb' c hc
      · exact List.mem_takeWhile_imp hc
    · rw [hcolon, List.append_assoc, List.cons_append]
    · rw [closeLine, if_pos (by rw [getLast?_dropWhile_blank]; rfl), dropWhile_comment]
  · refine ⟨separator, body ++ [10], ⟨⟨writeQuotableString (bytes "#") value ++ (body ++ [10]),
      hkey, ?_, ?_⟩, hsep, hfile, hfresh⟩, ?_⟩
    · intro c hc
      obtain ⟨d, t, hdt⟩ := List.exists_cons_of_ne_nil hwritten
      rw [hdt] at hc
      obtain rfl : d = c := Option.some.inj hc
      have hhead := head_write delims_value hdt
      rw [Bool.or_eq_false_iff] at hhead
      rw [← Bool.not_eq_true]
      intro hblank
      rw [isSpace_of_isBlank hblank] at hhead
      exact absurd hhead.1 nofun
    · have hends := ends_of_closes hcloses
      have hne : value = [] → needQuotes (bytes "#") value = true := by
        rintro rfl
        exact absurd rfl hwritten
      refine readQuotableString_write delims_value hnul.2.1 ?_
      by_cases hvalue : value = []
      · exact .inl (hne hvalue)
      · rw [if_neg hvalue] at hends
        exact hends
    · rw [closeLine, if_pos (by rw [List.getLast?_concat]; rfl)]

/-! ## All entries -/

/-- What has been read of the entries. -/
structure Reloaded (l l' : Loading) (entries : List UnixPrefEntry) : Prop where
  error : l'.errorLineNumber = 0
  bare : l'.entry.Bare
  pairs : pairs l'.entries = pairs l.entries ++ pairs entries
  comments : comments l'.entries ++ l'.entry.comments.getD [] =
    comments l.entries ++ l.entry.comments.getD [] ++ comments entries

theorem Reloaded.trans {l l' l'' : Loading} {e : UnixPrefEntry} {entries : List UnixPrefEntry}
    (h : Reloaded l l' [e]) (h' : Reloaded l' l'' entries) : Reloaded l l'' (e :: entries) := by
  refine ⟨h'.error, h'.bare, ?_, ?_⟩
  · rw [h'.pairs, h.pairs, List.append_assoc, ← pairs_append, List.singleton_append]
  · rw [h'.comments, h.comments, List.append_assoc, ← comments_append, List.singleton_append]

theorem readLines_commentsFit {l : Loading} (hbare : l.entry.Bare) {e : UnixPrefEntry}
    (hnul : ∀ t, e.comments = some t → NulFree t) {last : Bool}
    (hfit : commentsFit e last = true) :
    (l.readLines (e.comments.getD [])).entries = l.entries ∧
      (l.readLines (e.comments.getD [])).errorLineNumber = l.errorLineNumber ∧
        (l.readLines (e.comments.getD [])).entry.Bare ∧
          (l.readLines (e.comments.getD [])).entry.comments.getD [] =
            l.entry.comments.getD [] ++ e.comments.getD [] := by
  unfold commentsFit at hfit
  cases hcomments : e.comments with
  | none => exact ⟨rfl, rfl, hbare, (List.append_nil _).symm⟩
  | some t =>
    rw [hcomments] at hfit
    rw [Bool.and_eq_true] at hfit
    exact readLines_comments hbare (hnul t hcomments) hfit.1

theorem reload_bare {l : Loading} (herror : l.errorLineNumber = 0) (hbare : l.entry.Bare)
    {e : UnixPrefEntry} (he : e.Bare) {last : Bool} (hfit : commentsFit e last = true) :
    Reloaded l (l.readLines (e.comments.getD [])) [e] := by
  obtain ⟨hentries, herror', hbare', hcomments⟩ :=
    readLines_commentsFit hbare he.nulFree hfit
  refine ⟨herror'.trans herror, hbare', ?_, ?_⟩
  · have hpairs : pairs [e] = [] := by
      rw [pairs, List.filterMap_cons_none he.pair]
      rfl
    rw [hentries, hpairs, List.append_nil]
  · have hsuffix : comments [e] = e.comments.getD [] := by
      rw [comments, List.flatMap_singleton, UnixPrefEntry.commentText, he.suffix]
      exact List.append_nil _
    rw [hentries, hcomments, hsuffix, List.append_assoc]

/-- Blanks and a colon are in a line, and do not begin a comment. -/
theorem separates_spec {separator : Text} (h : Separates separator) :
    NulFree separator ∧ 10 ∉ separator ∧ ∀ t, ∃ c s, separator ++ t = c :: s ∧ c ≠ 35 := by
  obtain ⟨b, b', hb, hb', rfl⟩ := h
  have hmem : ∀ c ∈ b ++ 58 :: b', isBlank c = true ∨ c = 58 := by
    intro c hc
    rcases List.mem_append.mp hc with hc | hc
    · exact .inl (hb c hc)
    · rcases List.mem_cons.mp hc with hc | hc
      · exact .inr hc
      · exact .inl (hb' c hc)
  refine ⟨fun h0 => absurd (hmem 0 h0) (by decide), fun h10 => absurd (hmem 10 h10) (by decide),
    fun t => ?_⟩
  cases b with
  | nil => exact ⟨58, b' ++ t, rfl, by decide⟩
  | cons c b =>
    refine ⟨c, b ++ 58 :: b' ++ t, rfl, ?_⟩
    rintro rfl
    exact absurd (hb 35 List.mem_cons_self) (by decide)

/-- The first character of a line that has been written. -/
theorem head_line (key : Text) {separator : Text} (hsep : Separates separator) (t : Text) :
    ∃ c s, writeQuotableString (bytes ":#") key ++ (separator ++ t) = c :: s ∧ c ≠ 35 := by
  cases hwritten : writeQuotableString (bytes ":#") key with
  | nil => exact (separates_spec hsep).2.2 t
  | cons c s =>
    refine ⟨c, s ++ (separator ++ t), rfl, ?_⟩
    have hhead := head_write delims_key hwritten
    rintro rfl
    exact absurd hhead (by decide)

theorem reload_line {l : Loading} (herror : l.errorLineNumber = 0) (hbare : l.entry.Bare)
    {e : UnixPrefEntry} {key separator value body : Text} (he : e.Full key separator value body)
    (hfit : lineFits e = true) (hfresh : key ∉ keys l.entries) :
    Reloaded l (l.readLines (keyText e ++ (body ++ [10]))) [{ e with comments := none }] := by
  obtain ⟨hnulKey, hnulValue, hnulBody⟩ := he.nulFree
  obtain ⟨hnulSep, hlineSep, -⟩ := separates_spec he.separates
  have htext : keyText e = writeQuotableString (bytes ":#") key ++ separator ++
      writeQuotableString (bytes "#") value := by
    rw [he.entry]
    rfl
  have hparts : key.head? ≠ some 47 ∧ closes value (body ++ [10]) = true ∧
      (keyText e).length + (body ++ [10]).length ≤ 1022 := by
    rw [he.entry] at hfit
    unfold lineFits at hfit
    simp only [Bool.and_eq_true, bne_iff_ne, decide_eq_true_eq] at hfit
    rw [he.entry]
    exact ⟨hfit.1.1, hfit.1.2, hfit.2⟩
  obtain ⟨hfile, hcloses, hlength⟩ := hparts
  have hline : l.readLines (keyText e ++ (body ++ [10])) =
      l.readLine (keyText e ++ (body ++ [10])) := by
    rw [← List.append_assoc]
    refine readLines_line l ?_ ?_ ?_
    · rw [htext]
      exact (((nulFree_write hnulKey).append hnulSep).append (nulFree_write hnulValue)).append
        hnulBody
    · rw [htext]
      simp only [List.mem_append, not_or]
      exact ⟨⟨⟨newline_write delims_key key, hlineSep⟩, newline_write delims_value value⟩, he.line⟩
    · rw [List.length_append, List.length_singleton] at hlength
      rw [List.length_append]
      omega
  have hfresh' : l.entries.any (UnixPrefEntry.isOf key) = false := by
    rw [← Bool.not_eq_true, ← mem_keys_iff]
    exact hfresh
  obtain ⟨separator', rest, hreads, hcomment⟩ :=
    reads_line (l := { l with lineNumber := l.lineNumber + 1 }) he.separates
      ⟨hnulKey, hnulValue, hnulBody⟩ hfile hfresh' hcloses
  rw [← htext] at hreads
  have hread : l.readLine (keyText e ++ (body ++ [10])) = { l with
      entries := l.entries ++ [Loading.completed l.entry key separator' value rest]
      entry := UnixPrefEntry.new
      lineNumber := l.lineNumber + 1 } := by
    obtain ⟨c, s, hcs, hne⟩ :=
      head_line key he.separates (writeQuotableString (bytes "#") value ++ (body ++ [10]))
    have hcons : keyText e ++ (body ++ [10]) = c :: s := by
      rw [htext, ← hcs, List.append_assoc, List.append_assoc]
    unfold Loading.readLine
    rw [hcons] at hreads ⊢
    rw [if_neg (by simpa using hne), if_neg (List.cons_ne_nil c s)]
    exact Loading.readEntry_of_reads hreads
  rw [hline, hread]
  have hline' : ({ e with comments := none } : UnixPrefEntry) =
      ⟨none, some key, some separator, some value, some (body ++ [10])⟩ := by
    rw [he.entry]
  rw [hline']
  refine ⟨herror, ⟨rfl, rfl, rfl, nofun⟩, pairs_append _ _, ?_⟩
  have hcompleted : (Loading.completed l.entry key separator' value rest).commentText =
      l.entry.comments.getD [] ++ (closeLine rest).dropWhile (· != 35) := by
    rw [Loading.completed, UnixPrefEntry.commentText, hbare.suffix]
    rfl
  have hafter : comments (l.entries ++ [Loading.completed l.entry key separator' value rest]) =
      comments l.entries ++ (l.entry.comments.getD [] ++ (body ++ [10]).dropWhile (· != 35)) := by
    rw [comments_append, ← hcomment, ← hcompleted]
    exact congrArg _ (List.append_nil _)
  have hbefore : comments [(⟨none, some key, some separator, some value,
      some (body ++ [10])⟩ : UnixPrefEntry)] = (body ++ [10]).dropWhile (· != 35) :=
    List.append_nil _
  rw [hafter, hbefore, List.append_assoc (comments l.entries) (l.entry.comments.getD [])]
  exact List.append_nil _

/-- Comments that are not the last thing in the file end a line. -/
theorem ends_comments {e : UnixPrefEntry} (h : commentsFit e false = true) :
    e.comments.getD [] = [] ∨ (e.comments.getD []).getLast? = some 10 := by
  unfold commentsFit at h
  cases hc : e.comments with
  | none => exact .inl rfl
  | some t =>
    rw [hc] at h
    simp only [Bool.and_eq_true, Bool.false_or, beq_iff_eq] at h
    exact .inr h.2

theorem text_bare {e : UnixPrefEntry} (he : e.Bare) : text e = e.comments.getD [] := by
  have hkey : keyText e = [] := by
    unfold keyText
    rw [he.separator]
    cases e.key <;> rfl
  rw [text, hkey, he.suffix, List.append_nil]
  exact List.append_nil _

theorem text_full {e : UnixPrefEntry} {key separator value body : Text}
    (he : e.Full key separator value body) :
    text e = e.comments.getD [] ++ (keyText e ++ (body ++ [10])) := by
  rw [text, List.append_assoc]
  rw [he.entry]
  rfl

theorem ends_text {e : UnixPrefEntry} (he : e.Sane) (h : commentsFit e false = true) :
    text e = [] ∨ (text e).getLast? = some 10 := by
  rcases he with he | ⟨key, separator, value, body, he⟩
  · rw [text_bare he]
    exact ends_comments h
  · rw [text_full he, ← List.append_assoc, ← List.append_assoc]
    exact .inr List.getLast?_concat

theorem reload_entry {l : Loading} (herror : l.errorLineNumber = 0) (hbare : l.entry.Bare)
    {e : UnixPrefEntry} (he : e.Sane) {last : Bool} (hcomments : commentsFit e last = true)
    (hline : lineFits e = true) (hfresh : (keys l.entries ++ keys [e]).Nodup)
    (hlast : e.separator.isSome = true → last = false) :
    Reloaded l (l.readLines (text e)) [e] := by
  rcases he with he | ⟨key, separator, value, body, he⟩
  · rw [text_bare he]
    exact reload_bare herror hbare he hcomments
  · obtain ⟨hentries, herror', hbare', hread⟩ :=
      readLines_commentsFit hbare he.comments hcomments
    have hends := ends_comments (hlast (by rw [he.entry]; rfl) ▸ hcomments)
    have hnot : key ∉ keys (l.readLines (e.comments.getD [])).entries := by
      rw [hentries]
      rw [keys_full he, List.nodup_append] at hfresh
      intro hmem
      exact hfresh.2.2 key hmem key List.mem_cons_self rfl
    have hreload := reload_line (herror'.trans herror) hbare' he hline hnot
    rw [text_full he, readLines_append l hends]
    refine ⟨hreload.error, hreload.bare, ?_, ?_⟩
    · rw [hreload.pairs, hentries]
      rfl
    · rw [hreload.comments, hentries, hread]
      have hsplit : comments [e] =
          e.comments.getD [] ++ comments [({ e with comments := none } : UnixPrefEntry)] := by
        rw [comments, comments, List.flatMap_singleton, List.flatMap_singleton]
        rfl
      rw [hsplit, List.append_assoc, List.append_assoc, List.append_assoc]

theorem reload : ∀ {entries : List UnixPrefEntry} {l : Loading}, l.errorLineNumber = 0 →
    l.entry.Bare → (∀ e ∈ entries, e.Sane) → (keys l.entries ++ keys entries).Nodup →
      fits entries = true → Reloaded l (l.readLines (entries.flatMap text)) entries := by
  intro entries
  induction entries with
  | nil =>
    intro l herror hbare _ _ _
    exact ⟨herror, hbare, (List.append_nil _).symm, (List.append_nil _).symm⟩
  | cons e entries ih =>
    intro l herror hbare hsane hkeys hfits
    rw [fits, Bool.and_eq_true, Bool.and_eq_true] at hfits
    obtain ⟨⟨hcomments, hline⟩, hfits⟩ := hfits
    have hcons : keys (e :: entries) = keys [e] ++ keys entries := keys_append [e] entries
    rw [hcons, ← List.append_assoc] at hkeys
    have hfirst : (keys l.entries ++ keys [e]).Nodup := hkeys.of_append_left
    have hlast : e.separator.isSome = true → (entries.isEmpty && e.separator.isNone) = false := by
      intro hsome
      rw [Option.isSome_iff_exists] at hsome
      obtain ⟨separator, hsep⟩ := hsome
      rw [hsep, Option.isNone_some, Bool.and_false]
    have hentry := reload_entry herror hbare (hsane e List.mem_cons_self) hcomments hline hfirst
      hlast
    rw [List.flatMap_cons]
    cases entries with
    | nil =>
      rw [List.flatMap_nil, List.append_nil]
      exact hentry
    | cons e' entries =>
      rw [List.isEmpty_cons, Bool.false_and] at hcomments
      rw [readLines_append l (ends_text (hsane e List.mem_cons_self) hcomments)]
      refine hentry.trans (ih hentry.error hentry.bare
        (fun e he => hsane e (List.mem_cons_of_mem _ he)) ?_ hfits)
      rw [keys, hentry.pairs, ← pairs_append, ← keys, keys_append]
      exact hkeys

/-- What is loaded of the entries that have been saved. -/
theorem load_text {entries : List UnixPrefEntry} (h : Sound entries) (hfits : fits entries = true) :
    (load (some (entries.flatMap text))).errorLineNumber = 0 ∧
      (load (some (entries.flatMap text))).saveEnable = true ∧
        pairs (load (some (entries.flatMap text))).entries = pairs entries ∧
          comments (load (some (entries.flatMap text))).entries = comments entries := by
  have hreload := reload (l := Loading.start) rfl ⟨rfl, rfl, rfl, nofun⟩ h.sane
    (by exact h.keys) hfits
  have herror := hreload.error
  have hbare := hreload.bare
  refine ⟨herror, ?_, ?_, ?_⟩
  · exact beq_iff_eq.mpr herror
  · unfold load
    dsimp only
    split
    · have hpair : pairs [(Loading.start.readLines (entries.flatMap text)).entry] = [] := by
        rw [pairs, List.filterMap_cons_none hbare.pair]
        rfl
      rw [pairs_append, hpair, List.append_nil]
      exact hreload.pairs
    · rw [List.append_nil]
      exact hreload.pairs
  · have hcomments := hreload.comments
    unfold load
    dsimp only
    split
    · have hbytes : comments [(Loading.start.readLines (entries.flatMap text)).entry] =
          (Loading.start.readLines (entries.flatMap text)).entry.comments.getD [] := by
        rw [comments, List.flatMap_singleton, UnixPrefEntry.commentText, hbare.suffix]
        exact List.append_nil _
      rw [comments_append, hbytes]
      exact hcomments
    · rename_i hnone
      rw [Option.not_isSome_iff_eq_none] at hnone
      rw [hnone] at hcomments
      rw [List.append_nil]
      exact (List.append_nil _).symm.trans hcomments

/-! ## The preferences -/

/-- Nothing is set: no default is missing, and there is no call. -/
def untouched (defaults calls : List (Text × Text)) (file : Option Text) : Bool :=
  calls.isEmpty && !((load file).setDefaults defaults).changed

theorem saveEnable_load {file : Option Text} (h : (load file).errorLineNumber = 0) :
    (load file).saveEnable = true := by
  cases file with
  | none => rfl
  | some file => exact beq_iff_eq.mpr h

theorem save_of_not_changed {p : UnixPrefs} (h : p.changed = false) (file : Option Text) :
    p.save file = (p, file) := by
  rw [save, h, Bool.not_false, Bool.or_true, if_pos rfl]

theorem save_of_changed {p : UnixPrefs} (hsave : p.saveEnable = true) (h : p.changed = true)
    (file : Option Text) :
    p.save file = ({ p with changed := false }, some (p.entries.flatMap text)) := by
  rw [save, hsave, h]
  rfl

theorem changed_setPrefStrings : ∀ {calls : List (Text × Text)} {p : UnixPrefs},
    calls ≠ [] ∨ p.changed = true → (p.setPrefStrings calls).changed = true := by
  intro calls
  induction calls with
  | nil =>
    intro p h
    exact h.resolve_left fun hne => hne rfl
  | cons call calls ih => exact fun _ => ih (.inr rfl)

theorem saveEnable_setPrefStrings : ∀ (calls : List (Text × Text)) (p : UnixPrefs),
    p.saveEnable = (p.setPrefStrings calls).saveEnable := by
  intro calls
  induction calls with
  | nil => exact fun _ => rfl
  | cons call calls ih => exact fun p => ih (p.setPrefString call.1 call.2)

/-- The file after the calls, when something has been set. -/
theorem file_after {defaults calls : List (Text × Text)} {file : Option Text}
    (hsave : ((load file).setDefaults defaults).saveEnable = true)
    (htouched : untouched defaults calls file = false) :
    (((construct defaults file).1.setPrefStrings calls).save (construct defaults file).2).2 =
      some (((construct defaults file).1.setPrefStrings calls).entries.flatMap text) := by
  unfold untouched at htouched
  cases hchanged : ((load file).setDefaults defaults).changed with
  | true =>
    have hbefore := save_of_changed hsave hchanged file
    unfold construct
    rw [hbefore]
    cases calls with
    | nil => rw [setPrefStrings, List.foldl_nil, save_of_not_changed rfl]
    | cons call calls =>
      rw [save_of_changed (saveEnable_setPrefStrings _ _ ▸ hsave)
        (changed_setPrefStrings (.inl (List.cons_ne_nil call calls)))]
  | false =>
    have hbefore := save_of_not_changed hchanged file
    unfold construct
    rw [hbefore]
    have hne : calls ≠ [] := by
      rintro rfl
      rw [hchanged] at htouched
      cases htouched
    rw [save_of_changed (saveEnable_setPrefStrings _ _ ▸ hsave)
      (changed_setPrefStrings (.inl hne))]

/-- A file with comments, and calls that set what is there and what is not. -/
def commentedFile : Text := bytes "# one\nkey: a b # two\n"

end UnixPrefs

end FreeAmp.Base
