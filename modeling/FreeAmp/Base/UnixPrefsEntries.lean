/-
  Base/UnixPrefsEntries.lean --- the entries of the preferences, from
  `base/unix/src/unixprefs.cpp`.

      value_eq         what `GetPrefString` finds, by the keys and values alone
      value_set        what `SetPrefString` does to them
      load_sane        what is loaded of a file without errors
-/
import FreeAmp.Base.UnixPrefs

namespace FreeAmp.Base

open FreeAmp.Lib

/-! ## Keys and values -/

namespace UnixPrefEntry

/-- The key and the value, of an entry that `m_ht` may lead to. -/
def pair (e : UnixPrefEntry) : Option (Text × Option Text) :=
  match e.key, e.separator with
  | some key, some _ => some (key, e.value)
  | _, _ => none

/-- The bytes of the comments: the lines in front of the entry, and what follows the value from the
first `#` on. -/
def commentText (e : UnixPrefEntry) : Text :=
  e.comments.getD [] ++ (e.suffix.getD []).dropWhile (· != 35)

theorem isOf_iff {e : UnixPrefEntry} {pref : Text} :
    e.isOf pref = true ↔ e.pair = some (pref, e.value) := by
  unfold isOf pair
  rw [Bool.and_eq_true, beq_iff_eq]
  cases e.key with
  | none => simp
  | some key => cases e.separator <;> simp

theorem isOf_inj {e : UnixPrefEntry} {pref pref' : Text} (h : e.isOf pref = true)
    (h' : e.isOf pref' = true) : pref = pref' := by
  have hpair := (isOf_iff.mp h).symm.trans (isOf_iff.mp h')
  exact (Prod.mk.inj (Option.some.inj hpair)).1

theorem pair_of_not_isOf {e : UnixPrefEntry} {pref key : Text} {v : Option Text}
    (h : e.isOf pref = false) (hpair : e.pair = some (key, v)) : pref ≠ key := by
  rintro rfl
  have hv : v = e.value := by
    unfold pair at hpair
    split at hpair
    · exact (Prod.mk.inj (Option.some.inj hpair)).2.symm
    · exact absurd hpair nofun
  rw [hv] at hpair
  rw [isOf_iff.mpr hpair] at h
  exact absurd h nofun

end UnixPrefEntry

namespace UnixPrefs

/-- The keys and values. -/
def pairs (entries : List UnixPrefEntry) : List (Text × Option Text) :=
  entries.filterMap UnixPrefEntry.pair

def keys (entries : List UnixPrefEntry) : List Text := (pairs entries).map Prod.fst

/-- The bytes of the comments. -/
def comments (entries : List UnixPrefEntry) : Text := entries.flatMap UnixPrefEntry.commentText

theorem pairs_append (entries entries' : List UnixPrefEntry) :
    pairs (entries ++ entries') = pairs entries ++ pairs entries' := List.filterMap_append

theorem keys_append (entries entries' : List UnixPrefEntry) :
    keys (entries ++ entries') = keys entries ++ keys entries' := by
  rw [keys, pairs_append, List.map_append]
  rfl

theorem comments_append (entries entries' : List UnixPrefEntry) :
    comments (entries ++ entries') = comments entries ++ comments entries' := List.flatMap_append

theorem mem_keys_iff {entries : List UnixPrefEntry} {key : Text} :
    key ∈ keys entries ↔ entries.any (UnixPrefEntry.isOf key) = true := by
  rw [keys, pairs, List.mem_map, List.any_eq_true]
  constructor
  · rintro ⟨kv, hmem, rfl⟩
    obtain ⟨e, he, hpair⟩ := List.mem_filterMap.mp hmem
    refine ⟨e, he, ?_⟩
    cases hof : e.isOf kv.1 with
    | true => rfl
    | false => exact absurd rfl (UnixPrefEntry.pair_of_not_isOf hof hpair)
  · rintro ⟨e, he, hof⟩
    exact ⟨(key, e.value), List.mem_filterMap.mpr ⟨e, he, UnixPrefEntry.isOf_iff.mp hof⟩, rfl⟩

theorem find_value (entries : List UnixPrefEntry) (pref : Text) :
    (entries.find? (UnixPrefEntry.isOf pref)).bind UnixPrefEntry.value =
      ((pairs entries).lookup pref).join := by
  induction entries with
  | nil => rfl
  | cons e entries ih =>
    cases hof : e.isOf pref with
    | true =>
      rw [List.find?_cons_of_pos hof, pairs, List.filterMap_cons_some
        (UnixPrefEntry.isOf_iff.mp hof), List.lookup_cons_self]
      rfl
    | false =>
      rw [List.find?_cons_of_neg (by rw [hof]; exact nofun), ih]
      cases hpair : e.pair with
      | none => rw [pairs, pairs, List.filterMap_cons_none hpair]
      | some kv =>
        have hne := UnixPrefEntry.pair_of_not_isOf hof hpair
        rw [pairs, pairs, List.filterMap_cons_some hpair, List.lookup_cons,
          beq_eq_false_iff_ne.mpr hne]

theorem value_eq (p : UnixPrefs) (pref : Text) :
    p.value pref = ((pairs p.entries).lookup pref).join :=
  find_value p.entries pref

/-! ## Setting -/

theorem setValue_value (entries : List UnixPrefEntry) (pref buf key : Text) :
    ((setValue pref buf entries).find? (UnixPrefEntry.isOf key)).bind UnixPrefEntry.value =
      if key = pref then some buf
      else (entries.find? (UnixPrefEntry.isOf key)).bind UnixPrefEntry.value := by
  induction entries with
  | nil =>
    rw [setValue]
    by_cases heq : key = pref
    · rw [if_pos heq, heq]
      simp [UnixPrefEntry.isOf]
    · rw [if_neg heq]
      have hne : ¬ pref = key := fun h => heq h.symm
      simp [UnixPrefEntry.isOf, hne]
  | cons e entries ih =>
    rw [setValue]
    cases hof : e.isOf pref with
    | true =>
      rw [if_pos rfl]
      by_cases heq : key = pref
      · rw [if_pos heq, heq, List.find?_cons_of_pos (by exact hof)]
        rfl
      · have hnot : e.isOf key = false := by
          cases hkey : e.isOf key with
          | false => rfl
          | true => exact absurd (UnixPrefEntry.isOf_inj hkey hof) heq
        rw [if_neg heq, List.find?_cons_of_neg (by exact Bool.eq_false_iff.mp hnot),
          List.find?_cons_of_neg (Bool.eq_false_iff.mp hnot)]
    | false =>
      rw [if_neg nofun]
      cases hkey : e.isOf key with
      | true =>
        have hne : key ≠ pref := by
          rintro rfl
          rw [hof] at hkey
          exact absurd hkey nofun
        rw [List.find?_cons_of_pos hkey, List.find?_cons_of_pos hkey, if_neg hne]
      | false =>
        rw [List.find?_cons_of_neg (Bool.eq_false_iff.mp hkey),
          List.find?_cons_of_neg (Bool.eq_false_iff.mp hkey), ih]

theorem value_set (p : UnixPrefs) (pref buf key : Text) :
    (p.setPrefString pref buf).value key =
      if key = cStr pref then some (cStr buf) else p.value key :=
  setValue_value p.entries (cStr pref) (cStr buf) key

theorem keys_setValue (pref buf : Text) (entries : List UnixPrefEntry) :
    keys (setValue pref buf entries) = keys entries ∨
      pref ∉ keys entries ∧ keys (setValue pref buf entries) = keys entries ++ [pref] := by
  induction entries with
  | nil => exact .inr ⟨List.not_mem_nil, rfl⟩
  | cons e entries ih =>
    rw [setValue]
    cases hof : e.isOf pref with
    | true =>
      left
      rw [if_pos rfl]
      have hpair := UnixPrefEntry.isOf_iff.mp hof
      have hpair' : ({ e with value := some buf } : UnixPrefEntry).pair =
          some (pref, some buf) := UnixPrefEntry.isOf_iff.mp hof
      rw [keys, pairs, List.filterMap_cons_some hpair', keys, pairs,
        List.filterMap_cons_some hpair]
      rfl
    | false =>
      rw [if_neg nofun]
      cases hpair : e.pair with
      | none =>
        have hcons : ∀ es, keys (e :: es) = keys es := by
          intro es
          rw [keys, pairs, List.filterMap_cons_none hpair]
          rfl
        rw [hcons, hcons]
        exact ih
      | some kv =>
        have hne := UnixPrefEntry.pair_of_not_isOf hof hpair
        have hcons : ∀ es, keys (e :: es) = kv.1 :: keys es := by
          intro es
          rw [keys, pairs, List.filterMap_cons_some hpair]
          rfl
        rw [hcons, hcons]
        rcases ih with heq | ⟨hnot, heq⟩
        · exact .inl (by rw [heq])
        · refine .inr ⟨?_, by rw [heq, List.cons_append]⟩
          rw [List.mem_cons, not_or]
          exact ⟨hne, hnot⟩

theorem nodup_setValue {pref : Text} (buf : Text) {entries : List UnixPrefEntry}
    (h : (keys entries).Nodup) : (keys (setValue pref buf entries)).Nodup := by
  rcases keys_setValue pref buf entries with heq | ⟨hnot, heq⟩
  · rw [heq]
    exact h
  · rw [heq, List.nodup_append]
    refine ⟨h, List.nodup_singleton pref, ?_⟩
    rintro a ha b hb rfl
    rw [List.mem_singleton.mp hb] at ha
    exact hnot ha

theorem comments_setValue (pref buf : Text) (entries : List UnixPrefEntry) :
    comments (setValue pref buf entries) = comments entries := by
  induction entries with
  | nil => rfl
  | cons e entries ih =>
    rw [setValue]
    split
    · rfl
    · rw [comments, comments, List.flatMap_cons, List.flatMap_cons]
      exact congrArg _ ih

end UnixPrefs

/-! ## Reading a line -/

/-- What stands between a key and a value: a colon, and blanks around it. -/
def Separates (s : Text) : Prop :=
  ∃ b b', (∀ c ∈ b, isBlank c = true) ∧ (∀ c ∈ b', isBlank c = true) ∧ s = b ++ 58 :: b'

/-- The first character is not a blank. -/
def Begins (s : Text) : Prop := ∀ c, s.head? = some c → isBlank c = false

theorem dropWhile_blanks {b s : Text} (hb : ∀ c ∈ b, isBlank c = true) (hs : Begins s) :
    (b ++ s).dropWhile isBlank = s := by
  rw [List.dropWhile_append_of_pos hb]
  cases s with
  | nil => rfl
  | cons c s => exact List.dropWhile_cons_of_neg (by rw [hs c rfl]; exact nofun)

theorem begins_dropWhile (s : Text) : Begins (s.dropWhile isBlank) := by
  intro c hc
  have hnot := List.head?_dropWhile_not isBlank s
  rw [hc] at hnot
  simpa using hnot

/-- What follows the value, to the end of the line. -/
def closeLine (s : Text) : Text := if s.getLast? == some 10 then s else s ++ [10]

/-- A line: nothing but its last character ends it. -/
def OneLine (s : Text) : Prop := ∀ c ∈ s.dropLast, c ≠ 10

theorem OneLine.of_prefix {s t : Text} (h : OneLine s) (ht : t <+: s) : OneLine t := by
  intro c hc
  apply h c
  obtain ⟨r, rfl⟩ := ht
  rw [List.dropLast_eq_take] at hc ⊢
  refine (List.take_subset_take_left _ ?_) (List.take_append_of_le_length (Nat.sub_le _ _) ▸ hc)
  rw [List.length_append]
  omega

theorem OneLine.of_suffix {s t : Text} (h : OneLine s) (ht : t <:+ s) : OneLine t := by
  intro c hc
  apply h c
  obtain ⟨r, rfl⟩ := ht
  cases t with
  | nil => exact absurd hc List.not_mem_nil
  | cons d t =>
    rw [List.dropLast_append_of_ne_nil (List.cons_ne_nil d t)]
    exact List.mem_append_right r hc

theorem closeLine_oneLine {s : Text} (hline : OneLine s) (hnul : NulFree s) :
    ∃ body, closeLine s = body ++ [10] ∧ NulFree body ∧ 10 ∉ body := by
  unfold closeLine
  split
  · rename_i hlast
    rw [beq_iff_eq] at hlast
    obtain ⟨body, rfl⟩ := List.getLast?_eq_some_iff.mp hlast
    refine ⟨body, rfl, hnul.of_subset (List.subset_append_left _ _), fun hmem => ?_⟩
    rw [OneLine, List.dropLast_concat] at hline
    exact hline 10 hmem rfl
  · rename_i hlast
    refine ⟨s, rfl, hnul, fun hmem => ?_⟩
    rw [beq_iff_eq] at hlast
    cases hs : s.getLast? with
    | none =>
      rw [List.getLast?_eq_none_iff.mp hs] at hmem
      exact absurd hmem List.not_mem_nil
    | some c =>
      obtain ⟨body, rfl⟩ := List.getLast?_eq_some_iff.mp hs
      rw [OneLine, List.dropLast_concat] at hline
      rcases List.mem_append.mp hmem with hmem | hmem
      · exact hline 10 hmem rfl
      · rw [List.mem_singleton.mp hmem] at hlast
        exact hlast hs

namespace Loading

section Check

variable (l : Loading) (good : Bool)

@[simp] theorem check_entries : (l.check good).entries = l.entries := by
  unfold check
  split <;> rfl
@[simp] theorem check_entry : (l.check good).entry = l.entry := by
  unfold check
  split <;> rfl
@[simp] theorem check_lineNumber : (l.check good).lineNumber = l.lineNumber := by
  unfold check
  split <;> rfl

theorem check_true : l.check true = l := rfl

theorem of_check_eq_zero {l : Loading} {good : Bool} (hline : l.lineNumber ≠ 0)
    (h : (l.check good).errorLineNumber = 0) : good = true ∧ l.errorLineNumber = 0 := by
  unfold check at h
  cases good with
  | true => exact ⟨rfl, h⟩
  | false =>
    rw [Bool.false_or] at h
    split at h
    · rename_i hne
      exact absurd h (by simpa using hne)
    · exact absurd h hline

end Check

/-- The entry of a line that has a key, a separator and a value. -/
def completed (e : UnixPrefEntry) (key separator value rest : Text) : UnixPrefEntry :=
  ⟨e.comments, some key, appendToString e.separator separator, some value,
    appendToString e.suffix (closeLine rest)⟩

/-- A line is a key, a separator and a value. -/
structure Reads (l : Loading) (p key separator value rest : Text) : Prop where
  read : ∃ p', readQuotableString (bytes ":#") p = (some key, separator ++ p') ∧ Begins p' ∧
    readQuotableString (bytes "#") p' = (some value, rest)
  separator : Separates separator
  file : key.head? ≠ some 47
  fresh : l.entries.any (UnixPrefEntry.isOf key) = false

theorem readEntry_of_reads {l : Loading} {p key separator value rest : Text}
    (h : Reads l p key separator value rest) :
    l.readEntry p = { l with
      entries := l.entries ++ [completed l.entry key separator value rest]
      entry := UnixPrefEntry.new } := by
  obtain ⟨p', hkey, hbegins, hvalue⟩ := h.read
  obtain ⟨b, b', hb, hb', hsep⟩ := h.separator
  have hdrop : (separator ++ p').dropWhile isBlank = 58 :: (b' ++ p') := by
    rw [hsep, List.append_assoc, List.cons_append]
    refine dropWhile_blanks hb ?_
    intro c hc
    rw [← Option.some.inj hc]
    rfl
  have htake : (separator ++ p').take ((separator ++ p').length - p'.length) = separator := by
    rw [List.length_append, Nat.add_sub_cancel, List.take_left]
  have hfile : ((some key).bind List.head? == some 47) = false :=
    beq_eq_false_iff_ne.mpr h.file
  unfold readEntry
  simp only [hkey, hfile, Bool.false_eq_true, if_false, hdrop, List.head?_cons, beq_self_eq_true,
    if_true, List.drop_succ_cons, List.drop_zero, dropWhile_blanks hb' hbegins, hvalue, htake,
    Option.any_some, h.fresh, Bool.not_false, Option.isSome_some, check_true]
  rfl

/-- A line without error is like this, or its key begins like the name of a file. -/
theorem reads_of_readEntry {l : Loading} {p : Text} (hline : l.lineNumber ≠ 0)
    (h : (l.readEntry p).errorLineNumber = 0) :
    l.errorLineNumber = 0 ∧
      ((∃ key, l.readEntry p = { l with entry := { l.entry with key := key } }) ∨
        ∃ key separator value rest, Reads l p key separator value rest) := by
  unfold readEntry at h ⊢
  rcases hkey : readQuotableString (bytes ":#") p with ⟨key, endPtr⟩
  simp only [hkey] at h ⊢
  by_cases hfile : (key.bind List.head? == some 47) = true
  · simp only [hfile, if_true] at h ⊢
    exact ⟨h, .inl ⟨key, rfl⟩⟩
  · simp only [hfile, Bool.false_eq_true, if_false] at h ⊢
    obtain ⟨hvalue, h⟩ := of_check_eq_zero (by simpa using hline) h
    obtain ⟨hcolon, h⟩ := of_check_eq_zero (by simpa using hline) h
    obtain ⟨hfresh, h⟩ := of_check_eq_zero (by exact hline) h
    refine ⟨h, .inr ?_⟩
    obtain ⟨key, rfl, hnew⟩ := (Option.any_eq_true _ key).mp hfresh
    rw [if_pos hcolon] at hvalue
    rw [beq_iff_eq, List.head?_eq_some_iff] at hcolon
    obtain ⟨q, hq⟩ := hcolon
    rw [hq, List.drop_succ_cons, List.drop_zero] at hvalue
    rcases hread : readQuotableString (bytes "#") (q.dropWhile isBlank) with ⟨value, rest⟩
    rw [hread] at hvalue
    obtain ⟨value, rfl⟩ := Option.isSome_iff_exists.mp hvalue
    refine ⟨key, endPtr.takeWhile isBlank ++ 58 :: q.takeWhile isBlank, value, rest,
      ⟨q.dropWhile isBlank, ?_, begins_dropWhile q, hread⟩, ⟨_, _, ?_, ?_, rfl⟩, ?_, ?_⟩
    · rw [hkey, List.append_assoc, List.cons_append, List.takeWhile_append_dropWhile, ← hq,
        List.takeWhile_append_dropWhile]
    · exact fun c hc => List.mem_takeWhile_imp hc
    · exact fun c hc => List.mem_takeWhile_imp hc
    · intro heq
      apply hfile
      rw [Option.bind_some, heq]
      rfl
    · simpa using hnew

end Loading

/-! ## What is loaded -/

/-- Comments without a line behind them. -/
structure UnixPrefEntry.Bare (e : UnixPrefEntry) : Prop where
  separator : e.separator = none
  value : e.value = none
  suffix : e.suffix = none
  nulFree : ∀ t, e.comments = some t → NulFree t

/-- Comments and a line. -/
structure UnixPrefEntry.Full (e : UnixPrefEntry) (key separator value body : Text) : Prop where
  entry : e = ⟨e.comments, some key, some separator, some value, some (body ++ [10])⟩
  separates : Separates separator
  nulFree : NulFree key ∧ NulFree value ∧ NulFree body
  line : 10 ∉ body
  comments : ∀ t, e.comments = some t → NulFree t

theorem UnixPrefEntry.Bare.append {e : UnixPrefEntry} (h : e.Bare) {line : Text}
    (hnul : NulFree line) :
    ({ e with comments := appendToString e.comments line } : UnixPrefEntry).Bare := by
  refine ⟨h.separator, h.value, h.suffix, ?_⟩
  intro t ht
  rw [← Option.some.inj ht]
  cases hcomments : e.comments with
  | none => exact hnul
  | some t' => exact (h.nulFree t' hcomments).append hnul

theorem UnixPrefEntry.Bare.pair {e : UnixPrefEntry} (h : e.Bare) : e.pair = none := by
  unfold UnixPrefEntry.pair
  rw [h.separator]
  cases e.key <;> rfl

theorem UnixPrefEntry.Full.pair {e : UnixPrefEntry} {key separator value body : Text}
    (h : e.Full key separator value body) : e.pair = some (key, some value) := by
  rw [h.entry]
  rfl

/-- An entry of a file without errors. -/
def UnixPrefEntry.Sane (e : UnixPrefEntry) : Prop :=
  e.Bare ∨ ∃ key separator value body, e.Full key separator value body

namespace UnixPrefs

theorem keys_bare {e : UnixPrefEntry} (h : e.Bare) : keys [e] = [] := by
  rw [keys, pairs, List.filterMap_cons_none h.pair]
  rfl

theorem keys_full {e : UnixPrefEntry} {key separator value body : Text}
    (h : e.Full key separator value body) : keys [e] = [key] := by
  rw [keys, pairs, List.filterMap_cons_some h.pair]
  rfl

end UnixPrefs

/-- The entries of a file without errors. -/
structure Sound (entries : List UnixPrefEntry) : Prop where
  sane : ∀ e ∈ entries, e.Sane
  keys : (UnixPrefs.keys entries).Nodup

namespace Loading

/-- What holds after each line. -/
structure Sane (l : Loading) : Prop where
  bare : l.entry.Bare
  entries : l.errorLineNumber = 0 → Sound l.entries

theorem sane_start : start.Sane :=
  ⟨⟨rfl, rfl, rfl, nofun⟩, fun _ => ⟨nofun, List.nodup_nil⟩⟩

theorem readEntry_bare {l : Loading} (h : l.entry.Bare) (p : Text) :
    (l.readEntry p).entry.Bare := by
  unfold readEntry
  dsimp only
  split
  · exact ⟨h.separator, h.value, h.suffix, h.nulFree⟩
  · exact ⟨rfl, rfl, rfl, nofun⟩

/-- A line is an entry like those of a file without errors. -/
theorem completed_full {l : Loading} {p key separator value rest : Text} (h : l.entry.Bare)
    (hreads : Reads l p key separator value rest) (hline : OneLine p) (hnul : NulFree p) :
    ∃ body, (completed l.entry key separator value rest).Full key separator value body := by
  obtain ⟨p', hkey, -, hvalue⟩ := hreads.read
  have hsuffix := readQuotableString_suffix (bytes ":#") p
  have hsuffix' := readQuotableString_suffix (bytes "#") p'
  rw [hkey] at hsuffix
  rw [hvalue] at hsuffix'
  have hrest : rest <:+ p := hsuffix'.trans ((List.suffix_append separator p').trans hsuffix)
  obtain ⟨body, hbody, hnulBody, hlineBody⟩ :=
    closeLine_oneLine (hline.of_suffix hrest) (hnul.of_subset hrest.subset)
  have hnulKey : NulFree key := readQuotableString_nulFree (by rw [hkey])
  have hnulValue : NulFree value := readQuotableString_nulFree (by rw [hvalue])
  refine ⟨body, ?_, hreads.separator, ⟨hnulKey, hnulValue, hnulBody⟩, hlineBody, h.nulFree⟩
  rw [completed, h.separator, h.suffix, hbody]
  rfl

theorem readLine_sane {l : Loading} (h : l.Sane) {buffer : Text} (hline : OneLine buffer)
    (hnul : NulFree buffer) : (l.readLine buffer).Sane := by
  unfold readLine
  dsimp only
  split
  · exact ⟨h.bare.append hnul, h.entries⟩
  · split
    · exact ⟨h.bare, h.entries⟩
    · refine ⟨readEntry_bare (by exact h.bare) buffer, fun hzero => ?_⟩
      obtain ⟨hbefore, ⟨key, heq⟩ | ⟨key, separator, value, rest, hreads⟩⟩ :=
        reads_of_readEntry (Nat.succ_ne_zero l.lineNumber) hzero
      · rw [heq]
        exact h.entries hbefore
      · have hsound := h.entries hbefore
        rw [readEntry_of_reads hreads]
        obtain ⟨body, hfull⟩ := completed_full (by exact h.bare) hreads hline hnul
        refine ⟨?_, ?_⟩
        · intro e he
          rcases List.mem_append.mp he with he | he
          · exact hsound.sane e he
          · rw [List.mem_singleton.mp he]
            exact .inr ⟨key, separator, value, body, hfull⟩
        · rw [UnixPrefs.keys_append, UnixPrefs.keys_full hfull, List.nodup_append]
          refine ⟨hsound.keys, List.nodup_singleton key, ?_⟩
          rintro k hk k' hk' rfl
          rw [List.mem_singleton.mp hk', UnixPrefs.mem_keys_iff] at hk
          exact absurd (hreads.fresh.symm.trans hk) nofun

theorem readLines_sane {l : Loading} (h : l.Sane) (file : Text) : (l.readLines file).Sane := by
  unfold readLines
  have hlines : ∀ line ∈ pieces (· == 10) 1022 1022 file, ∀ c ∈ line.dropLast, (c == 10) = false :=
    pieces_stop (· == 10) 1022
  generalize pieces (· == 10) 1022 1022 file = lines at hlines
  induction lines generalizing l with
  | nil => exact h
  | cons line lines ih =>
    refine ih (readLine_sane h ?_ (nulFree_cStr line)) fun t ht =>
      hlines t (List.mem_cons_of_mem line ht)
    have hone : OneLine line := by
      intro c hc
      simpa using hlines line List.mem_cons_self c hc
    exact hone.of_prefix (List.takeWhile_prefix _)

end Loading

namespace UnixPrefs

theorem load_sound {file : Option Text} (h : (load file).errorLineNumber = 0) :
    Sound (load file).entries := by
  cases file with
  | none => exact ⟨nofun, List.nodup_nil⟩
  | some file =>
    have hsane := Loading.readLines_sane Loading.sane_start file
    have hsound := hsane.entries h
    unfold load
    dsimp only
    split
    · refine ⟨?_, ?_⟩
      · intro e he
        rcases List.mem_append.mp he with he | he
        · exact hsound.sane e he
        · rw [List.mem_singleton.mp he]
          exact .inl hsane.bare
      · rw [keys_append, keys_bare hsane.bare, List.append_nil]
        exact hsound.keys
    · rw [List.append_nil]
      exact hsound

/-! ## What is set -/

theorem full_of_isOf {e : UnixPrefEntry} {pref buf : Text} (h : e.Sane) (hof : e.isOf pref = true)
    (hbuf : NulFree buf) : ({ e with value := some buf } : UnixPrefEntry).Sane := by
  rcases h with hbare | ⟨key, separator, value, body, hfull⟩
  · have hpair := UnixPrefEntry.isOf_iff.mp hof
    rw [hbare.pair] at hpair
    exact absurd hpair nofun
  · refine .inr ⟨key, separator, buf, body, ?_, hfull.separates,
      ⟨hfull.nulFree.1, hbuf, hfull.nulFree.2.2⟩, hfull.line, hfull.comments⟩
    rw [hfull.entry]

theorem full_new {pref buf : Text} (hpref : NulFree pref) (hbuf : NulFree buf) :
    UnixPrefEntry.Full ⟨none, some pref, some (bytes ": "), some buf, some (bytes "\n")⟩ pref
      (bytes ": ") buf [] :=
  ⟨rfl, ⟨[], [32], nofun, fun c hc => by rw [List.mem_singleton.mp hc]; rfl, by decide⟩,
    ⟨hpref, hbuf, nulFree_nil⟩, List.not_mem_nil, nofun⟩

theorem sane_setValue {pref buf : Text} (hpref : NulFree pref) (hbuf : NulFree buf)
    {entries : List UnixPrefEntry} (h : ∀ e ∈ entries, e.Sane) :
    ∀ e ∈ setValue pref buf entries, e.Sane := by
  induction entries with
  | nil =>
    intro e he
    rw [List.mem_singleton.mp he]
    exact .inr ⟨pref, bytes ": ", buf, [], full_new hpref hbuf⟩
  | cons e entries ih =>
    have hrest : ∀ e ∈ entries, e.Sane := fun e he => h e (List.mem_cons_of_mem _ he)
    intro e' he'
    rw [setValue] at he'
    split at he'
    · rename_i hof
      rcases List.mem_cons.mp he' with rfl | he'
      · exact full_of_isOf (h e List.mem_cons_self) hof hbuf
      · exact hrest e' he'
    · rcases List.mem_cons.mp he' with rfl | he'
      · exact h e' List.mem_cons_self
      · exact ih hrest e' he'

theorem sound_set {p : UnixPrefs} (h : Sound p.entries) (pref buf : Text) :
    Sound (p.setPrefString pref buf).entries :=
  ⟨sane_setValue (nulFree_cStr pref) (nulFree_cStr buf) h.sane, nodup_setValue _ h.keys⟩

theorem comments_set (p : UnixPrefs) (pref buf : Text) :
    comments (p.setPrefString pref buf).entries = comments p.entries :=
  comments_setValue _ _ p.entries

theorem sound_setPrefStrings {p : UnixPrefs} (h : Sound p.entries) (calls : List (Text × Text)) :
    Sound (p.setPrefStrings calls).entries ∧
      comments (p.setPrefStrings calls).entries = comments p.entries ∧
        (p.setPrefStrings calls).saveEnable = p.saveEnable := by
  induction calls generalizing p with
  | nil => exact ⟨h, rfl, rfl⟩
  | cons call calls ih =>
    obtain ⟨hsound, hcomments, hsave⟩ := ih (sound_set h call.1 call.2)
    exact ⟨hsound, hcomments.trans (comments_set p call.1 call.2), hsave⟩

theorem value_setPrefStrings {calls : List (Text × Text)}
    (hcalls : ∀ call ∈ calls, NulFree call.1 ∧ NulFree call.2) (p : UnixPrefs) (key : Text) :
    (p.setPrefStrings calls).value key = (calls.reverse.lookup key).or (p.value key) := by
  induction calls generalizing p with
  | nil => rfl
  | cons call calls ih =>
    obtain ⟨hkey, hvalue⟩ := hcalls call List.mem_cons_self
    have hrest := ih (fun c hc => hcalls c (List.mem_cons_of_mem _ hc))
      (p.setPrefString call.1 call.2)
    rw [setPrefStrings, List.foldl_cons]
    rw [setPrefStrings] at hrest
    rw [hrest, value_set, hkey.cStr_eq, hvalue.cStr_eq, List.reverse_cons,
      List.lookup_append, Option.or_assoc]
    congr 1
    by_cases heq : key = call.1
    · rw [if_pos heq, heq, List.lookup_cons_self]
      rfl
    · rw [if_neg heq, List.lookup_cons, beq_eq_false_iff_ne.mpr heq]
      rfl

/-- What `SetDefaults` keeps, and that no default is missing after it. -/
theorem setDefaults_spec {p : UnixPrefs} (h : Sound p.entries) (defaults : List (Text × Text)) :
    Sound (p.setDefaults defaults).entries ∧
      comments (p.setDefaults defaults).entries = comments p.entries ∧
        (p.setDefaults defaults).saveEnable = p.saveEnable ∧
          (∀ d ∈ defaults, ((p.setDefaults defaults).value (cStr d.1)).isSome = true) ∧
            ∀ key, (p.value key).isSome = true →
              (p.setDefaults defaults).value key = p.value key := by
  induction defaults generalizing p with
  | nil => exact ⟨h, rfl, rfl, nofun, fun _ _ => rfl⟩
  | cons d defaults ih =>
    rw [setDefaults, List.foldl_cons]
    cases hnone : (p.value (cStr d.1)).isNone with
    | true =>
      rw [if_pos rfl]
      obtain ⟨hsound, hcomments, hsave, hthere, hkept⟩ := ih (sound_set h d.1 d.2)
      refine ⟨hsound, hcomments.trans (comments_set p d.1 d.2), hsave, ?_, ?_⟩
      · intro d' hd'
        rcases List.mem_cons.mp hd' with rfl | hd'
        · have hset : ((p.setPrefString d'.1 d'.2).value (cStr d'.1)).isSome = true := by
            rw [value_set, if_pos rfl]
            rfl
          exact (congrArg Option.isSome (hkept _ hset)).trans hset
        · exact hthere d' hd'
      · intro key hkey
        have hne : key ≠ cStr d.1 := by
          rintro rfl
          rw [Option.isNone_iff_eq_none] at hnone
          rw [hnone] at hkey
          exact absurd hkey nofun
        have hset : (p.setPrefString d.1 d.2).value key = p.value key := by
          rw [value_set, if_neg hne]
        exact (hkept key (by rw [hset]; exact hkey)).trans hset
    | false =>
      rw [if_neg nofun]
      obtain ⟨hsound, hcomments, hsave, hthere, hkept⟩ := ih h
      refine ⟨hsound, hcomments, hsave, ?_, hkept⟩
      intro d' hd'
      rcases List.mem_cons.mp hd' with rfl | hd'
      · have hsome : (p.value (cStr d'.1)).isSome = true := by
          rw [Option.isNone_eq_false_iff] at hnone
          exact hnone
        exact (congrArg Option.isSome (hkept _ hsome)).trans hsome
      · exact hthere d' hd'

theorem setDefaults_of_some {p : UnixPrefs} {defaults : List (Text × Text)}
    (h : ∀ d ∈ defaults, (p.value (cStr d.1)).isSome = true) : p.setDefaults defaults = p := by
  induction defaults with
  | nil => rfl
  | cons d defaults ih =>
    have hd := h d List.mem_cons_self
    have hrest := ih fun d hd => h d (List.mem_cons_of_mem _ hd)
    have hsome : (p.value (cStr d.1)).isNone = false := by
      rw [Option.isNone_eq_false_iff]
      exact hd
    rw [setDefaults, List.foldl_cons, hsome, if_neg nofun]
    exact hrest

end UnixPrefs

end FreeAmp.Base
