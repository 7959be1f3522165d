/-
  Base/Database.lean --- the metadata database, from `base/src/database.cpp`, and the
  records that `MusicCatalog` and `DownloadManager` keep in it.

  A record is the number of its fields, the lengths of the fields and the fields,
  nothing between them.  Both readers walk it with `sscanf`, a running offset and
  `substr`; what they share is here, `readLengths` and `readFields`, and that it undoes
  what a writer has put down:

      readLengths_show    the lengths come back, when the last is below 10^9
      readFields_flatten  every field comes back as it was written

  A `char*` is the list of the bytes before its NUL.  `size_t` and `long` have 32 bits,
  and gdbm stores what it is given.
-/
import FreeAmp.Lib.Decimal
import FreeAmp.Lib.Checked
import FreeAmp.Base.PlaylistItem
import Mathlib.Data.List.TakeWhile

namespace FreeAmp.Base

open FreeAmp.Lib

/-! ## Strings without NUL -/

/-- A string constant. -/
def bytes (s : String) : Text := s.toList.map fun c => UInt8.ofNat c.toNat

/-- The string has no NUL in it. -/
def NulFree (s : Text) : Prop := (0 : UInt8) ∉ s

instance (s : Text) : Decidable (NulFree s) := inferInstanceAs (Decidable ((0 : UInt8) ∉ s))

theorem NulFree.cStr_eq {s : Text} (h : NulFree s) : cStr s = s := by
  unfold cStr
  rw [List.takeWhile_eq_self_iff]
  intro c hc
  have hne : c ≠ 0 := fun h0 => h (h0 ▸ hc)
  simpa using hne

theorem cStr_cons {c : UInt8} (h : c ≠ 0) (s : Text) : cStr (c :: s) = c :: cStr s := by
  unfold cStr
  rw [List.takeWhile_cons_of_pos (by simpa using h)]

theorem cStr_cons_zero (s : Text) : cStr (0 :: s) = [] := rfl

theorem cStr_append_nul (s t : Text) : cStr (s ++ 0 :: t) = cStr s := by
  unfold cStr
  induction s with
  | nil => rfl
  | cons c s ih =>
    rw [List.cons_append, List.takeWhile_cons, List.takeWhile_cons, ih]

theorem cStr_append {s : Text} (hs : NulFree s) (t : Text) : cStr (s ++ t) = s ++ cStr t := by
  unfold cStr
  rw [List.takeWhile_append_of_pos]
  intro c hc
  have hne : c ≠ 0 := fun h0 => hs (h0 ▸ hc)
  simpa using hne

theorem nulFree_cStr (s : Text) : NulFree (cStr s) := by
  intro h
  simpa using List.mem_takeWhile_imp h

theorem NulFree.append {s t : Text} (hs : NulFree s) (ht : NulFree t) : NulFree (s ++ t) := by
  intro h
  rcases List.mem_append.mp h with h | h
  · exact hs h
  · exact ht h

theorem nulFree_nil : NulFree [] := List.not_mem_nil

theorem NulFree.cons {c : UInt8} {s : Text} (hc : c ≠ 0) (hs : NulFree s) :
    NulFree (c :: s) := by
  intro h
  rcases List.mem_cons.mp h with h | h
  · exact hc h.symm
  · exact hs h

theorem NulFree.flatten {parts : List Text} (h : ∀ part ∈ parts, NulFree part) :
    NulFree parts.flatten := by
  intro h0
  obtain ⟨part, hpart, hmem⟩ := List.mem_flatten.mp h0
  exact h part hpart hmem

/-- What `substr` or `erase` leaves of a string without NUL has none. -/
theorem NulFree.of_subset {s t : Text} (ht : NulFree t) (h : s ⊆ t) : NulFree s :=
  fun h0 => ht (h h0)

theorem nulFree_showNat (n : Nat) : NulFree (showNat n) := by
  intro h
  exact absurd (showNat_digits n 0 h) (by decide)

theorem nulFree_showInt (z : Int) : NulFree (showInt z) := by
  unfold showInt
  split
  · exact (nulFree_showNat _).cons (by decide)
  · exact nulFree_showNat _

/-- `%ld` of the `(long int)` of a number of 32 bits. -/
def printLong (x : UInt32) : Text := showInt (toLong x)

theorem nulFree_printLong (x : UInt32) : NulFree (printLong x) := nulFree_showInt _

theorem printLong_ne_nil (x : UInt32) : printLong x ≠ [] := showInt_ne_nil _

theorem ofInt_atoi_printLong (x : UInt32) : UInt32.ofInt (atoi (cStr (printLong x))) = x := by
  rw [(nulFree_printLong x).cStr_eq]
  exact ofInt_atoi_showInt x

theorem printLong_of_lt {x : UInt32} (h : x.toNat < 2147483648) :
    printLong x = showNat x.toNat := by
  unfold printLong toLong showInt
  rw [if_pos h, if_neg (by omega)]
  rfl

theorem printLong_ofNat {n : Nat} (h : n < 2147483648) : printLong (UInt32.ofNat n) = showNat n := by
  have hn : (UInt32.ofNat n).toNat = n := by
    apply UInt32.toNat_ofNat_of_lt'
    exact Nat.lt_trans h (by decide)
  rw [printLong_of_lt (by rw [hn]; exact h), hn]

/-! ## The database -/

/-- What stands under a key that is there once is found. -/
theorem lookup_of_mem {α : Type} {entries : List (Text × α)} (h : (entries.map Prod.fst).Nodup)
    {e : Text × α} (he : e ∈ entries) : entries.lookup e.1 = some e.2 := by
  induction entries with
  | nil => exact absurd he List.not_mem_nil
  | cons first entries ih =>
    rw [List.map_cons, List.nodup_cons] at h
    rcases List.mem_cons.mp he with rfl | he
    · exact List.lookup_cons_self
    · have hne : e.1 ≠ first.1 := by
        intro heq
        apply h.1
        rw [← heq]
        exact List.mem_map_of_mem he
      have hbeq : (e.1 == first.1) = false := by simpa using hne
      rw [List.lookup_cons, hbeq]
      exact ih h.2 he

structure Database where
  /-- `m_dbase != NULL` -/
  working : Bool
  /-- what `m_dbase` holds, a key once -/
  entries : List (Text × Text)
  distinct : (entries.map Prod.fst).Nodup

namespace Database

/-- A database that has just been made. -/
def empty : Database := ⟨true, [], List.nodup_nil⟩

def value (db : Database) (key : Text) : Option Text := (db.entries.lookup key).map cStr

/-- The keys that `NextKey` goes through, in an order that is gdbm's own. -/
def keys (db : Database) : List Text := db.entries.map Prod.fst

theorem nodup_filter {entries : List (Text × Text)} (h : (entries.map Prod.fst).Nodup)
    (p : Text × Text → Bool) : ((entries.filter p).map Prod.fst).Nodup :=
  h.sublist (List.filter_sublist.map _)

def remove (db : Database) (key : Text) : Database :=
  { db with
    entries := db.entries.filter fun e => e.1 != key
    distinct := nodup_filter db.distinct _ }

theorem not_mem_keys_remove (db : Database) (key : Text) : key ∉ (db.remove key).keys := by
  intro h
  obtain ⟨e, he, hkey⟩ := List.mem_map.mp h
  have hne := (List.mem_filter.mp he).2
  simp [hkey] at hne

/-- `Insert`: what is under the key is replaced. -/
def insert (db : Database) (key content : Text) : Database :=
  { db with
    entries := (key, cStr content) :: (db.remove key).entries
    distinct := List.nodup_cons.mpr ⟨not_mem_keys_remove db key, (db.remove key).distinct⟩ }

@[simp] theorem working_insert (db : Database) (key content : Text) :
    (db.insert key content).working = db.working := rfl

@[simp] theorem value_insert_self (db : Database) (key content : Text) :
    (db.insert key content).value key = some (cStr content) := by
  unfold value insert
  rw [List.lookup_cons_self, Option.map_some, (nulFree_cStr content).cStr_eq]

theorem lookup_filter_ne {key key' : Text} (h : key' ≠ key) :
    ∀ entries : List (Text × Text),
      (entries.filter fun e => e.1 != key).lookup key' = entries.lookup key' := by
  intro entries
  induction entries with
  | nil => rfl
  | cons e entries ih =>
    obtain ⟨k, v⟩ := e
    rw [List.filter_cons]
    split
    · rw [List.lookup_cons, List.lookup_cons, ih]
    · rename_i hk
      have hkey : k = key := by simpa using hk
      have hne : (key' == k) = false := by simpa [hkey] using h
      rw [List.lookup_cons, hne, ih]

theorem value_remove_of_ne (db : Database) {key key' : Text} (h : key' ≠ key) :
    (db.remove key).value key' = db.value key' :=
  congrArg (Option.map cStr) (lookup_filter_ne h db.entries)

/-- Inserting under one key leaves what is under the others. -/
theorem value_insert_of_ne (db : Database) {key key' : Text} (content : Text)
    (h : key' ≠ key) : (db.insert key content).value key' = db.value key' := by
  have hne : (key' == key) = false := by simpa using h
  have hrest := value_remove_of_ne db h
  unfold value insert at *
  rw [List.lookup_cons, hne]
  exact hrest

theorem lookup_eq_none_of_not_mem {key : Text} :
    ∀ entries : List (Text × Text), key ∉ entries.map Prod.fst → entries.lookup key = none := by
  intro entries
  induction entries with
  | nil => exact fun _ => rfl
  | cons e entries ih =>
    intro h
    rw [List.map_cons, List.mem_cons, not_or] at h
    have hne : (key == e.1) = false := by simpa using h.1
    rw [List.lookup_cons, hne]
    exact ih h.2

@[simp] theorem value_remove_self (db : Database) (key : Text) :
    (db.remove key).value key = none :=
  congrArg (Option.map cStr) (lookup_eq_none_of_not_mem _ (not_mem_keys_remove db key))

theorem nulFree_value {db : Database} {key content : Text} (h : db.value key = some content) :
    NulFree content := by
  obtain ⟨s, -, rfl⟩ := Option.map_eq_some_iff.mp h
  exact nulFree_cStr s

end Database

/-! ## Records -/

/-- What leaves a reader, a writer or a keeper of records without a meaning, or ends it with
an exception. -/
inductive RecordFault where
  /-- `sscanf` finds no number, or the record ends before its text begins: the code goes
  on with a variable it has not set -/
  | badRecord
  /-- `substr` is asked to begin behind the end, `std::out_of_range` -/
  | outOfRange
  /-- a string would be longer than a string can be, `std::length_error` -/
  | lengthError
  /-- a number of ten digits is printed into `char intholder[10]` -/
  | bufferOverflow
  /-- an iterator is moved past `end()` -/
  | pastEnd
  deriving DecidableEq, Repr, Inhabited

def maxSize : Nat := 0x3FFFFFFC

def append (s t : Text) : Except RecordFault Text :=
  if maxSize < s.length + t.length then .error .lengthError else .ok (s ++ t)

/-- A string put together with `append`, or in a stream with `<<`. -/
def appendAll (parts : List Text) : Except RecordFault Text := parts.foldlM append []

def substr (s : Text) (pos n : Nat) : Except RecordFault Text :=
  if s.length < pos then .error .outOfRange else .ok ((s.drop pos).take n)

/-- `sscanf(value, "%lu%n", &numFields, &offset)`: the number of fields, which is 0 when
there is none, and what is at the offset. -/
def readCount (value : Text) : Nat × Text :=
  match scanULong value with
  | none => (0, value)
  | some r => r

/-- The loop that reads the lengths, at `value + offset`: each with `" %lu %n"`, and behind
the last one skips as many characters as the number has when it is printed, and one more. -/
def readLengths : Nat → Text → Except RecordFault (List Nat × Text)
  | 0, s => .ok ([], s)
  | n + 1, s =>
    match scanULong s with
    | none => .error .badRecord
    | some (fieldLength, rest) =>
      if n = 0 then
        -- `sprintf` puts a NUL behind the digits
        if 10 ≤ (showNat fieldLength).length then .error .bufferOverflow
        else .ok ([fieldLength], s.drop ((showNat fieldLength).length + 1))
      else do
        let r ← readLengths n (skipSpace rest)
        .ok (fieldLength :: r.1, r.2)

/-- The loop over the fields, from field `j` and `count` on: `skips` says of a field and
its length whether the loop passes over it, `set` what it does with the others. -/
def readFields {α : Type} (skips : Nat → Nat → Bool) (set : Nat → Text → α → α)
    (data : Text) : Nat → Nat → List Nat → α → Except RecordFault α
  | _, _, [], a => .ok a
  | j, count, fieldLength :: lengths, a =>
    -- `count` is a `uint32`
    let next := (count + fieldLength) % 4294967296
    if skips j fieldLength then readFields skips set data (j + 1) next lengths a
    else do
      let substring ← substr data count fieldLength
      readFields skips set data (j + 1) next lengths (set j substring a)

/-! ## Writing -/

theorem append_spec (s t : Text) :
    Meets (append s t) (fun _ => True) fun u => u = s ++ t ∧ u.length ≤ maxSize := by
  unfold append
  split
  · trivial
  · rename_i h
    exact ⟨rfl, by rw [List.length_append]; exact Nat.not_lt.mp h⟩

theorem foldlM_append_ok : ∀ (parts : List Text) (s u : Text),
    parts.foldlM append s = .ok u → u = s ++ parts.flatten ∧ (s.length ≤ maxSize →
      u.length ≤ maxSize) := by
  intro parts
  induction parts with
  | nil =>
    intro s u h
    obtain rfl : s = u := Except.ok.inj h
    exact ⟨(List.append_nil s).symm, id⟩
  | cons part parts ih =>
    intro s u h
    rw [List.foldlM_cons] at h
    obtain ⟨t, hpart, h⟩ := bind_eq_ok.mp h
    obtain ⟨rfl, hlen⟩ := (append_spec s part).of_ok hpart
    obtain ⟨hu, hsize⟩ := ih _ _ h
    exact ⟨by rw [hu, List.flatten_cons, List.append_assoc], fun _ => hsize hlen⟩

/-- What a writer has put together is its parts in order, and no longer than a string can
be. -/
theorem appendAll_ok {parts : List Text} {u : Text} (h : appendAll parts = .ok u) :
    u = parts.flatten ∧ parts.flatten.length ≤ maxSize := by
  obtain ⟨hu, hsize⟩ := foldlM_append_ok parts [] u h
  rw [List.nil_append] at hu
  rw [hu] at hsize
  exact ⟨hu, hsize (Nat.zero_le _)⟩

theorem foldlM_append_of_le : ∀ (parts : List Text) (s : Text),
    s.length + parts.flatten.length ≤ maxSize → parts.foldlM append s = .ok (s ++ parts.flatten) := by
  intro parts
  induction parts with
  | nil =>
    intro s _
    rw [List.flatten_nil, List.append_nil]
    rfl
  | cons part parts ih =>
    intro s h
    rw [List.flatten_cons, List.length_append, ← Nat.add_assoc] at h
    have hpart : append s part = .ok (s ++ part) := by
      unfold append
      rw [if_neg]
      omega
    rw [List.foldlM_cons, hpart]
    show parts.foldlM append (s ++ part) = _
    rw [ih _ (by rw [List.length_append]; exact h), List.flatten_cons, List.append_assoc]

theorem appendAll_of_le {parts : List Text} (h : parts.flatten.length ≤ maxSize) :
    appendAll parts = .ok parts.flatten := by
  have hall := foldlM_append_of_le parts [] (by rw [List.length_nil, Nat.zero_add]; exact h)
  rw [List.nil_append] at hall
  exact hall

def kDatabaseDelimiter : Text := [32]

/-- The lengths of fields as a record has them, each with a delimiter behind it. -/
def showLengths (lengths : List Nat) : Text :=
  lengths.flatMap fun n => showNat n ++ kDatabaseDelimiter

@[simp] theorem showLengths_cons (n : Nat) (lengths : List Nat) :
    showLengths (n :: lengths) = showNat n ++ (32 :: showLengths lengths) := by
  unfold showLengths kDatabaseDelimiter
  rw [List.flatMap_cons, List.append_assoc]
  rfl

theorem length_flatten_le {k : Nat} {parts : List Text} (h : ∀ part ∈ parts, part.length ≤ k) :
    parts.flatten.length ≤ k * parts.length := by
  induction parts with
  | nil => exact Nat.zero_le _
  | cons part parts ih =>
    have hpart := h part List.mem_cons_self
    have hrest := ih fun p hp => h p (List.mem_cons_of_mem _ hp)
    rw [List.flatten_cons, List.length_append, List.length_cons, Nat.mul_succ]
    omega

theorem length_printLong_le (x : UInt32) : (printLong x).length ≤ 11 := by
  have hlow := toLong_low x
  have hhigh := toLong_high x
  have hdigits : (showNat (toLong x).natAbs).length ≤ 10 :=
    (length_showNat_le_iff (by decide)).mpr (by omega)
  unfold printLong showInt
  split
  · rw [List.length_cons]
    omega
  · omega

theorem nulFree_showLengths (lengths : List Nat) : NulFree (showLengths lengths) := by
  induction lengths with
  | nil => exact nulFree_nil
  | cons n lengths ih =>
    rw [showLengths_cons]
    exact (nulFree_showNat n).append (ih.cons (by decide))

/-! ## Reading what was written -/

theorem noDigit_space (s : Text) : NoDigit (32 :: s) := noDigit_of_isSpace (by decide)

theorem readCount_show {n : Nat} (hn : n ≤ uLongMax) (s : Text) :
    readCount (showNat n ++ (32 :: s)) = (n, 32 :: s) := by
  unfold readCount
  rw [scanULong_show hn (noDigit_space s)]

theorem skipSpace_show (n : Nat) (s : Text) :
    skipSpace (32 :: (showNat n ++ s)) = showNat n ++ s := by
  obtain ⟨c, ds, hshow, hc⟩ := showNat_cons n
  rw [hshow, skipSpace_cons (by decide), List.cons_append,
    skipSpace_of_not (isSpace_of_isDigit hc)]

theorem readLengths_step {n : Nat} (hn : n ≤ uLongMax) (count : Nat) (s : Text) :
    readLengths (count + 2) (showNat n ++ (32 :: s)) =
      (readLengths (count + 1) (skipSpace (32 :: s))).map fun r => (n :: r.1, r.2) := by
  rw [readLengths, scanULong_show hn (noDigit_space s)]
  simp only [Nat.add_eq_zero_iff, Nat.one_ne_zero, and_false, if_false]
  cases readLengths (count + 1) (skipSpace (32 :: s)) <;> rfl

/-- The last length is read with a buffer that has room for nine digits. -/
theorem readLengths_last {n : Nat} (hn : n ≤ uLongMax) (data : Text) :
    readLengths 1 (showNat n ++ (32 :: data)) =
      if n < 10 ^ 9 then .ok ([n], data) else .error .bufferOverflow := by
  have hdigits := length_showNat_le_iff (n := n) (k := 9) (by decide)
  have hdrop : (showNat n ++ (32 :: data)).drop ((showNat n).length + 1) = data := by
    rw [List.append_cons, List.drop_left' (by rw [List.length_append]; rfl)]
  rw [readLengths, scanULong_show hn (noDigit_space data)]
  simp only [if_true]
  by_cases h : n < 10 ^ 9
  · rw [if_neg (by omega), if_pos h, hdrop]
  · rw [if_pos (by omega), if_neg h]

/-- The lengths come back, when the last one is below `10^9`. -/
theorem readLengths_show (last : Nat) (hlast : last ≤ uLongMax) (data : Text) :
    ∀ lengths : List Nat, (∀ n ∈ lengths, n ≤ uLongMax) →
      readLengths (lengths.length + 1) (showLengths (lengths ++ [last]) ++ data) =
        if last < 10 ^ 9 then .ok (lengths ++ [last], data) else .error .bufferOverflow := by
  intro lengths
  induction lengths with
  | nil =>
    intro _
    rw [List.nil_append, showLengths_cons, List.append_assoc]
    exact readLengths_last hlast data
  | cons n lengths ih =>
    intro hle
    have hrest := ih fun m hm => hle m (List.mem_cons_of_mem _ hm)
    -- behind the delimiter comes a digit, whether or not `n` is the last but one
    have hskip : skipSpace (32 :: (showLengths (lengths ++ [last]) ++ data)) =
        showLengths (lengths ++ [last]) ++ data := by
      cases lengths with
      | nil =>
        rw [List.nil_append, showLengths_cons, List.append_assoc, skipSpace_show]
      | cons m lengths =>
        rw [List.cons_append, showLengths_cons, List.append_assoc, skipSpace_show]
    rw [List.cons_append, showLengths_cons, List.length_cons, List.append_assoc,
      List.cons_append, readLengths_step (hle n List.mem_cons_self), hskip, hrest]
    split <;> rfl

/-- A blank before the lengths is not noticed, unless there is only one of them. -/
theorem readLengths_space (count : Nat) (s : Text) :
    readLengths (count + 2) (32 :: s) = readLengths (count + 2) s := by
  rw [readLengths, readLengths, scanULong_space (by decide)]
  simp only [Nat.add_eq_zero_iff, Nat.one_ne_zero, and_false, if_false]

theorem scanULong_subset {s : Text} {r : Nat × Text} (h : scanULong s = some r) : r.2 ⊆ s := by
  have hsign : (readSign (skipSpace s)).2 ⊆ s := by
    have hskip : skipSpace s ⊆ s := List.dropWhile_subset _
    unfold readSign
    split
    · rename_i heq
      rw [heq] at hskip
      exact List.Subset.trans (List.subset_cons_self _ _) hskip
    · rename_i heq
      rw [heq] at hskip
      exact List.Subset.trans (List.subset_cons_self _ _) hskip
    · exact hskip
  unfold scanULong at h
  simp only at h
  split at h
  · exact absurd h nofun
  · rw [← Option.some.inj h]
    exact List.Subset.trans (List.dropWhile_subset _) hsign

theorem readCount_subset (s : Text) : (readCount s).2 ⊆ s := by
  unfold readCount
  split
  · exact List.Subset.refl _
  · rename_i r hr
    exact scanULong_subset hr

theorem readLengths_subset : ∀ {n : Nat} {s : Text} {r : List Nat × Text},
    readLengths n s = .ok r → r.2 ⊆ s := by
  intro n
  induction n with
  | zero =>
    intro s r h
    rw [← Except.ok.inj h]
    exact List.Subset.refl _
  | succ n ih =>
    intro s r h
    rw [readLengths] at h
    split at h
    · exact absurd h nofun
    · rename_i l rest hscan
      split at h
      · split at h
        · exact absurd h nofun
        · rw [← Except.ok.inj h]
          exact List.drop_subset _ _
      · obtain ⟨q, hrest, h⟩ := bind_eq_ok.mp h
        rw [← Except.ok.inj h]
        have hlater : q.2 ⊆ skipSpace rest := ih hrest
        have hskip : skipSpace rest ⊆ rest := List.dropWhile_subset _
        exact List.Subset.trans hlater (List.Subset.trans hskip (scanULong_subset hscan))

/-! ## The fields -/

section Fields

variable {α : Type} (skips : Nat → Nat → Bool) (set : Nat → Text → α → α)

/-- What the loop makes of fields that it finds as they were written. -/
def setFields : Nat → List Text → α → α
  | _, [], a => a
  | j, field :: fields, a =>
    setFields (j + 1) fields (if skips j field.length then a else set j field a)

/-- Fields that are in front of the others are found as they were written. -/
theorem readFields_append : ∀ (fields : List Text) (before after : Text) (j : Nat)
    (more : List Nat) (a : α), (before ++ fields.flatten).length < 4294967296 →
      readFields skips set (before ++ fields.flatten ++ after) j before.length
          (fields.map List.length ++ more) a =
        readFields skips set (before ++ fields.flatten ++ after) (j + fields.length)
          (before ++ fields.flatten).length more (setFields skips set j fields a) := by
  intro fields
  induction fields with
  | nil =>
    intro before after j more a _
    rw [List.flatten_nil, List.append_nil]
    rfl
  | cons field fields ih =>
    intro before after j more a hlen
    rw [List.flatten_cons, ← List.append_assoc] at hlen ⊢
    have hnext : (before.length + field.length) % 4294967296 = (before ++ field).length := by
      rw [List.length_append] at hlen
      rw [Nat.mod_eq_of_lt, List.length_append]
      rw [← List.length_append]
      omega
    have hsub : substr (before ++ field ++ fields.flatten ++ after) before.length
        field.length = .ok field := by
      unfold substr
      rw [if_neg]
      · rw [List.append_assoc, List.append_assoc, List.drop_left, List.take_left]
      · simp only [List.length_append]
        omega
    rw [List.map_cons, List.cons_append, readFields, hnext, hsub, List.length_cons,
      Nat.add_comm fields.length 1, ← Nat.add_assoc]
    have hrest := ih (before ++ field) after (j + 1) more
    split
    · rename_i hskip
      rw [hrest _ hlen, setFields, if_pos hskip]
    · rename_i hskip
      show readFields skips set _ (j + 1) _ _ _ = _
      rw [hrest _ hlen, setFields, if_neg hskip]

theorem readFields_flatten (fields : List Text) (a : α)
    (hlen : fields.flatten.length < 4294967296) :
    readFields skips set fields.flatten 0 0 (fields.map List.length) a =
      .ok (setFields skips set 0 fields a) := by
  have h := readFields_append skips set fields [] [] 0 [] a hlen
  simp only [List.nil_append, List.append_nil, List.length_nil] at h
  rw [h]
  rfl

variable {skips set}

theorem readFields_frame {β : Type} {proj : α → β} {data : Text} : ∀ {lengths : List Nat}
    {j count : Nat} {a a' : α}, (∀ i, j ≤ i → ∀ s b, proj (set i s b) = proj b) →
      readFields skips set data j count lengths a = .ok a' → proj a' = proj a := by
  intro lengths
  induction lengths with
  | nil =>
    intro j count a a' _ h
    rw [Except.ok.inj h]
  | cons l lengths ih =>
    intro j count a a' hframe h
    have hframe' : ∀ i, j + 1 ≤ i → ∀ s b, proj (set i s b) = proj b :=
      fun i hi => hframe i (Nat.le_of_succ_le hi)
    rw [readFields] at h
    split at h
    · exact ih hframe' h
    · obtain ⟨substring, hsub, h⟩ := bind_eq_ok.mp h
      rw [ih hframe' h, hframe j (Nat.le_refl j)]

/-- What setting a field to a string without NUL keeps, the loop keeps. -/
theorem readFields_nulFree {P : α → Prop} {data : Text} (hdata : NulFree data)
    (hset : ∀ j s a, NulFree s → P a → P (set j s a)) : ∀ {lengths : List Nat} {j count : Nat}
    {a a' : α}, readFields skips set data j count lengths a = .ok a' → P a → P a' := by
  intro lengths
  induction lengths with
  | nil =>
    intro j count a a' h ha
    rw [← Except.ok.inj h]
    exact ha
  | cons l lengths ih =>
    intro j count a a' h ha
    rw [readFields] at h
    split at h
    · exact ih h ha
    · obtain ⟨substring, hsub, h⟩ := bind_eq_ok.mp h
      refine ih h (hset _ _ _ ?_ ha)
      unfold substr at hsub
      split at hsub
      · exact absurd hsub nofun
      · rw [← Except.ok.inj hsub]
        exact hdata.of_subset
          (List.Subset.trans (List.take_subset _ _) (List.drop_subset _ _))

/-- A string that begins with a digit is read as no negative number. -/
theorem atoi_digit {c : UInt8} (hc : isDigit c = true) (s : Text) :
    0 ≤ atoi (c :: s) ∧ atoi (c :: s) ≤ 2147483647 := by
  unfold atoi
  rw [skipSpace_of_not (isSpace_of_isDigit hc), readSign_digit hc]
  simp only [Bool.false_eq_true, if_false]
  omega

/-- A number from `2^31` on does not come back when it is written as it is: what is read
in its place begins with a digit. -/
theorem readFields_number {proj : α → UInt32} {before : List Text} {after : Text}
    {l : Nat} {more : List Nat} {x : UInt32} {a a' : α}
    (hbefore : before.flatten.length < 4294967296) (hl : l ≠ 0)
    (hskip : skips before.length l = false)
    (hset : ∀ s b, proj (set before.length s b) = UInt32.ofInt (atoi (cStr s)))
    (hframe : ∀ i, before.length < i → ∀ s b, proj (set i s b) = proj b)
    (hx : 2147483648 ≤ x.toNat)
    (h : readFields skips set (before.flatten ++ (showNat x.toNat ++ after)) 0 0
      (before.map List.length ++ l :: more) a = .ok a') : proj a' ≠ x := by
  have hread := readFields_append skips set before [] (showNat x.toNat ++ after) 0 (l :: more) a
    hbefore
  simp only [List.nil_append, List.length_nil, Nat.zero_add] at hread
  rw [hread, readFields, hskip] at h
  obtain ⟨c, ds, hshow, hc⟩ := showNat_cons x.toNat
  have hc0 : c ≠ 0 := by
    rintro rfl
    exact absurd hc (by decide)
  obtain ⟨k, rfl⟩ := Nat.exists_eq_succ_of_ne_zero hl
  have hsub : substr (before.flatten ++ (showNat x.toNat ++ after)) before.flatten.length
      (k + 1) = .ok (c :: (ds ++ after).take k) := by
    unfold substr
    rw [if_neg (by rw [List.length_append]; omega), List.drop_left, hshow, List.cons_append,
      List.take_succ_cons]
  have hcstr : cStr (c :: (ds ++ after).take k) = c :: cStr ((ds ++ after).take k) := by
    unfold cStr
    rw [List.takeWhile_cons_of_pos (by simpa using hc0)]
  rw [Nat.succ_eq_add_one, hsub] at h
  have hproj := readFields_frame (fun i hi => hframe i hi) h
  obtain ⟨hlow, hhigh⟩ := atoi_digit hc (cStr ((ds ++ after).take k))
  rw [hproj, hset, hcstr]
  intro heq
  rw [← heq, toNat_ofInt] at hx
  omega

end Fields

end FreeAmp.Base
