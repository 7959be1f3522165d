/-
  Plm/PlsSyntax.lean --- when the PLS reader comes to an end, and what it makes of a file in
  PLS syntax.

  A round takes a section, or a key with its value; where there is neither, because an equals
  sign stands there, it takes nothing, and is repeated.

      loop_ends_iff     a file is read to its end when no round begins at an equals sign
      loop_lines        the lines of a file in PLS syntax, one round each
      entries_tracks    what is made of the lines of a track
-/
import FreeAmp.Plm.Pls

namespace FreeAmp.Plm

open FreeAmp.Base FreeAmp.Lib

namespace Pls

/-! ## A round that takes nothing -/

variable {root : Text} {r r' : Reading}

/-- Behind white space stands an equals sign. -/
def AtEquals (r : Reading) : Prop := (r.rest.dropWhile isSpace).head? = some 61

theorem scanf_section_other {text : Text} {c : UInt8} {more : Text}
    (hskip : text.dropWhile isSpace = c :: more) (hc : c ≠ 91) :
    scanf sectionFormat text 0 = ⟨[], [], c :: more, false, .matching⟩ := by
  unfold sectionFormat
  rw [scanf, hskip, scanf, if_neg hc]
  rfl

/-- From an equals sign a round leads to the same equals sign. -/
theorem round_atEquals (root : Text) (h : AtEquals r) :
    ∃ r', round root r = .ok r' ∧ AtEquals r' ∧ r'.eof = r.eof := by
  obtain ⟨more, hskip⟩ := List.head?_eq_some_iff.mp h
  have hsection := scanf_section_other hskip (by decide)
  refine ⟨{ r with rest := 61 :: more, eof := r.eof || false || false }, ?_, rfl, ?_⟩
  · unfold round
    rw [hsection]
    rfl
  · simp

/-! ## A round that takes something -/

/-- The section that a round looks for: it is there, or nothing of it has been assigned. -/
theorem section_cases (text : Text) :
    ((scanf sectionFormat text 0).ret ≠ some 0 ∧
        ((scanf sectionFormat text 0).eof = true ∨
          (scanf sectionFormat text 0).rest.length < text.length)) ∨
      (scanf sectionFormat text 0).ret = some 0 ∧ ∃ c more,
        (scanf sectionFormat text 0).rest = c :: more ∧
          (text.dropWhile isSpace = c :: more ∨ c = 93 ∧ more.length < text.length) := by
  unfold sectionFormat
  rw [scanf]
  have hshort : (text.dropWhile isSpace).length ≤ text.length := (List.dropWhile_suffix _).length_le
  cases hskip : text.dropWhile isSpace with
  | nil => exact .inl ⟨(fun hret => by cases hret), .inl rfl⟩
  | cons c more =>
    rw [hskip, List.length_cons] at hshort
    by_cases hc : c = 91
    · rw [scanf, if_pos hc]
      cases more with
      | nil => exact .inl ⟨(fun hret => by cases hret), .inl rfl⟩
      | cons d more =>
        rw [scanf]
        dsimp only
        split
        · rename_i hnone
          have hd : d = 93 := by
            by_contra hne
            rw [setField_cons (fun c => c != 93) (bne_iff_ne.mpr hne)] at hnone
            cases hnone
          exact .inr ⟨rfl, d, more, rfl, .inr ⟨hd, by rw [List.length_cons] at hshort; omega⟩⟩
        · rename_i hsome
          refine .inl ⟨?_, .inr ?_⟩
          · unfold Scanned.ret
            dsimp only
            rw [if_neg (fun h => List.cons_ne_nil _ _ h.2)]
            exact fun h => Nat.succ_ne_zero _ (Option.some.inj h)
          · refine Nat.lt_of_le_of_lt (scanf_suffix _ _ _).length_le ?_
            have hfield := List.length_pos_iff.mpr hsome
            rw [List.length_drop, List.length_cons]
            rw [List.length_cons] at hshort
            omega
    · rw [scanf, if_neg hc]
      exact .inr ⟨rfl, c, more, rfl, .inl rfl⟩

/-- A key that does not begin with an equals sign is taken. -/
theorem entry_takes {c : UInt8} {more : Text} (hc : c ≠ 61) :
    (scanf entryFormat (c :: more) 0).ret ≠ some 0 ∧
      (scanf entryFormat (c :: more) 0).rest.length < (c :: more).length := by
  have hfield := setField_cons (fun c => c != 61) (bne_iff_ne.mpr hc) more
  unfold entryFormat
  rw [scanf]
  dsimp only
  rw [hfield, if_neg (List.cons_ne_nil _ _)]
  constructor
  · unfold Scanned.ret
    dsimp only
    rw [if_neg (fun h => List.cons_ne_nil _ _ h.2)]
    exact fun h => Nat.succ_ne_zero _ (Option.some.inj h)
  · refine Nat.lt_of_le_of_lt (scanf_suffix _ _ _).length_le ?_
    rw [List.length_drop, List.length_cons, List.length_cons]
    omega

theorem entry_rest {r r' : Reading} (h : entry root r = .ok r') :
    r'.rest = r.rest ∧ r'.eof = r.eof := by
  unfold entry at h
  obtain ⟨key, -, h⟩ := bind_eq_ok.mp h
  split at h
  · obtain ⟨r₂, hr₂, h⟩ := bind_eq_ok.mp h
    obtain ⟨file, -, h⟩ := bind_eq_ok.mp h
    cases h
    split at hr₂
    · obtain ⟨list, -, hr₂⟩ := bind_eq_ok.mp hr₂
      cases hr₂
      exact ⟨rfl, rfl⟩
    · cases hr₂
      exact ⟨rfl, rfl⟩
  · split at h
    · obtain ⟨title, -, h⟩ := bind_eq_ok.mp h
      cases h
      exact ⟨rfl, rfl⟩
    · split at h
      · obtain ⟨value, -, h⟩ := bind_eq_ok.mp h
        cases h
        exact ⟨rfl, rfl⟩
      · cases h
        exact ⟨rfl, rfl⟩

/-- A round that does not begin at an equals sign comes to the end, or takes something. -/
theorem round_takes (h : ¬ AtEquals r) (hround : round root r = .ok r') :
    r'.eof = true ∨ r'.rest.length < r.rest.length := by
  unfold round at hround
  dsimp only at hround
  obtain ⟨key, -, hround⟩ := bind_eq_ok.mp hround
  rcases section_cases r.rest with ⟨hret, htakes⟩ | ⟨hret, c, more, hrest, hwhere⟩
  · rw [if_pos hret] at hround
    cases hround
    rcases htakes with heof | hless
    · exact .inl (by rw [heof, Bool.or_true])
    · exact .inr hless
  · have hc : c ≠ 61 := by
      rintro rfl
      rcases hwhere with hskip | ⟨hc, -⟩
      · exact h (by rw [AtEquals, hskip]; rfl)
      · exact absurd hc (by decide)
    have hle : (c :: more).length ≤ r.rest.length := by
      rcases hwhere with hskip | ⟨-, hless⟩
      · rw [← hskip]
        exact (List.dropWhile_suffix _).length_le
      · exact hless
    rw [hret, if_neg (not_not.mpr rfl), hrest] at hround
    obtain ⟨key', -, hround⟩ := bind_eq_ok.mp hround
    obtain ⟨value, -, hround⟩ := bind_eq_ok.mp hround
    obtain ⟨hsome, hless⟩ := @entry_takes c more hc
    rw [if_pos hsome] at hround
    right
    rw [(entry_rest hround).1]
    exact Nat.lt_of_lt_of_le hless hle

/-! ## The loop -/

/-- The state in which the round behind so many others begins. -/
def after (root : Text) : Nat → Reading → Option Reading
  | 0, r => if r.eof then none else some r
  | rounds + 1, r =>
    if r.eof then none
    else
      match round root r with
      | .error _ => none
      | .ok r => after root rounds r

/-- No round begins at an equals sign. -/
def NeverAtEquals (root : Text) (r : Reading) : Prop :=
  ∀ rounds r', after root rounds r = some r' → ¬ AtEquals r'

theorem loop_atEquals : ∀ (fuel : Nat) {r : Reading}, AtEquals r → r.eof = false →
    loop root fuel r = none := by
  intro fuel
  induction fuel with
  | zero => exact fun _ _ => rfl
  | succ fuel ih =>
    intro r h heof
    obtain ⟨r', hround, hagain, hsame⟩ := round_atEquals root h
    rw [loop, if_neg (by rw [heof]; exact Bool.false_ne_true), hround]
    exact ih hagain (hsame.trans heof)

theorem after_eof {rounds : Nat} {r r' : Reading} (h : after root rounds r = some r') :
    r'.eof = false := by
  induction rounds generalizing r with
  | zero =>
    rw [after] at h
    split at h
    · cases h
    · rename_i heof
      cases h
      exact Bool.not_eq_true _ ▸ heof
  | succ rounds ih =>
    rw [after] at h
    split at h
    · cases h
    · split at h
      · cases h
      · exact ih h

theorem loop_after : ∀ (rounds fuel : Nat) {r r' : Reading}, after root rounds r = some r' →
    loop root (rounds + fuel) r = loop root fuel r' := by
  intro rounds
  induction rounds with
  | zero =>
    intro fuel r r' h
    rw [after] at h
    split at h
    · cases h
    · cases h
      rw [Nat.zero_add]
  | succ rounds ih =>
    intro fuel r r' h
    rw [after] at h
    split at h
    · cases h
    · rename_i heof
      split at h
      · cases h
      · rename_i r₂ hround
        rw [Nat.succ_add, loop, if_neg heof, hround]
        exact ih fuel h

theorem loop_more : ∀ (fuel more : Nat) {r : Reading} {result : Except BufferFault Reading},
    loop root fuel r = some result → loop root (fuel + more) r = some result := by
  intro fuel
  induction fuel with
  | zero => exact fun _ _ _ h => absurd h nofun
  | succ fuel ih =>
    intro more r result h
    rw [loop] at h
    rw [Nat.succ_add, loop]
    split at h
    · rename_i heof
      rw [if_pos heof]
      exact h
    · rename_i heof
      rw [if_neg heof]
      cases hround : round root r with
      | error fault =>
        rw [hround] at h
        exact h
      | ok r₂ =>
        rw [hround] at h
        exact ih more h

theorem loop_takes : ∀ (fuel : Nat) {r : Reading}, NeverAtEquals root r → r.rest.length + 1 < fuel →
    (loop root fuel r).isSome = true := by
  intro fuel
  induction fuel with
  | zero => exact fun _ h => absurd h (Nat.not_lt_zero _)
  | succ fuel ih =>
    intro r h hfuel
    rw [loop]
    split
    · rfl
    · rename_i heof
      cases hround : round root r with
      | error fault => rfl
      | ok r' =>
        have hnot : ¬ AtEquals r := h 0 r (if_neg heof)
        have hnext : NeverAtEquals root r' := by
          intro rounds r₂ hafter
          refine h (rounds + 1) r₂ ?_
          rw [after, if_neg heof, hround]
          exact hafter
        rcases round_takes hnot hround with heof' | hless
        · obtain ⟨k, rfl⟩ : ∃ k, fuel = k + 1 := ⟨fuel - 1, by omega⟩
          show (loop root (k + 1) r').isSome = true
          rw [loop, if_pos heof']
          rfl
        · exact ih hnext (by omega)

/-- The loop ends just when no round of it begins at an equals sign. -/
theorem loop_ends_iff (root : Text) (r : Reading) :
    (∃ fuel, (loop root fuel r).isSome = true) ↔ NeverAtEquals root r := by
  constructor
  · rintro ⟨fuel, hsome⟩ rounds r' hafter hequals
    obtain ⟨result, hresult⟩ := Option.isSome_iff_exists.mp hsome
    have heof := after_eof hafter
    have hmore := loop_more fuel rounds hresult
    rw [Nat.add_comm, loop_after rounds fuel hafter, loop_atEquals fuel hequals heof] at hmore
    cases hmore
  · intro h
    exact ⟨r.rest.length + 2, loop_takes _ h (Nat.lt_succ_self _)⟩

/-! ## PLS syntax -/

/-- `Key=Value`, and the end of the line. -/
structure Line where
  key : Text
  value : Text
  /-- the end of the line, with the white space and the blank lines behind it -/
  ending : Text
  head : ∃ c rest, key = c :: rest ∧ isSpace c = false ∧ c ≠ 91
  keyFree : ∀ c ∈ key, c ≠ 61 ∧ c ≠ 0
  valueNe : value ≠ []
  valueFree : ∀ c ∈ value, c ≠ 10 ∧ c ≠ 13 ∧ c ≠ 0
  keyFits : key.length < maxPath
  valueFits : value.length < maxPath
  endingSpace : ∀ c ∈ ending, isSpace c = true
  endingHead : ∀ c ∈ ending.head?, c = 10 ∨ c = 13

namespace Line

def text (l : Line) : Text := l.key ++ 61 :: (l.value ++ l.ending)

def isFile (l : Line) : Bool := (bytes "File").isPrefixOf l.key

def isTitle (l : Line) : Bool := (bytes "Title").isPrefixOf l.key

def isLength (l : Line) : Bool := (bytes "Length").isPrefixOf l.key

end Line

/-- The lines of a file: only the last one may lack its end. -/
def Ended : List Line → Prop
  | [] => True
  | [_] => True
  | l :: lines => l.ending ≠ [] ∧ Ended lines

def linesText (lines : List Line) : Text := lines.flatMap Line.text

theorem head_line (l : Line) (more : Text) :
    ∃ c rest, l.text ++ more = c :: rest ∧ isSpace c = false ∧ c ≠ 91 := by
  obtain ⟨c, rest, hkey, hspace, hc⟩ := l.head
  refine ⟨c, rest ++ 61 :: (l.value ++ l.ending) ++ more, ?_, hspace, hc⟩
  unfold Line.text
  rw [hkey]
  rfl

theorem dropWhile_space {ending more : Text} (hending : ∀ c ∈ ending, isSpace c = true)
    (hmore : ∀ c ∈ more.head?, isSpace c = false) :
    (ending ++ more).dropWhile isSpace = more := by
  rw [List.dropWhile_append_of_pos hending]
  cases more with
  | nil => rfl
  | cons c more =>
    exact List.dropWhile_cons_of_neg (Bool.eq_false_iff.mp (hmore c rfl))

/-- The key and the value of a line are read, and the white space behind it. -/
theorem scanf_line (l : Line) {more : Text} (hmore : ∀ c ∈ more.head?, isSpace c = false)
    (hended : more ≠ [] → l.ending ≠ []) :
    let s := scanf entryFormat (l.text ++ more) 0
    s.fields = [l.key, l.value] ∧ s.rest = more ∧ s.eof = more.isEmpty ∧ s.stop = .done := by
  obtain ⟨c, rest, hkey, -, -⟩ := l.head
  have hsplit : l.text ++ more = l.key ++ 61 :: (l.value ++ (l.ending ++ more)) := by
    unfold Line.text
    rw [List.append_assoc, List.cons_append, List.append_assoc]
  have hkeyFree : ∀ c ∈ l.key, (c != 61) = true := fun c hc => bne_iff_ne.mpr (l.keyFree c hc).1
  have hvalueFree : ∀ c ∈ l.value, (c != 10 && c != 13) = true := by
    intro c hc
    obtain ⟨hten, hthirteen, -⟩ := l.valueFree c hc
    rw [Bool.and_eq_true, bne_iff_ne, bne_iff_ne]
    exact ⟨hten, hthirteen⟩
  have hbehind : ∀ c ∈ (l.ending ++ more).head?, (c != 10 && c != 13) = false := by
    intro c hc
    cases hending : l.ending with
    | nil =>
      rw [hending, List.nil_append] at hc
      have hmore' : more ≠ [] := by
        rintro rfl
        cases hc
      exact absurd hending (hended hmore')
    | cons d ending =>
      rw [hending] at hc
      obtain rfl : d = c := Option.some.inj hc
      rcases l.endingHead d (by rw [hending]; rfl) with rfl | rfl <;> rfl
  rw [hsplit]
  unfold entryFormat
  rw [scanf_set _ _ (by rw [hkey]; exact List.cons_ne_nil c rest) hkeyFree
    fun c hc => by rw [← Option.mem_some.mp hc]; rfl]
  rw [scanf, if_pos rfl, scanf_set _ _ l.valueNe hvalueFree hbehind, scanf, scanf,
    dropWhile_space l.endingSpace hmore]
  refine ⟨rfl, rfl, ?_, rfl⟩
  simp

theorem head?_linesText (lines : List Line) :
    ∀ c ∈ (linesText lines).head?, isSpace c = false := by
  cases lines with
  | nil => exact fun c hc => by cases hc
  | cons l lines =>
    obtain ⟨c, rest, hline, hspace, -⟩ := head_line l (linesText lines)
    intro c' hc'
    have htext : linesText (l :: lines) = l.text ++ linesText lines := List.flatMap_cons
    rw [htext, hline] at hc'
    obtain rfl : c = c' := Option.some.inj hc'
    exact hspace

theorem linesText_ne_nil {l : Line} {lines : List Line} : linesText (l :: lines) ≠ [] := by
  obtain ⟨c, rest, hline, -, -⟩ := head_line l (linesText lines)
  have htext : linesText (l :: lines) = l.text ++ linesText lines := List.flatMap_cons
  rw [htext, hline]
  exact List.cons_ne_nil c rest

/-! ## A line -/

/-- What the loop has gathered. -/
structure Pending where
  file : Text
  title : Text
  len : Int
  list : List PlaylistItem

def Reading.pending (r : Reading) : Pending := ⟨r.file, r.title, r.len, r.list⟩

/-- The item that is pending is added. -/
def Pending.items (root : Text) (s : Pending) : Except BufferFault (List PlaylistItem) :=
  if s.file.length ≠ 0 then addItem s.list s.file s.title s.len root else pure s.list

/-- What a line comes to. -/
def Pending.put (root : Text) (s : Pending) (l : Line) : Except BufferFault Pending :=
  if l.isFile then
    if s.file.length ≠ 0 then do
      let list ← addItem s.list s.file s.title s.len root
      pure ⟨l.value, [], -1, list⟩
    else pure { s with file := l.value }
  else if l.isTitle then pure { s with title := l.value }
  else if l.isLength then pure { s with len := atoi l.value }
  else pure s

theorem Line.cStr_key (l : Line) : cStr l.key = l.key :=
  NulFree.cStr_eq fun h => (l.keyFree 0 h).2 rfl

theorem Line.cStr_value (l : Line) : cStr l.value = l.value :=
  NulFree.cStr_eq fun h => (l.valueFree 0 h).2.2 rfl

theorem entry_put (root : Text) (r : Reading) (l : Line) (rest : Text) (eof : Bool) :
    (entry root { r with
      rest := rest, eof := eof, key := some l.key, value := some l.value }).map Reading.pending =
        r.pending.put root l := by
  unfold entry readBuffer Pending.put Line.isFile Line.isTitle Line.isLength
  dsimp only
  rw [l.cStr_key, l.cStr_value]
  show Except.map _ (if _ then _ else _) = _
  split
  · show Except.map _ ((if r.file.length ≠ 0 then _ else _) >>= _) =
      if r.file.length ≠ 0 then _ else _
    split
    · show Except.map _ ((addItem r.list r.file r.title r.len root >>= _) >>= _) =
        (addItem r.list r.file r.title r.len root >>= _)
      cases addItem r.list r.file r.title r.len root with
      | error fault => rfl
      | ok list =>
        show Except.ok (⟨cStr l.value, [], -1, list⟩ : Pending) = .ok ⟨l.value, [], -1, list⟩
        rw [l.cStr_value]
    · show Except.ok (⟨cStr l.value, r.title, r.len, r.list⟩ : Pending) =
        .ok ⟨l.value, r.title, r.len, r.list⟩
      rw [l.cStr_value]
  · split
    · rfl
    · split <;> rfl

theorem round_line {l : Line} {lines : List Line} (hended : Ended (l :: lines))
    (hrest : r.rest = linesText (l :: lines)) (heof : r.eof = false) :
    round root r = entry root { r with
      rest := linesText lines
      eof := (linesText lines).isEmpty
      key := some l.key
      value := some l.value } := by
  have htext : linesText (l :: lines) = l.text ++ linesText lines := List.flatMap_cons
  have hlast : linesText lines ≠ [] → l.ending ≠ [] := by
    cases lines with
    | nil => exact fun h => absurd rfl h
    | cons l' lines => exact fun _ => hended.1
  obtain ⟨c, rest, hline, hspace, hc⟩ := head_line l (linesText lines)
  obtain ⟨hfields, hleft, hmet, hstop⟩ := scanf_line l (head?_linesText lines) hlast
  have hskip : (c :: rest).dropWhile isSpace = c :: rest :=
    List.dropWhile_cons_of_neg (Bool.eq_false_iff.mp hspace)
  have hsection := scanf_section_other hskip hc
  rw [hline] at hfields hleft hmet hstop
  rw [htext, hline] at hrest
  have hret : (scanf entryFormat (c :: rest) 0).ret ≠ some 0 := by
    unfold Scanned.ret
    rw [hfields, hstop, if_neg (fun h => by cases h.1)]
    exact fun h => Nat.succ_ne_zero 1 (Option.some.inj h)
  have hkey : buffered r.key (some l.key) = .ok (some l.key) := by
    unfold buffered strcpyPath
    dsimp only
    rw [if_pos l.keyFits]
    rfl
  have hvalue : buffered r.value (some l.value) = .ok (some l.value) := by
    unfold buffered strcpyPath
    dsimp only
    rw [if_pos l.valueFits]
    rfl
  generalize hs : scanf entryFormat (c :: rest) 0 = s at hfields hleft hmet hret
  unfold round
  rw [hrest, hsection]
  dsimp only
  have hnothing : (Scanned.mk [] [] (c :: rest) false .matching).ret = some 0 := rfl
  rw [show buffered r.key ([] : List Text)[0]? = .ok r.key from rfl, ok_bind, hnothing,
    if_neg (not_not.mpr rfl), hs, hfields]
  rw [show [l.key, l.value][0]? = some l.key from rfl,
    show [l.key, l.value][1]? = some l.value from rfl, hkey, ok_bind, hvalue, ok_bind,
    if_pos hret, hleft, hmet, heof]
  rfl

theorem round_pending (root : Text) {l : Line} {lines : List Line} (hended : Ended (l :: lines))
    (hrest : r.rest = linesText (l :: lines)) (heof : r.eof = false) :
    match round root r with
    | .error fault => r.pending.put root l = .error fault
    | .ok r' => r.pending.put root l = .ok r'.pending ∧ r'.rest = linesText lines ∧
        r'.eof = (linesText lines).isEmpty := by
  have hput := entry_put root r l (linesText lines) (linesText lines).isEmpty
  rw [round_line hended hrest heof]
  cases hentry : entry root { r with
      rest := linesText lines
      eof := (linesText lines).isEmpty
      key := some l.key
      value := some l.value } with
  | error fault =>
    rw [hentry] at hput
    exact hput.symm
  | ok r' =>
    rw [hentry] at hput
    obtain ⟨hrest', heof'⟩ := entry_rest hentry
    exact ⟨hput.symm, hrest', heof'⟩

theorem Ended.tail {l : Line} {lines : List Line} (h : Ended (l :: lines)) : Ended lines := by
  cases lines with
  | nil => trivial
  | cons l' lines => exact h.2

theorem loop_lines : ∀ {lines : List Line} {r : Reading} {fuel : Nat}, Ended lines →
    r.rest = linesText lines → r.eof = (linesText lines).isEmpty → lines.length < fuel →
    (loop root fuel r).map (·.map Reading.pending) =
      some (lines.foldlM (Pending.put root) r.pending) := by
  intro lines
  induction lines with
  | nil =>
    intro r fuel _ hrest heof hfuel
    obtain ⟨k, rfl⟩ : ∃ k, fuel = k + 1 := ⟨fuel - 1, by omega⟩
    rw [loop, if_pos (by rw [heof]; rfl)]
    rfl
  | cons l lines ih =>
    intro r fuel hended hrest heof hfuel
    obtain ⟨k, rfl⟩ : ∃ k, fuel = k + 1 := ⟨fuel - 1, by omega⟩
    have hopen : r.eof = false := by
      rw [heof, List.isEmpty_eq_false_iff]
      exact linesText_ne_nil
    have hpending := round_pending root hended hrest hopen
    rw [List.length_cons] at hfuel
    rw [loop, if_neg (by rw [hopen]; exact Bool.false_ne_true), List.foldlM_cons]
    cases hround : round root r with
    | error fault =>
      rw [hround] at hpending
      rw [hpending]
      rfl
    | ok r' =>
      rw [hround] at hpending
      obtain ⟨hput, hrest', heof'⟩ := hpending
      rw [hput, ok_bind]
      exact ih hended.tail hrest' heof' (by omega)

/-! ## The lines of a track -/

/-- An entry, and the lines up to the next one. -/
structure Track where
  file : Line
  fields : List Line
  isFile : file.isFile = true
  others : ∀ l ∈ fields, l.isFile = false

namespace Track

def lines (t : Track) : List Line := t.file :: t.fields

def title (t : Track) : Text := ((t.fields.filter Line.isTitle).getLast?.map Line.value).getD []

/-- The length is that of its `LengthN` line. -/
def length (t : Track) : Int :=
  ((t.fields.filter Line.isLength).getLast?.map fun l => atoi l.value).getD (-1)

end Track

theorem isLength_of_isTitle {l : Line} (h : l.isTitle = true) : l.isLength = false := by
  unfold Line.isTitle at h
  unfold Line.isLength
  obtain ⟨rest, hrest⟩ := List.isPrefixOf_iff_prefix.mp h
  rw [← hrest]
  rfl

theorem getLast?_filter_cons {α : Type} (keep : Line → Bool) (f : Line → α) (l : Line)
    (lines : List Line) (a : α) :
    (((l :: lines).filter keep).getLast?.map f).getD a =
      (((lines.filter keep).getLast?.map f).getD (if keep l then f l else a)) := by
  cases hkeep : keep l with
  | false => simp [List.filter_cons, hkeep]
  | true =>
    rw [List.filter_cons, if_pos hkeep, List.getLast?_cons]
    cases (lines.filter keep).getLast? <;> simp

theorem entries_fields : ∀ {fields : List Line} (s : Pending), (∀ l ∈ fields, l.isFile = false) →
    fields.foldlM (Pending.put root) s = .ok { s with
      title := ((fields.filter Line.isTitle).getLast?.map Line.value).getD s.title
      len := ((fields.filter Line.isLength).getLast?.map fun l => atoi l.value).getD s.len } := by
  intro fields
  induction fields with
  | nil => exact fun _ _ => rfl
  | cons l fields ih =>
    intro s h
    rw [List.forall_mem_cons] at h
    have hput : s.put root l = .ok { s with
        title := if l.isTitle then l.value else s.title
        len := if l.isLength then atoi l.value else s.len } := by
      unfold Pending.put
      rw [h.1, if_neg Bool.false_ne_true]
      cases htitle : l.isTitle with
      | true =>
        rw [isLength_of_isTitle htitle]
        rfl
      | false => cases l.isLength <;> rfl
    rw [List.foldlM_cons, hput, ok_bind, ih _ h.2, getLast?_filter_cons, getLast?_filter_cons]

/-- Nothing is kept for an entry before there is one. -/
def Pending.Fresh (s : Pending) : Prop := s.file = [] → s.title = [] ∧ s.len = -1

theorem entries_track {s : Pending} (hfresh : s.Fresh) (t : Track) :
    t.lines.foldlM (Pending.put root) s =
      s.items root >>= fun list => .ok ⟨t.file.value, t.title, t.length, list⟩ := by
  have hput : s.put root t.file = s.items root >>= fun list => .ok ⟨t.file.value, [], -1, list⟩ := by
    unfold Pending.put Pending.items
    rw [t.isFile, if_pos rfl]
    by_cases hfile : s.file.length ≠ 0
    · rw [if_pos hfile, if_pos hfile]
      rfl
    · obtain ⟨htitle, hlen⟩ := hfresh (List.eq_nil_of_length_eq_zero (not_not.mp hfile))
      rw [if_neg hfile, if_neg hfile, htitle, hlen]
      rfl
  unfold Track.lines
  rw [List.foldlM_cons, hput]
  cases s.items root with
  | error fault => rfl
  | ok list =>
    rw [ok_bind, ok_bind, ok_bind, entries_fields _ t.others]
    rfl

def Track.add (root : Text) (list : List PlaylistItem) (t : Track) :
    Except BufferFault (List PlaylistItem) :=
  addItem list t.file.value t.title t.length root

theorem items_track (t : Track) (list : List PlaylistItem) :
    (Pending.mk t.file.value t.title t.length list).items root = t.add root list := by
  unfold Pending.items Track.add
  exact if_pos fun h => t.file.valueNe (List.eq_nil_of_length_eq_zero h)

theorem entries_tracks (root : Text) : ∀ (tracks : List Track) {s : Pending}, s.Fresh →
    ((tracks.flatMap Track.lines).foldlM (Pending.put root) s >>= fun s => s.items root) =
      s.items root >>= fun list => tracks.foldlM (Track.add root) list := by
  intro tracks
  induction tracks with
  | nil =>
    intro s _
    show s.items root = s.items root >>= fun list => pure list
    cases s.items root <;> rfl
  | cons t tracks ih =>
    intro s hfresh
    rw [List.flatMap_cons, List.foldlM_append, entries_track hfresh]
    cases s.items root with
    | error fault => rfl
    | ok list =>
      have hnext : (Pending.mk t.file.value t.title t.length list).Fresh := fun h =>
        absurd h t.file.valueNe
      rw [ok_bind, ok_bind, ok_bind, List.foldlM_cons, ih hnext, items_track]

/-! ## A file -/

/-- A section, other lines, and the tracks. -/
structure Playlist where
  /-- what stands in the brackets -/
  name : Text
  ending : Text
  head : List Line
  tracks : List Track
  nameNe : name ≠ []
  nameFree : ∀ c ∈ name, c ≠ 93
  nameFits : name.length < maxPath
  endingSpace : ∀ c ∈ ending, isSpace c = true
  headOther : ∀ l ∈ head, l.isFile = false ∧ l.isTitle = false ∧ l.isLength = false
  ended : Ended (head ++ tracks.flatMap Track.lines)

namespace Playlist

def lines (p : Playlist) : List Line := p.head ++ p.tracks.flatMap Track.lines

def text (p : Playlist) : Text := 91 :: (p.name ++ 93 :: (p.ending ++ linesText p.lines))

end Playlist

theorem entries_other : ∀ {lines : List Line} (s : Pending),
    (∀ l ∈ lines, l.isFile = false ∧ l.isTitle = false ∧ l.isLength = false) →
    lines.foldlM (Pending.put root) s = .ok s := by
  intro lines
  induction lines with
  | nil => exact fun _ _ => rfl
  | cons l lines ih =>
    intro s h
    obtain ⟨⟨hfile, htitle, hlength⟩, hlines⟩ := List.forall_mem_cons.mp h
    have hput : s.put root l = .ok s := by
      unfold Pending.put
      rw [hfile, htitle, hlength]
      rfl
    rw [List.foldlM_cons, hput, ok_bind, ih s hlines]

theorem round_section (p : Playlist) :
    round root (start p.text) = .ok { start p.text with
      rest := linesText p.lines
      eof := (linesText p.lines).isEmpty
      key := some p.name } := by
  have hscan : scanf sectionFormat p.text 0 =
      ⟨[p.name], [], linesText p.lines, (linesText p.lines).isEmpty, .done⟩ := by
    have hnameFree : ∀ c ∈ p.name, (c != 93) = true := fun c hc => bne_iff_ne.mpr (p.nameFree c hc)
    have hopening : (91 :: (p.name ++ 93 :: (p.ending ++ linesText p.lines))).dropWhile isSpace =
        91 :: (p.name ++ 93 :: (p.ending ++ linesText p.lines)) :=
      List.dropWhile_cons_of_neg (by decide)
    unfold sectionFormat Playlist.text
    rw [scanf, hopening, scanf, if_pos rfl, scanf_set _ _ p.nameNe hnameFree
      fun c hc => by rw [← Option.mem_some.mp hc]; rfl]
    rw [scanf, if_pos rfl, scanf, scanf, dropWhile_space p.endingSpace (head?_linesText p.lines)]
    simp
  have hkey : buffered none (some p.name) = .ok (some p.name) := by
    unfold buffered strcpyPath
    dsimp only
    rw [if_pos p.nameFits]
    rfl
  have hret : (Scanned.mk [p.name] [] (linesText p.lines) (linesText p.lines).isEmpty .done).ret =
      some 1 := if_neg fun h => by cases h.1
  unfold round
  rw [show (start p.text).rest = p.text from rfl, hscan]
  dsimp only
  rw [show [p.name][0]? = some p.name from rfl, show (start p.text).key = none from rfl, hkey, ok_bind,
    hret, if_pos (by decide)]
  rfl

theorem loop_playlist (p : Playlist) {fuel : Nat} (hfuel : p.lines.length + 1 < fuel) :
    ((loop root fuel (start p.text)).map fun r => r >>= lastItem root) =
      some (p.tracks.foldlM (Track.add root) []) := by
  obtain ⟨k, rfl⟩ : ∃ k, fuel = k + 1 := ⟨fuel - 1, by omega⟩
  have hended : Ended p.lines := p.ended
  have hlines : (loop root k { start p.text with
        rest := linesText p.lines
        eof := (linesText p.lines).isEmpty
        key := some p.name }).map (·.map Reading.pending) =
      some (p.lines.foldlM (Pending.put root) (start p.text).pending) :=
    loop_lines hended rfl rfl (by omega)
  have hfresh : (Reading.pending (start p.text)).Fresh := fun _ => ⟨rfl, rfl⟩
  have htracks := entries_tracks root p.tracks hfresh
  have hlast : ∀ r : Except BufferFault Reading,
      (r >>= lastItem root) = r.map Reading.pending >>= fun s => s.items root := by
    intro r
    cases r <;> rfl
  have hopen : ¬ (start p.text).eof = true := Bool.false_ne_true
  rw [loop, if_neg hopen, round_section, show (fun r : Except BufferFault Reading => r >>= lastItem root) =
    (fun s : Except BufferFault Pending => s >>= fun s => s.items root) ∘
      fun r => r.map Reading.pending from funext hlast, ← Option.map_map]
  dsimp only
  rw [hlines, Option.map_some]
  show some ((p.head ++ p.tracks.flatMap Track.lines).foldlM (Pending.put root) _ >>= _) = _
  rw [List.foldlM_append, entries_other _ p.headOther, ok_bind]
  exact congrArg some htracks

/-! ## The items -/

/-- There is nothing but white space in it. -/
def Blank (s : Text) : Prop := ∀ c ∈ s, isSpace c = true

theorem trimEnd_eq_nil_iff (s : Text) : trimEnd s = [] ↔ Blank s := by
  unfold trimEnd Blank
  rw [List.reverse_eq_nil_iff, List.dropWhile_eq_nil_iff]
  simp only [List.mem_reverse]

theorem blank_convertSeparators (s : Text) : Blank (convertSeparators s) ↔ Blank s := by
  unfold Blank convertSeparators
  simp only [List.mem_map, forall_exists_index, and_imp, forall_apply_eq_imp_iff₂]
  refine forall₂_congr fun c _ => ?_
  by_cases hc : c = 92
  · subst hc
    decide
  · rw [if_neg (by simpa using hc)]

theorem entryURL_none_iff (root s : Text) : entryURL root s = .ok none ↔ Blank s := by
  have htrim : (trimEnd (if isURL s then s else convertSeparators s)).length ≠ 0 ↔ ¬ Blank s := by
    rw [ne_eq, List.length_eq_zero_iff, trimEnd_eq_nil_iff]
    split
    · rfl
    · rw [blank_convertSeparators]
  unfold entryURL
  dsimp only
  by_cases hblank : Blank s
  · rw [if_neg (fun h => htrim.mp h hblank)]
    exact iff_of_true rfl hblank
  · rw [if_pos (htrim.mpr hblank)]
    refine iff_of_false (fun h => ?_) hblank
    generalize trimEnd (if isURL s then s else convertSeparators s) = entry at h
    split at h
    · obtain ⟨path, -, h⟩ := bind_eq_ok.mp h
      cases h
    · obtain ⟨path, -, h⟩ := bind_eq_ok.mp h
      split at h
      · obtain ⟨path', -, h⟩ := bind_eq_ok.mp h
        cases h
      · cases h

/-- The item that is made of a track: its URL, with the track's own title and length. -/
def IsItem (root : Text) (t : Track) (item : PlaylistItem) : Prop :=
  ∃ path, entryURL root t.file.value = .ok (some path) ∧
    item = .create path { (default : MetaData) with
      title := t.title
      time := if 0 < t.length then UInt32.ofNat t.length.toNat else 0 }

/-- The URLs of the tracks fit into the buffers. -/
def Fits (root : Text) (tracks : List Track) : Prop :=
  ∀ t ∈ tracks, ∃ url, entryURL root t.file.value = .ok url

/-- Where no entry is blank, there is one item for each track, in order. -/
theorem items_tracks : ∀ {tracks : List Track} (list : List PlaylistItem), Fits root tracks →
    (∀ t ∈ tracks, ¬ Blank t.file.value) →
    ∃ items, tracks.foldlM (Track.add root) list = .ok (list ++ items) ∧
      List.Forall₂ (IsItem root) tracks items := by
  intro tracks
  induction tracks with
  | nil => exact fun list _ _ => ⟨[], by rw [List.append_nil]; rfl, .nil⟩
  | cons t tracks ih =>
    intro list hfits hblank
    obtain ⟨⟨url, hurl⟩, hfits⟩ := List.forall_mem_cons.mp hfits
    rw [List.forall_mem_cons] at hblank
    cases url with
    | none => exact absurd ((entryURL_none_iff _ _).mp hurl) hblank.1
    | some path =>
      have hadd : t.add root list = .ok (list ++ [.create path { (default : MetaData) with
          title := t.title
          time := if 0 < t.length then UInt32.ofNat t.length.toNat else 0 }]) := by
        unfold Track.add addItem
        rw [hurl]
        rfl
      obtain ⟨items, hitems, hall⟩ := ih _ hfits hblank.2
      refine ⟨_ :: items, ?_, .cons ⟨path, hurl, rfl⟩ hall⟩
      rw [List.foldlM_cons, hadd, ok_bind, hitems, List.append_assoc]
      rfl

theorem not_blank_of_items {tracks : List Track} {items : List PlaylistItem}
    (h : List.Forall₂ (IsItem root) tracks items) : ∀ t ∈ tracks, ¬ Blank t.file.value := by
  induction h with
  | nil => exact fun t ht => absurd ht List.not_mem_nil
  | cons hitem _ ih =>
    refine List.forall_mem_cons.mpr ⟨fun hblank => ?_, ih⟩
    obtain ⟨path, hpath, -⟩ := hitem
    rw [(entryURL_none_iff _ _).mpr hblank] at hpath
    cases hpath

def filesOf (text : Text) : Files := ⟨fun _ => some text, fun _ => true⟩

end Pls

end FreeAmp.Plm
