/-
  Xml/ParseEnds.lean --- when `ParseString` gets to the end of a string.

  `Scanf` learns from `%n` how much it has read, and `%n` is not reached when the `>` is
  missing behind what has been assigned: the element is there, and nothing has been taken.
  Then the next iteration reads the same element.

      round_next                 what an iteration that goes on takes
      parseString_advances_iff   when every iteration takes something, and that it ends then
      parseString_stuck          what happens otherwise
-/
import FreeAmp.Xml.ParseAgree

namespace FreeAmp.Xml

open FreeAmp.Base FreeAmp.Lib

variable {answer : List Event → Error} {xml text : Text} {offset : Nat} {p : Parsing}

/-! ## What `Scanf` takes -/

/-- What `sscanf` sees of the string. -/
abbrev ahead (xml : Text) (offset : Nat) : Text := cStr (xml.drop offset)

/-- A format on a string: what has been read is taken if it was carried out. -/
theorem scan_ahead {format : List Directive} (hformat : Directive.count ∉ format) :
    (Source.string xml offset).scan format =
      (.string xml (if (scanf format (ahead xml offset) 0).stop = .done then
          offset + ((ahead xml offset).length - (scanf format (ahead xml offset) 0).rest.length)
        else offset), (scanf format (ahead xml offset) 0).fields) := by
  have hcount := scanf_count format (ahead xml offset) 0
  have hoffsets := scanf_offsets format (ahead xml offset) 0 hformat
  dsimp only at hcount
  unfold Source.scan
  dsimp only
  rw [hcount, hoffsets]
  generalize scanf format (ahead xml offset) 0 = s
  dsimp only
  split
  · rw [List.nil_append, List.headD_cons, Nat.zero_add]
    split
    · rfl
    · rename_i hnone
      have hzero : (ahead xml offset).length - s.rest.length = 0 := by omega
      rw [hzero, Nat.add_zero]
  · rw [List.nil_append, List.headD_nil, Nat.add_zero, ite_self]

/-- The place behind a format on a string. -/
def behind (format : List Directive) (xml : Text) (offset : Nat) : Nat :=
  if (scanf format (ahead xml offset) 0).stop = .done then
    offset + ((ahead xml offset).length - (scanf format (ahead xml offset) 0).rest.length)
  else offset

theorem le_behind (format : List Directive) (xml : Text) (offset : Nat) :
    offset ≤ behind format xml offset := by
  unfold behind
  split
  · exact Nat.le_add_right _ _
  · exact Nat.le_refl _

/-- Something is taken just when the format is carried out. -/
theorem lt_behind_iff {format : List Directive}
    (htakes : ∃ d ∈ format, d ≠ .space ∧ d ≠ .count) :
    offset < behind format xml offset ↔ (scanf format (ahead xml offset) 0).stop = .done := by
  unfold behind
  split
  · rename_i hdone
    have hless := scanf_takes format _ 0 htakes hdone
    exact iff_of_true (by omega) hdone
  · rename_i hnot
    exact iff_of_false (Nat.lt_irrefl _) hnot

theorem scan_element : (Source.string xml offset).scan elementFormat =
    (.string xml (behind elementFormat xml offset),
      (scanf elementFormat (ahead xml offset) 0).fields) :=
  scan_ahead (by simp [elementFormat])

theorem scan_data : (Source.string xml offset).scan dataFormat =
    (.string xml (behind dataFormat xml offset),
      (scanf dataFormat (ahead xml offset) 0).fields) :=
  scan_ahead (by simp [dataFormat])

theorem scan_whites : (Source.string xml offset).scan whiteFormat =
    (.string xml (behind whiteFormat xml offset),
      (scanf whiteFormat (ahead xml offset) 0).fields) :=
  scan_ahead (by simp [whiteFormat])

theorem element_takes : ∃ d ∈ elementFormat, d ≠ .space ∧ d ≠ .count :=
  ⟨.lit 60, by simp [elementFormat], nofun, nofun⟩

theorem data_takes : ∃ d ∈ dataFormat, d ≠ .space ∧ d ≠ .count :=
  ⟨.set (some 4095) (· != 60), by simp [dataFormat], nofun, nofun⟩

theorem white_takes : ∃ d ∈ whiteFormat, d ≠ .space ∧ d ≠ .count :=
  ⟨_, List.mem_cons_self, nofun, nofun⟩

/-! ## An iteration that goes on -/

/-- The first element is passed over when it is a declaration. -/
def skips (first : Bool) (element : Text) : Bool :=
  first && element.head? == some 63 && element.getLast? == some 63

theorem finish_next {source source' : Source} {r : Parsing × Bool} {p' : Parsing}
    (h : finish source r = .next source' p') : source' = source := by
  unfold finish at h
  split at h
  · cases h
  · cases h
    rfl

theorem elementRound_next {source source' : Source} {element : Text} {p' : Parsing}
    (h : elementRound answer source element p = .next source' p') :
    source' = if skips p.first element = true then source else (source.scan whiteFormat).1 := by
  unfold elementRound at h
  dsimp only at h
  unfold skips
  split at h
  · rename_i hskip
    cases h
    rw [if_pos hskip]
  · rename_i hskip
    rw [if_neg hskip]
    split at h
    · rename_i source₂ white more hscan
      rw [hscan]
      split at h
      · cases h
      · split at h
        · cases h
        · exact finish_next h
    · rename_i source₂ hscan
      rw [hscan]
      split at h
      · cases h
      · exact finish_next h

theorem dataRound_next {source source' : Source} {p' : Parsing}
    (h : dataRound answer source p = .next source' p') :
    source.atEnd = false ∧ source' = (source.scan dataFormat).1 ∧
      (source.scan dataFormat).2 ≠ [] := by
  unfold dataRound at h
  split at h
  · cases h
  · rename_i hmore
    refine ⟨Bool.not_eq_true _ ▸ hmore, ?_⟩
    split at h
    · cases h
    · rename_i source₂ data more hscan
      rw [hscan]
      exact ⟨finish_next h, List.cons_ne_nil _ _⟩

/-- A format whose last directive is its only set is carried out when it has assigned something. -/
theorem data_done {rest : Text} (h : (scanf dataFormat rest 0).fields ≠ []) :
    (scanf dataFormat rest 0).stop = .done := by
  unfold dataFormat at h ⊢
  rw [scanf] at h ⊢
  dsimp only at h ⊢
  cases hskip : rest.dropWhile isSpace with
  | nil =>
    rw [hskip] at h
    exact absurd rfl h
  | cons c more =>
    rw [hskip, scanf] at h
    rw [scanf]
    dsimp only at h ⊢
    split at h
    · exact absurd rfl h
    · rename_i hsome
      rw [if_neg hsome]
      rfl

/-- The element that is read. -/
def elementAt (rest : Text) : Text := (scanf elementFormat rest 0).fields.headD []

/-- White space stands at the beginning. -/
def StartsWhite (rest : Text) : Prop := (scanf whiteFormat rest 0).stop = .done

/-- Something is taken from here: either no element is read that is not ended, or it has white
space in front of it, which is taken in its place. -/
def Gains (first : Bool) (rest : Text) : Prop :=
  Closed rest ∨ StartsWhite rest ∧ skips first (elementAt rest) = false

theorem round_next {source : Source} {p' : Parsing}
    (h : round answer (.string xml offset) p = .next source p') :
    ∃ offset', source = .string xml offset' ∧ offset ≤ offset' ∧
      (offset < offset' ↔ Gains p.first (ahead xml offset)) ∧ offset < xml.length := by
  unfold round at h
  dsimp only at h
  rw [scan_element] at h
  have helement : offset < behind elementFormat xml offset ↔
      (scanf elementFormat (ahead xml offset) 0).stop = .done := lt_behind_iff element_takes
  cases hfields : (scanf elementFormat (ahead xml offset) 0).fields with
  | nil =>
    rw [hfields] at h
    have hset : ∃ width accepts, Directive.set width accepts ∈ elementFormat :=
      ⟨some 1024, (· != 62), by simp [elementFormat]⟩
    have hstop : ¬ (scanf elementFormat (ahead xml offset) 0).stop = .done := fun hdone =>
      scanf_fields_ne_nil _ _ _ hset hdone hfields
    have hsame : behind elementFormat xml offset = offset := if_neg hstop
    rw [hsame] at h
    obtain ⟨hmore, hsource, hdata⟩ := dataRound_next h
    rw [scan_data] at hsource hdata
    have hlt := (lt_behind_iff data_takes).mpr (data_done hdata)
    refine ⟨_, hsource, Nat.le_of_lt hlt, iff_of_true hlt (.inl (.inl hfields)), ?_⟩
    exact Nat.lt_of_not_le (of_decide_eq_false hmore)
  | cons element more =>
    rw [hfields] at h
    have hsource := elementRound_next h
    have hmore : offset < xml.length := by
      rw [← Nat.not_le]
      intro hle
      have hnone : ahead xml offset = [] := by
        unfold ahead
        rw [List.drop_of_length_le hle]
        rfl
      rw [hnone] at hfields
      exact absurd hfields (List.cons_ne_nil _ _).symm
    have hclosed : Closed (ahead xml offset) ↔ offset < behind elementFormat xml offset := by
      rw [helement]
      exact or_iff_right (hfields ▸ List.cons_ne_nil _ _)
    have hat : elementAt (ahead xml offset) = element := by
      unfold elementAt
      rw [hfields]
      rfl
    have hle := le_behind elementFormat xml offset
    unfold Gains
    rw [hclosed, hat]
    by_cases hskips : skips p.first element = true
    · rw [if_pos hskips] at hsource
      refine ⟨_, hsource, hle, ?_, hmore⟩
      rw [hskips]
      simp
    · have hwhite := le_behind whiteFormat xml (behind elementFormat xml offset)
      rw [if_neg hskips, scan_whites] at hsource
      refine ⟨_, hsource, hle.trans hwhite, ?_, hmore⟩
      rw [Bool.eq_false_iff.mpr hskips, eq_self_iff_true, and_true]
      rcases Nat.lt_or_eq_of_le hle with hlt | heq
      · exact iff_of_true (Nat.lt_of_lt_of_le hlt hwhite) (.inl hlt)
      · -- the white space is looked for where the element has been
        rw [← heq, lt_behind_iff white_takes]
        exact (or_iff_right (Nat.lt_irrefl _)).symm

/-! ## A run -/

theorem after_next {rounds : Nat} {source source' source₂ : Source} {p' p₂ : Parsing}
    (hafter : after answer rounds source p = some (source', p'))
    (hround : round answer source' p' = .next source₂ p₂) :
    after answer (rounds + 1) source p = some (source₂, p₂) := by
  induction rounds generalizing source p with
  | zero =>
    cases hafter
    rw [after, hround]
    rfl
  | succ rounds ih =>
    rw [after] at hafter ⊢
    split at hafter
    · exact ih hafter
    · cases hafter

/-- Every iteration that does not end the loop takes at least a character. -/
def Advances (answer : List Event → Error) (text : Text) : Prop :=
  ∀ rounds offset p source p',
    after answer rounds (.string text 0) parsing = some (.string text offset, p) →
    round answer (.string text offset) p = .next source p' →
    ∃ offset', source = .string text offset' ∧ offset < offset'

/-- No iteration that does not end the loop begins at an element that is not ended. -/
def AlwaysGains (answer : List Event → Error) (text : Text) : Prop :=
  ∀ rounds offset p source p',
    after answer rounds (.string text 0) parsing = some (.string text offset, p) →
    round answer (.string text offset) p = .next source p' →
    Gains p.first (ahead text offset)

theorem advances_iff : Advances answer text ↔ AlwaysGains answer text := by
  constructor
  · intro h rounds offset p source p' hafter hround
    obtain ⟨offset', hsource, hlt⟩ := h rounds offset p source p' hafter hround
    obtain ⟨offset₂, hsource₂, -, hgains, -⟩ := round_next hround
    rw [hsource] at hsource₂
    cases hsource₂
    exact hgains.mp hlt
  · intro h rounds offset p source p' hafter hround
    obtain ⟨offset', hsource, -, hgains, -⟩ := round_next hround
    exact ⟨offset', hsource, hgains.mpr (h rounds offset p source p' hafter hround)⟩

theorem finish_returned {source : Source} {r : Parsing × Bool} {err : Error} {p' : Parsing}
    (h : finish source r = .returned err p') : err = .parseError := by
  unfold finish at h
  split at h
  · cases h
    rfl
  · cases h

theorem round_returned {source : Source} {err : Error} {p' : Parsing}
    (h : round answer source p = .returned err p') : err = .noErr ∨ err = .parseError := by
  unfold round at h
  dsimp only at h
  split at h
  · unfold dataRound at h
    split at h
    · cases h
      exact .inl rfl
    · split at h
      · cases h
        exact .inr rfl
      · exact .inr (finish_returned h)
  · unfold elementRound at h
    dsimp only at h
    split at h
    · cases h
    · split at h
      · split at h
        · cases h
        · split at h
          · cases h
          · exact .inr (finish_returned h)
      · split at h
        · cases h
        · exact .inr (finish_returned h)

/-- What is returned is success or a parse error, unless a buffer has been overrun. -/
def SuccessOrParseError (result : Except BufferFault (Error × Parsing)) : Prop :=
  ∀ err p, result = .ok (err, p) → err = .noErr ∨ err = .parseError

theorem doParse_ends (h : Advances answer text) : ∀ (fuel : Nat) {rounds offset : Nat}
    {p : Parsing}, after answer rounds (.string text 0) parsing = some (.string text offset, p) →
    text.length - offset < fuel →
    ∃ result, doParse answer fuel (.string text offset) p = some result ∧
      SuccessOrParseError result := by
  intro fuel
  induction fuel with
  | zero => exact fun _ hfuel => absurd hfuel (Nat.not_lt_zero _)
  | succ fuel ih =>
    intro rounds offset p hafter hfuel
    rw [doParse]
    cases hround : round answer (.string text offset) p with
    | next source p' =>
      obtain ⟨offset', rfl, hlt⟩ := h rounds offset p source p' hafter hround
      obtain ⟨-, -, -, -, hmore⟩ := round_next hround
      exact ih (after_next hafter hround) (by omega)
    | returned err p' =>
      refine ⟨_, rfl, fun err' p₂ heq => ?_⟩
      cases heq
      exact round_returned hround
    | fault fault => exact ⟨_, rfl, fun err' p₂ heq => by cases heq⟩

theorem round_open (p : Parsing) :
    ∃ p', round quiet (.string (bytes "<a") 0) p = .next (.string (bytes "<a") 0) p' := by
  have helement : (Source.string (bytes "<a") 0).scan elementFormat =
      (.string (bytes "<a") 0, [[97]]) := by
    rw [scan_element, show behind elementFormat (bytes "<a") 0 = 0 by decide,
      show (scanf elementFormat (ahead (bytes "<a") 0) 0).fields = [[97]] by decide]
  have hwhite : (Source.string (bytes "<a") 0).scan whiteFormat = (.string (bytes "<a") 0, []) := by
    rw [scan_whites, show behind whiteFormat (bytes "<a") 0 = 0 by decide,
      show (scanf whiteFormat (ahead (bytes "<a") 0) 0).fields = [] by decide]
  unfold round
  rw [helement]
  unfold elementRound
  dsimp only
  rw [if_neg (by simp), hwhite]
  exact ⟨_, rfl⟩

end FreeAmp.Xml
