/-
  Xml/ParseAgree.lean --- reading a document from a file and from a string.

  `Scanf` on a file takes what it has read, also if the format is not carried out to its
  end; on a string it takes nothing then.  So the two stay at the same place as long as the
  format of an element is carried out, or does not find the `<` it starts with (`Even`).
-/
import FreeAmp.Xml.Parse

namespace FreeAmp.Xml

open FreeAmp.Base FreeAmp.Lib

variable {answer : List Event → Error} {rest xml : Text} {eof : Bool} {offset : Nat} {p : Parsing}

/-! ## A format -/

/-- A file and a string at the same place. -/
structure Matches (rest : Text) (eof : Bool) (xml : Text) (offset : Nat) : Prop where
  nulFree : NulFree xml
  inside : offset ≤ xml.length
  rest_eq : rest = xml.drop offset
  atEnd : eof = true → rest = []

theorem nulFree_drop {s : Text} (h : NulFree s) (n : Nat) : NulFree (s.drop n) :=
  h.of_subset (List.drop_subset n s)

/-- A format on a string: what has been read is taken if it was carried out. -/
theorem scan_string (h : Matches rest eof xml offset) {format : List Directive}
    (hformat : Directive.count ∉ format) :
    (Source.string xml offset).scan format =
      if (scanf format rest 0).stop = .done then
        (.string xml (offset + (rest.length - (scanf format rest 0).rest.length)),
          (scanf format rest 0).fields)
      else (.string xml offset, (scanf format rest 0).fields) := by
  have hcstr : cStr (xml.drop offset) = rest := by
    rw [(nulFree_drop h.nulFree offset).cStr_eq, h.rest_eq]
  have hcount := scanf_count format rest 0
  have hoffsets := scanf_offsets format rest 0 hformat
  dsimp only at hcount
  unfold Source.scan
  dsimp only
  rw [hcstr, hcount, hoffsets]
  generalize scanf format rest 0 = s
  dsimp only
  split
  · rw [List.nil_append, List.headD_cons, Nat.zero_add]
    split
    · rfl
    · rename_i hnone
      have hzero : rest.length - s.rest.length = 0 := by omega
      rw [hzero, Nat.add_zero]
  · rw [List.nil_append, List.headD_nil, Nat.add_zero, ite_self]

/-- A format that is carried out leaves the two at the same place. -/
theorem scan_done (h : Matches rest eof xml offset) {format : List Directive}
    (hformat : Directive.count ∉ format) (hdone : (scanf format rest 0).stop = .done) :
    ∃ eof' offset', (Source.file rest eof).scan format =
        (.file (scanf format rest 0).rest eof', (scanf format rest 0).fields) ∧
      (Source.string xml offset).scan format =
        (.string xml offset', (scanf format rest 0).fields) ∧
      Matches (scanf format rest 0).rest eof' xml offset' := by
  have hsuffix := scanf_suffix format rest 0
  have hstring := scan_string h hformat
  rw [if_pos hdone] at hstring
  refine ⟨_, _, rfl, hstring, h.nulFree, ?_, ?_, ?_⟩
  · have hinside := h.inside
    have hlen : rest.length = xml.length - offset := by
      rw [h.rest_eq, List.length_drop]
    omega
  · rw [← List.drop_drop, ← h.rest_eq]
    exact (List.suffix_iff_eq_drop.mp hsuffix)
  · intro hor
    rw [Bool.or_eq_true] at hor
    rcases hor with hold | hnew
    · exact List.suffix_nil.mp (hsuffix.trans (by rw [h.atEnd hold]))
    · exact scanf_eof format rest 0 hnew

theorem scan_white (h : Matches rest eof xml offset) :
    ∃ rest' eof' offset' fields,
      (Source.file rest eof).scan whiteFormat = (.file rest' eof', fields) ∧
      (Source.string xml offset).scan whiteFormat = (.string xml offset', fields) ∧
      Matches rest' eof' xml offset' := by
  have hformat : Directive.count ∉ whiteFormat := by simp [whiteFormat]
  by_cases hdone : (scanf whiteFormat rest 0).stop = .done
  · obtain ⟨eof', offset', hfile, hstring, hmatches⟩ := scan_done h hformat hdone
    exact ⟨_, eof', offset', _, hfile, hstring, hmatches⟩
  · have hstring := scan_string h hformat
    rw [if_neg hdone] at hstring
    have hsame : (scanf whiteFormat rest 0).rest = rest := by
      unfold whiteFormat at hdone ⊢
      cases rest with
      | nil => rfl
      | cons d input =>
        rw [scanf] at hdone ⊢
        dsimp only at hdone ⊢
        split
        · rfl
        · rename_i hsome
          rw [if_neg hsome] at hdone
          exact absurd rfl hdone
    refine ⟨_, _, offset, _, rfl, hstring, h.nulFree, h.inside, ?_, fun hor => ?_⟩
    · rw [hsame, h.rest_eq]
    · rcases Bool.or_eq_true_iff.mp hor with hold | hnew
      · rw [hsame, h.atEnd hold]
      · exact scanf_eof whiteFormat rest 0 hnew

/-! ## A round -/

/-- The format of an element is carried out, or there is nothing left, or something other than
white space that is no element. -/
def Even (rest : Text) : Prop :=
  (scanf elementFormat rest 0).stop = .done ∨ rest = [] ∨
    ∃ c more, rest.dropWhile isSpace = c :: more ∧ c ≠ 60

/-- Two rounds that come to the same. -/
inductive Agrees : Round → Round → Prop where
  | next {rest xml : Text} {eof : Bool} {offset : Nat} (p : Parsing) :
      Matches rest eof xml offset → Agrees (.next (.file rest eof) p) (.next (.string xml offset) p)
  | returned (err : Error) (p : Parsing) : Agrees (.returned err p) (.returned err p)
  | fault (fault : BufferFault) : Agrees (.fault fault) (.fault fault)

theorem finish_agrees (h : Matches rest eof xml offset) (r : Parsing × Bool) :
    Agrees (finish (.file rest eof) r) (finish (.string xml offset) r) := by
  unfold finish
  split
  · exact .returned _ _
  · exact .next _ h

theorem elementRound_agrees (h : Matches rest eof xml offset) (element : Text) :
    Agrees (elementRound answer (.file rest eof) element p)
      (elementRound answer (.string xml offset) element p) := by
  unfold elementRound
  dsimp only
  split
  · exact .next _ h
  · obtain ⟨rest', eof', offset', fields, hfile, hstring, hmatches⟩ := scan_white h
    rw [hfile, hstring]
    cases fields with
    | nil =>
      dsimp only
      split
      · exact .fault _
      · exact finish_agrees hmatches _
    | cons white more =>
      dsimp only
      split
      · exact .fault _
      · split
        · exact .fault _
        · exact finish_agrees hmatches _

/-- Where there is no element, nothing but white space is read of one. -/
theorem scanf_element_data {c : UInt8} {more : Text} (hskip : rest.dropWhile isSpace = c :: more)
    (hc : c ≠ 60) : scanf elementFormat rest 0 = ⟨[], [], c :: more, false, .matching⟩ := by
  unfold elementFormat
  rw [scanf, hskip, scanf, if_neg hc]
  rfl

theorem scanf_data {c : UInt8} {more : Text} (hskip : rest.dropWhile isSpace = c :: more)
    (hc : c ≠ 60) : ∃ data : Text, (scanf dataFormat rest 0).fields = [data] ∧
      (scanf dataFormat rest 0).rest = (c :: more).drop data.length ∧
      (scanf dataFormat rest 0).stop = .done ∧
      data = setField (some 4095) (· != 60) (c :: more) := by
  have hsome : setField (some 4095) (· != 60) (c :: more) ≠ [] := by
    unfold setField
    have haccepts : (c != 60) = true := bne_iff_ne.mpr hc
    dsimp only
    rw [List.take_succ_cons, List.takeWhile_cons_of_pos (p := fun x => x != 60) haccepts]
    exact List.cons_ne_nil _ _
  refine ⟨_, ?_, ?_, ?_, rfl⟩
  all_goals
    unfold dataFormat
    rw [scanf, hskip, scanf, if_neg hsome]
    rfl

/-- Data that are read, from behind the white space in a file and from in front of it in a
string. -/
theorem dataRound_agrees {c : UInt8} {more : Text} (h : Matches rest eof xml offset)
    (hskip : rest.dropWhile isSpace = c :: more) (hc : c ≠ 60) :
    Agrees (dataRound answer (.file (c :: more) eof) p) (dataRound answer (.string xml offset) p) := by
  have hformat : Directive.count ∉ dataFormat := by simp [dataFormat]
  have hrest : rest ≠ [] := by
    rintro rfl
    cases hskip
  have hfile : eof = false := Bool.eq_false_iff.mpr fun heof => hrest (h.atEnd heof)
  have hstring : ¬ xml.length ≤ offset := by
    intro hle
    rw [h.rest_eq, List.drop_of_length_le hle] at hrest
    exact hrest rfl
  have hspace : (c :: more).dropWhile isSpace = c :: more :=
    List.dropWhile_cons_of_neg (Bool.eq_false_iff.mp (head?_dropWhile isSpace (by rw [hskip]; rfl)))
  obtain ⟨data, hfields, hleft, hdone, hdata⟩ := scanf_data hskip hc
  obtain ⟨data', hfields', hleft', -, hdata'⟩ := scanf_data hspace hc
  rw [← hdata] at hdata'
  subst hdata'
  obtain ⟨eof', offset', -, hscan, hmatches⟩ := scan_done h hformat hdone
  have hother : Matches (scanf dataFormat (c :: more) 0).rest
      (eof || (scanf dataFormat (c :: more) 0).eof) xml offset' := by
    refine ⟨h.nulFree, hmatches.inside, ?_, fun heof => ?_⟩
    · rw [hleft', ← hleft, hmatches.rest_eq]
    · rw [hfile, Bool.false_or] at heof
      exact scanf_eof dataFormat (c :: more) 0 heof
  unfold dataRound
  rw [hscan, hfields]
  unfold Source.atEnd
  dsimp only
  rw [if_neg (by rw [hfile]; decide), if_neg (by rw [decide_eq_true_eq]; exact hstring)]
  have hscan' : (Source.file (c :: more) eof).scan dataFormat =
      (.file (scanf dataFormat (c :: more) 0).rest (eof || (scanf dataFormat (c :: more) 0).eof),
        [data']) := by
    unfold Source.scan
    dsimp only
    rw [hfields']
  rw [hscan']
  exact finish_agrees hother _

theorem round_agrees (h : Matches rest eof xml offset) (heven : Even rest) :
    Agrees (round answer (.file rest eof) p) (round answer (.string xml offset) p) := by
  have hformat : Directive.count ∉ elementFormat := by simp [elementFormat]
  have hset : ∃ width accepts, Directive.set width accepts ∈ elementFormat :=
    ⟨some 1024, (· != 62), by simp [elementFormat]⟩
  unfold round
  dsimp only
  rcases heven with hdone | hnone | ⟨c, more, hskip, hc⟩
  · obtain ⟨eof', offset', hfile, hstring, hmatches⟩ := scan_done h hformat hdone
    rw [hfile, hstring]
    cases hfields : (scanf elementFormat rest 0).fields with
    | nil => exact absurd hfields (scanf_fields_ne_nil _ _ _ hset hdone)
    | cons element more => exact elementRound_agrees hmatches element
  · have hstring := scan_string h hformat
    subst hnone
    rw [hstring]
    have hend : xml.length ≤ offset := List.drop_eq_nil_iff.mp h.rest_eq.symm
    show Agrees (dataRound answer (.file [] (eof || true)) _) (dataRound answer (.string xml offset) _)
    unfold dataRound Source.atEnd
    dsimp only
    rw [Bool.or_true, if_pos rfl, if_pos (decide_eq_true hend)]
    exact .returned _ _
  · have hstring := scan_string h hformat
    rw [hstring]
    unfold Source.scan
    dsimp only
    rw [scanf_element_data hskip hc, if_neg nofun]
    dsimp only
    rw [Bool.or_false]
    exact dataRound_agrees h hskip hc

/-! ## A round in which they part -/

/-- Where no element is read and the round is not even, the file has come to its end, or to a
`>` that has nothing in front of it. -/
theorem scanf_element_odd (hodd : ¬ Even rest) (hnone : (scanf elementFormat rest 0).fields = []) :
    (rest.dropWhile isSpace = [] ∨ ∃ more, rest.dropWhile isSpace = 60 :: more) ∧
      ((scanf elementFormat rest 0).eof = true ∨
        (∃ more, (scanf elementFormat rest 0).rest = 62 :: more) ∧
          (scanf elementFormat rest 0).eof = false) := by
  cases hskip : rest.dropWhile isSpace with
  | nil =>
    refine ⟨.inl rfl, .inl ?_⟩
    unfold elementFormat
    rw [scanf, hskip]
    rfl
  | cons c more =>
    by_cases hc : c = 60
    · subst hc
      refine ⟨.inr ⟨more, rfl⟩, ?_⟩
      unfold elementFormat at hnone ⊢
      rw [scanf, hskip, scanf, if_pos rfl, scanf] at hnone ⊢
      cases hmore : more.dropWhile isSpace with
      | nil => exact .inl rfl
      | cons d more' =>
        rw [hmore] at hnone
        rw [scanf] at hnone ⊢
        dsimp only at hnone ⊢
        split at hnone
        · rename_i hfield
          rw [if_pos hfield]
          refine .inr ⟨⟨more', ?_⟩, rfl⟩
          have hd : d = 62 := by
            by_contra hne
            have haccepts : (d != 62) = true := bne_iff_ne.mpr hne
            unfold setField at hfield
            dsimp only at hfield
            rw [List.take_succ_cons,
              List.takeWhile_cons_of_pos (p := fun x => x != 62) haccepts] at hfield
            cases hfield
          rw [hd]
        · exact absurd hnone (List.cons_ne_nil _ _)
    · exact absurd (.inr (.inr ⟨c, more, hskip, hc⟩)) hodd

/-- No data are read from in front of a `<` or the end. -/
theorem scanf_data_none
    (h : rest.dropWhile isSpace = [] ∨ ∃ more, rest.dropWhile isSpace = 60 :: more) :
    (scanf dataFormat rest 0).fields = [] ∧ (scanf dataFormat rest 0).stop ≠ .done := by
  unfold dataFormat
  rw [scanf]
  rcases h with hskip | ⟨more, hskip⟩
  · rw [hskip]
    exact ⟨rfl, fun hstop => by cases hstop⟩
  · have hfield : setField (some 4095) (· != 60) (60 :: more) = [] := by
      unfold setField
      rfl
    rw [hskip, scanf, if_pos hfield]
    exact ⟨rfl, fun hstop => by cases hstop⟩

theorem round_string_odd (h : Matches rest eof xml offset) (hodd : ¬ Even rest)
    (hnone : (scanf elementFormat rest 0).fields = []) :
    ∃ p', round answer (.string xml offset) p = .returned .parseError p' ∧
      p'.events = p.events := by
  have hformat : Directive.count ∉ elementFormat := by simp [elementFormat]
  have hdata : Directive.count ∉ dataFormat := by simp [dataFormat]
  have hstop : ¬ (scanf elementFormat rest 0).stop = .done := fun hdone => hodd (.inl hdone)
  have hstring := scan_string h hformat
  rw [if_neg hstop, hnone] at hstring
  obtain ⟨hfields, hfails⟩ := scanf_data_none (scanf_element_odd hodd hnone).1
  have hscan := scan_string h hdata
  rw [if_neg hfails, hfields] at hscan
  have hmore : ¬ (Source.string xml offset).atEnd = true := by
    intro hend
    have hle : xml.length ≤ offset := of_decide_eq_true hend
    exact hodd (.inr (.inl (h.rest_eq.trans (List.drop_of_length_le hle))))
  unfold round
  dsimp only
  rw [hstring]
  dsimp only
  unfold dataRound
  rw [if_neg hmore, hscan]
  exact ⟨_, rfl, rfl⟩

/-- The file ends without an error, or goes on with a call. -/
theorem round_file_odd (h : Matches rest eof xml offset) (hodd : ¬ Even rest)
    (hnone : (scanf elementFormat rest 0).fields = []) :
    (∃ p', round answer (.file rest eof) p = .returned .noErr p') ∨
      (∃ source p', round answer (.file rest eof) p = .next source p') ∨
        ∃ err p', round answer (.file rest eof) p = .returned err p' ∧ p'.events ≠ p.events := by
  have hfile : (Source.file rest eof).scan elementFormat =
      (.file (scanf elementFormat rest 0).rest (eof || (scanf elementFormat rest 0).eof), []) := by
    unfold Source.scan
    dsimp only
    rw [hnone]
  have heof : eof = false := Bool.eq_false_iff.mpr fun heof => hodd (.inr (.inl (h.atEnd heof)))
  unfold round
  dsimp only
  rw [hfile, heof, Bool.false_or]
  dsimp only
  rcases (scanf_element_odd hodd hnone).2 with hend | ⟨⟨more, hrest⟩, hmore⟩
  · refine .inl ⟨{ p with errorLine := p.errorLine + countNewlines (cStr p.element) }, ?_⟩
    unfold dataRound Source.atEnd
    dsimp only
    rw [if_pos hend]
  · have hskip : (62 :: more).dropWhile isSpace = 62 :: more :=
      List.dropWhile_cons_of_neg (by decide)
    obtain ⟨data, hfields, -⟩ := scanf_data hskip (by decide)
    have hscan : (Source.file (62 :: more) false).scan dataFormat =
        (.file (scanf dataFormat (62 :: more) 0).rest
          (false || (scanf dataFormat (62 :: more) 0).eof), [data]) := by
      unfold Source.scan
      dsimp only
      rw [hfields]
    rw [hrest, hmore]
    unfold dataRound
    rw [if_neg (show ¬ (Source.file (62 :: more) false).atEnd = true by nofun), hscan]
    dsimp only
    unfold finish
    split
    · refine .inr (.inr ⟨_, _, rfl, fun hsame => ?_⟩)
      have hlen : (p.events ++ [Event.pcData (unXMLize data)]).length = p.events.length :=
        congrArg List.length hsame
      rw [List.length_append] at hlen
      exact absurd hlen (by simp)
    · exact .inr (.inl ⟨_, _, rfl⟩)

theorem doParse_odd (h : Matches rest eof xml offset) (hodd : ¬ Even rest)
    (hnone : (scanf elementFormat rest 0).fields = []) :
    doParse answer 1 (.file rest eof) p ≠ doParse answer 1 (.string xml offset) p := by
  obtain ⟨p₂, hstring, hevents⟩ := @round_string_odd answer rest xml eof offset p h hodd hnone
  rw [doParse, doParse, hstring]
  rcases @round_file_odd answer rest xml eof offset p h hodd hnone with
    ⟨p₁, hfile⟩ | ⟨source, p₁, hfile⟩ | ⟨err, p₁, hfile, hmore⟩
  · rw [hfile]
    nofun
  · rw [hfile]
    nofun
  · rw [hfile]
    intro hsame
    cases hsame
    exact hmore hevents

/-! ## A run -/

/-- The state in which the round behind so many others begins. -/
def after (answer : List Event → Error) : Nat → Source → Parsing → Option (Source × Parsing)
  | 0, source, p => some (source, p)
  | rounds + 1, source, p =>
    match round answer source p with
    | .next source p => after answer rounds source p
    | _ => none

/-- Every round that begins is of a kind. -/
def EveryRound (answer : List Event → Error) (kind : Text → Prop) (rest : Text) (eof : Bool)
    (p : Parsing) : Prop :=
  ∀ rounds rest' eof' p', after answer rounds (.file rest eof) p = some (.file rest' eof', p') →
    kind rest'

/-- No element is read that is not ended. -/
def Closed (rest : Text) : Prop :=
  (scanf elementFormat rest 0).fields = [] ∨ (scanf elementFormat rest 0).stop = .done

theorem EveryRound.next {kind : Text → Prop} {rest' : Text} {eof' : Bool} {p' : Parsing}
    (h : EveryRound answer kind rest eof p)
    (hround : round answer (.file rest eof) p = .next (.file rest' eof') p') :
    EveryRound answer kind rest' eof' p' := by
  intro rounds rest₂ eof₂ p₂ hafter
  refine h (rounds + 1) rest₂ eof₂ p₂ ?_
  rw [after, hround]
  exact hafter

/-- As long as every round is even, the two parsers do the same. -/
theorem doParse_even : ∀ (fuel : Nat) {rest xml : Text} {eof : Bool} {offset : Nat} {p : Parsing},
    Matches rest eof xml offset → EveryRound answer Even rest eof p →
    doParse answer fuel (.file rest eof) p = doParse answer fuel (.string xml offset) p ∧
      (after answer fuel (.file rest eof) p).map Prod.snd =
        (after answer fuel (.string xml offset) p).map Prod.snd := by
  intro fuel
  induction fuel with
  | zero => exact fun _ _ => ⟨rfl, rfl⟩
  | succ fuel ih =>
    intro rest xml eof offset p h heven
    have hagrees : Agrees (round answer (.file rest eof) p) (round answer (.string xml offset) p) :=
      round_agrees h (heven 0 rest eof p rfl)
    rw [doParse, doParse, after, after]
    cases hround : round answer (.file rest eof) p with
    | next source p' =>
      rw [hround] at hagrees
      generalize round answer (.string xml offset) p = other at hagrees
      cases hagrees with
      | next _ hmatches => exact ih hmatches (heven.next hround)
    | returned err p' =>
      rw [hround] at hagrees
      generalize round answer (.string xml offset) p = other at hagrees
      cases hagrees with
      | returned => exact ⟨rfl, rfl⟩
    | fault fault =>
      rw [hround] at hagrees
      generalize round answer (.string xml offset) p = other at hagrees
      cases hagrees with
      | fault => exact ⟨rfl, rfl⟩

/-- Where the two come to the same, and no element is read that is not ended, every round is
even. -/
theorem even_of_same : ∀ (rounds : Nat) {rest xml : Text} {eof : Bool} {offset : Nat}
    {p : Parsing}, Matches rest eof xml offset →
    (∀ fuel, doParse answer fuel (.file rest eof) p = doParse answer fuel (.string xml offset) p) →
    EveryRound answer Closed rest eof p →
    ∀ rest' eof' p', after answer rounds (.file rest eof) p = some (.file rest' eof', p') →
      Even rest' := by
  intro rounds
  induction rounds with
  | zero =>
    intro rest xml eof offset p h hsame hclosed rest' eof' p' hafter
    cases hafter
    by_contra hodd
    rcases hclosed 0 rest eof p rfl with hnone | hdone
    · exact doParse_odd h hodd hnone (hsame 1)
    · exact hodd (.inl hdone)
  | succ rounds ih =>
    intro rest xml eof offset p h hsame hclosed rest' eof' p' hafter
    have heven : Even rest := by
      by_contra hodd
      rcases hclosed 0 rest eof p rfl with hnone | hdone
      · exact doParse_odd h hodd hnone (hsame 1)
      · exact hodd (.inl hdone)
    have hagrees : Agrees (round answer (.file rest eof) p) (round answer (.string xml offset) p) :=
      round_agrees h heven
    rw [after] at hafter
    cases hround : round answer (.file rest eof) p with
    | next source p₁ =>
      rw [hround] at hagrees hafter
      cases hother : round answer (.string xml offset) p with
      | next source₂ p₂ =>
        rw [hother] at hagrees
        cases hagrees with
        | next _ hmatches =>
          refine ih hmatches (fun fuel => ?_) (hclosed.next hround) rest' eof' p' hafter
          have hmore := hsame (fuel + 1)
          rw [doParse, doParse, hround, hother] at hmore
          exact hmore
      | returned err p₂ =>
        rw [hother] at hagrees
        cases hagrees
      | fault fault =>
        rw [hother] at hagrees
        cases hagrees
    | returned err p₁ =>
      rw [hround] at hafter
      cases hafter
    | fault fault =>
      rw [hround] at hafter
      cases hafter

/-! ## A document -/

section Document

variable {text : Text}

theorem matches_start (h : NulFree text) : Matches text false text 0 :=
  ⟨h, Nat.zero_le _, rfl, nofun⟩

end Document

/-- No call returns an error. -/
def quiet : List Event → Error := fun _ => .noErr

end FreeAmp.Xml
