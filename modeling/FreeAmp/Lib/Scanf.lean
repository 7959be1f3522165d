/-
  Lib/Scanf.lean --- the directives of `scanf`, as the C standard has them.

  A format is a list of directives; it is carried out from the left until one fails.  A
  directive that meets the end of the input where it has to read something is an input
  failure, one that meets another byte than it can take is a matching failure, and leaves
  that byte unread.  A stream remembers that its end has been met.
-/
import FreeAmp.Lib.Decimal

namespace FreeAmp.Lib

inductive Directive where
  /-- white space -/
  | space
  /-- a byte that stands for itself -/
  | lit (c : UInt8)
  /-- `%[..]`, with or without a width -/
  | set (width : Option Nat) (accepts : UInt8 → Bool)
  /-- `%n` -/
  | count

/-- Where a format was left. -/
inductive Stop where
  /-- it has been carried out -/
  | done
  | matching
  | input
  deriving DecidableEq, Repr

/-- What carrying out a format has done. -/
structure Scanned where
  /-- the strings assigned, in order -/
  fields : List (List UInt8)
  /-- the numbers stored by `%n`, in order -/
  offsets : List Nat
  rest : List UInt8
  /-- the end of the input has been met -/
  eof : Bool
  stop : Stop

namespace Scanned

/-- The value `scanf` returns; nothing stands for `EOF`. -/
def ret (s : Scanned) : Option Nat :=
  if s.stop = .input ∧ s.fields = [] then none else some s.fields.length

end Scanned

/-- The bytes that a `%[..]` takes. -/
def setField (width : Option Nat) (accepts : UInt8 → Bool) (input : List UInt8) : List UInt8 :=
  match width with
  | none => input.takeWhile accepts
  | some n => (input.take n).takeWhile accepts

/-- A format carried out; `pos` bytes have been read before. -/
def scanf : List Directive → List UInt8 → Nat → Scanned
  | [], input, _ => ⟨[], [], input, false, .done⟩
  | .space :: ds, input, pos =>
    let rest := input.dropWhile isSpace
    let s := scanf ds rest (pos + (input.length - rest.length))
    { s with eof := rest.isEmpty || s.eof }
  | .lit _ :: _, [], _ => ⟨[], [], [], true, .input⟩
  | .lit c :: ds, d :: input, pos =>
    if d = c then scanf ds input (pos + 1) else ⟨[], [], d :: input, false, .matching⟩
  | .set _ _ :: _, [], _ => ⟨[], [], [], true, .input⟩
  | .set width accepts :: ds, d :: input, pos =>
    let field := setField width accepts (d :: input)
    if field = [] then ⟨[], [], d :: input, false, .matching⟩
    else
      let rest := (d :: input).drop field.length
      let s := scanf ds rest (pos + field.length)
      { s with
        fields := field :: s.fields
        eof := (rest.isEmpty && decide (width ≠ some field.length)) || s.eof }
  | .count :: ds, input, pos =>
    let s := scanf ds input pos
    { s with offsets := pos :: s.offsets }

/-! ## What a set takes -/

theorem setField_cons (accepts : UInt8 → Bool) {c : UInt8} (h : accepts c = true)
    (input : List UInt8) :
    setField none accepts (c :: input) = c :: setField none accepts input :=
  List.takeWhile_cons_of_pos h

theorem drop_setField (accepts : UInt8 → Bool) (input : List UInt8) :
    input.drop (setField none accepts input).length = input.dropWhile accepts := by
  have hsplit : setField none accepts input ++ input.dropWhile accepts = input :=
    List.takeWhile_append_dropWhile
  calc input.drop (setField none accepts input).length
      = (setField none accepts input ++ input.dropWhile accepts).drop
          (setField none accepts input).length := by rw [hsplit]
    _ = input.dropWhile accepts := List.drop_left

/-- A set stops where there is something it does not accept. -/
theorem head?_dropWhile (accepts : UInt8 → Bool) {input : List UInt8} {c : UInt8}
    (h : (input.dropWhile accepts).head? = some c) : accepts c = false := by
  have hnot := List.head?_dropWhile_not accepts input
  rw [h] at hnot
  exact hnot

/-- A set takes what it accepts, up to something that it does not. -/
theorem setField_append {accepts : UInt8 → Bool} {field rest : List UInt8}
    (hfield : ∀ c ∈ field, accepts c = true) (hrest : ∀ c ∈ rest.head?, accepts c = false) :
    setField none accepts (field ++ rest) = field := by
  show (field ++ rest).takeWhile accepts = field
  rw [List.takeWhile_append_of_pos hfield]
  cases rest with
  | nil => exact List.append_nil field
  | cons c rest =>
    rw [List.takeWhile_cons_of_neg (Bool.eq_false_iff.mp (hrest c rfl)), List.append_nil]

theorem scanf_set {accepts : UInt8 → Bool} {field rest : List UInt8} (ds : List Directive)
    (pos : Nat) (hne : field ≠ []) (hfield : ∀ c ∈ field, accepts c = true)
    (hrest : ∀ c ∈ rest.head?, accepts c = false) :
    scanf (.set none accepts :: ds) (field ++ rest) pos =
      let s := scanf ds rest (pos + field.length)
      { s with fields := field :: s.fields, eof := rest.isEmpty || s.eof } := by
  cases field with
  | nil => exact absurd rfl hne
  | cons c field =>
    have hset := setField_append hfield hrest
    rw [List.cons_append] at hset ⊢
    rw [scanf]
    dsimp only
    rw [hset, if_neg (List.cons_ne_nil c field), ← List.cons_append, List.drop_left]
    simp

/-! ## A count at the end -/

theorem scanf_suffix (ds : List Directive) (input : List UInt8) (pos : Nat) :
    (scanf ds input pos).rest <:+ input := by
  induction ds, input, pos using scanf.induct with
  | case1 input pos => exact List.suffix_rfl
  | case2 ds input pos rest ih =>
    rw [scanf]
    exact ih.trans (List.dropWhile_suffix _)
  | case3 c ds pos => exact List.suffix_rfl
  | case4 ds d input pos ih =>
    rw [scanf, if_pos rfl]
    exact ih.trans (List.suffix_cons _ _)
  | case5 c ds d input pos hne =>
    rw [scanf, if_neg hne]
  | case6 width accepts ds pos => exact List.suffix_rfl
  | case7 width accepts ds d input pos field hnone =>
    rw [scanf, if_pos hnone]
  | case8 width accepts ds d input pos field hsome rest ih =>
    rw [scanf, if_neg hsome]
    exact ih.trans (List.drop_suffix _ _)
  | case9 ds input pos ih =>
    rw [scanf]
    exact ih

/-- What is read of the input with a count at the end: the same, and where the format was left
if it was carried out. -/
theorem scanf_count (ds : List Directive) (input : List UInt8) (pos : Nat) :
    let s := scanf ds input pos
    scanf (ds ++ [.count]) input pos = { s with
      offsets := s.offsets ++
        if s.stop = .done then [pos + (input.length - s.rest.length)] else [] } := by
  induction ds, input, pos using scanf.induct with
  | case1 input pos => simp [scanf]
  | case2 ds input pos rest ih =>
    have hless := (scanf_suffix ds rest (pos + (input.length - rest.length))).length_le
    have hshort : rest.length ≤ input.length := (List.dropWhile_suffix _).length_le
    dsimp only at ih ⊢
    rw [List.cons_append, scanf, scanf]
    dsimp only
    show ({ scanf (ds ++ [.count]) rest (pos + (input.length - rest.length)) with
      eof := _ } : Scanned) = _
    generalize scanf ds rest (pos + (input.length - rest.length)) = s at ih hless
    have hsum : pos + (input.length - rest.length) + (rest.length - s.rest.length) =
        pos + (input.length - s.rest.length) := by omega
    rw [ih, hsum]
  | case3 c ds pos => simp [scanf]
  | case4 ds d input pos ih =>
    have hless := (scanf_suffix ds input (pos + 1)).length_le
    dsimp only at ih
    rw [List.cons_append, scanf, scanf, if_pos rfl, if_pos rfl]
    generalize scanf ds input (pos + 1) = s at ih hless
    have hsum : pos + 1 + (input.length - s.rest.length) =
        pos + ((d :: input).length - s.rest.length) := by
      rw [List.length_cons]
      omega
    rw [ih, hsum]
  | case5 c ds d input pos hne => simp [scanf, hne]
  | case6 width accepts ds pos => simp [scanf]
  | case7 width accepts ds d input pos field hnone =>
    have hfield : setField width accepts (d :: input) = [] := hnone
    simp [scanf, hfield]
  | case8 width accepts ds d input pos field hsome rest ih =>
    have hless := (scanf_suffix ds rest (pos + field.length)).length_le
    have hdrop : rest.length = (d :: input).length - field.length := List.length_drop
    have hfield : field.length ≤ (d :: input).length := by
      show (setField width accepts (d :: input)).length ≤ _
      unfold setField
      split
      · exact (List.takeWhile_prefix _).length_le
      · exact ((List.takeWhile_prefix _).trans (List.take_prefix _ _)).length_le
    have hsame : setField width accepts (d :: input) = field := by rfl
    have hrest : (d :: input).drop field.length = rest := by rfl
    clear_value rest field
    dsimp only at ih
    rw [List.cons_append, scanf, scanf, hsame, if_neg hsome, if_neg hsome]
    dsimp only
    rw [hrest]
    generalize scanf ds rest (pos + field.length) = s at ih hless
    have hsum : pos + field.length + (rest.length - s.rest.length) =
        pos + ((d :: input).length - s.rest.length) := by omega
    rw [ih, hsum]
  | case9 ds input pos ih =>
    rw [List.cons_append, scanf, scanf, ih]
    rfl

theorem scanf_offsets (ds : List Directive) (input : List UInt8) (pos : Nat)
    (h : Directive.count ∉ ds) : (scanf ds input pos).offsets = [] := by
  induction ds, input, pos using scanf.induct with
  | case1 input pos => rfl
  | case2 ds input pos rest ih =>
    rw [scanf]
    exact ih fun hmem => h (List.mem_cons_of_mem _ hmem)
  | case3 c ds pos => rfl
  | case4 ds d input pos ih =>
    rw [scanf, if_pos rfl]
    exact ih fun hmem => h (List.mem_cons_of_mem _ hmem)
  | case5 c ds d input pos hne => rw [scanf, if_neg hne]
  | case6 width accepts ds pos => rfl
  | case7 width accepts ds d input pos field hnone => rw [scanf, if_pos hnone]
  | case8 width accepts ds d input pos field hsome rest ih =>
    rw [scanf, if_neg hsome]
    exact ih fun hmem => h (List.mem_cons_of_mem _ hmem)
  | case9 ds input pos ih => exact absurd List.mem_cons_self h

/-- Where the end of the input has been met, nothing is left. -/
theorem scanf_eof (ds : List Directive) (input : List UInt8) (pos : Nat)
    (h : (scanf ds input pos).eof = true) : (scanf ds input pos).rest = [] := by
  induction ds, input, pos using scanf.induct with
  | case1 input pos => cases h
  | case2 ds input pos rest ih =>
    rw [scanf] at h ⊢
    rcases Bool.or_eq_true_iff.mp h with hempty | hlater
    · have hsuffix := scanf_suffix ds rest (pos + (input.length - rest.length))
      have hnone : rest = [] := List.isEmpty_iff.mp hempty
      exact List.suffix_nil.mp (hsuffix.trans (by rw [hnone]))
    · exact ih hlater
  | case3 c ds pos => rfl
  | case4 ds d input pos ih =>
    rw [scanf, if_pos rfl] at h ⊢
    exact ih h
  | case5 c ds d input pos hne =>
    rw [scanf, if_neg hne] at h
    cases h
  | case6 width accepts ds pos => rfl
  | case7 width accepts ds d input pos field hnone =>
    rw [scanf, if_pos hnone] at h
    cases h
  | case8 width accepts ds d input pos field hsome rest ih =>
    rw [scanf, if_neg hsome] at h ⊢
    rcases Bool.or_eq_true_iff.mp h with hlast | hlater
    · have hsuffix := scanf_suffix ds rest (pos + field.length)
      have hnone : rest = [] := List.isEmpty_iff.mp (Bool.and_eq_true_iff.mp hlast).1
      exact List.suffix_nil.mp (hsuffix.trans (by rw [hnone]))
    · exact ih hlater
  | case9 ds input pos ih =>
    rw [scanf] at h ⊢
    exact ih h

/-- A format with a set that has been carried out has assigned a string. -/
theorem scanf_fields_ne_nil (ds : List Directive) (input : List UInt8) (pos : Nat)
    (hset : ∃ width accepts, Directive.set width accepts ∈ ds)
    (hdone : (scanf ds input pos).stop = .done) : (scanf ds input pos).fields ≠ [] := by
  have htail : ∀ {d : Directive} {ds : List Directive}, (∀ width accepts, d ≠ .set width accepts) →
      (∃ width accepts, Directive.set width accepts ∈ d :: ds) →
      ∃ width accepts, Directive.set width accepts ∈ ds := by
    rintro d ds hother ⟨width, accepts, hmem⟩
    rcases List.mem_cons.mp hmem with heq | hmem
    · exact absurd heq.symm (hother width accepts)
    · exact ⟨width, accepts, hmem⟩
  induction ds, input, pos using scanf.induct with
  | case1 input pos =>
    obtain ⟨width, accepts, hmem⟩ := hset
    exact absurd hmem List.not_mem_nil
  | case2 ds input pos rest ih =>
    rw [scanf] at hdone ⊢
    exact ih (htail (fun _ _ h => by cases h) hset) hdone
  | case3 c ds pos => cases hdone
  | case4 ds d input pos ih =>
    rw [scanf, if_pos rfl] at hdone ⊢
    exact ih (htail (fun _ _ h => by cases h) hset) hdone
  | case5 c ds d input pos hne =>
    rw [scanf, if_neg hne] at hdone
    cases hdone
  | case6 width accepts ds pos => cases hdone
  | case7 width accepts ds d input pos field hnone =>
    rw [scanf, if_pos hnone] at hdone
    cases hdone
  | case8 width accepts ds d input pos field hsome rest ih =>
    rw [scanf, if_neg hsome]
    exact List.cons_ne_nil _ _
  | case9 ds input pos ih =>
    rw [scanf] at hdone ⊢
    exact ih (htail (fun _ _ h => by cases h) hset) hdone

/-- A format that was carried out has taken something, if a byte or a set is in it. -/
theorem scanf_takes (ds : List Directive) (input : List UInt8) (pos : Nat)
    (htakes : ∃ d ∈ ds, d ≠ .space ∧ d ≠ .count) (hdone : (scanf ds input pos).stop = .done) :
    (scanf ds input pos).rest.length < input.length := by
  induction ds, input, pos using scanf.induct with
  | case1 input pos =>
    obtain ⟨d, hmem, -⟩ := htakes
    exact absurd hmem List.not_mem_nil
  | case2 ds input pos rest ih =>
    rw [scanf] at hdone ⊢
    obtain ⟨d, hmem, hd⟩ := htakes
    have hlater := ih ⟨d, (List.mem_cons.mp hmem).resolve_left hd.1, hd⟩ hdone
    exact Nat.lt_of_lt_of_le hlater (List.dropWhile_suffix _).length_le
  | case3 c ds pos => cases hdone
  | case4 ds d input pos ih =>
    rw [scanf, if_pos rfl]
    exact Nat.lt_succ_of_le (scanf_suffix ds input (pos + 1)).length_le
  | case5 c ds d input pos hne =>
    rw [scanf, if_neg hne] at hdone
    cases hdone
  | case6 width accepts ds pos => cases hdone
  | case7 width accepts ds d input pos field hnone =>
    rw [scanf, if_pos hnone] at hdone
    cases hdone
  | case8 width accepts ds d input pos field hsome rest ih =>
    rw [scanf, if_neg hsome]
    refine Nat.lt_of_le_of_lt (scanf_suffix ds rest (pos + field.length)).length_le ?_
    have hfield := List.length_pos_iff.mpr hsome
    show ((d :: input).drop field.length).length < _
    rw [List.length_drop, List.length_cons]
    omega
  | case9 ds input pos ih =>
    rw [scanf] at hdone ⊢
    obtain ⟨d, hmem, hd⟩ := htakes
    exact ih ⟨d, (List.mem_cons.mp hmem).resolve_left hd.2, hd⟩ hdone

end FreeAmp.Lib
