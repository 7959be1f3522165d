/-
  Base/MatchPattern.lean --- what `Match` takes a pattern for, from
  `base/unix/src/win32impl.cpp`.

      matchString_eq        the pattern is changed while a block is looked for, and put back
      matchString_right_iff when the names that are accepted are those of the pattern

  Behind a `'*'` the search is over with the first place of the block that follows, letters
  compared with their case; and a `'?'` steps over the end of the name.
-/
import FreeAmp.Base.FindFile
import Mathlib.Data.List.Infix

namespace FreeAmp.Base.Search

open FreeAmp.Lib

/-! ## Patterns -/

section Glob

variable {α β : Type}

/-- What stands at a place of a pattern. -/
inductive Symbol (α : Type) where
  | many
  | any
  | char (c : α)

/-- The strings of a pattern; `same`: a character stands for another. -/
def Matches (same : α → β → Prop) : List (Symbol α) → List β → Prop
  | [], s => s = []
  | .many :: p, s => ∃ t ∈ s.tails, Matches same p t
  | .any :: _, [] => False
  | .any :: p, _ :: s => Matches same p s
  | .char _ :: _, [] => False
  | .char c :: p, d :: s => same c d ∧ Matches same p s

variable {same : α → β → Prop}

theorem matches_many_end (s : List β) : Matches same [.many] s :=
  ⟨[], (List.mem_tails _ _).mpr List.nil_suffix, rfl⟩

theorem matches_many_of_drop {p : List (Symbol α)} {s : List β} {k : Nat}
    (h : Matches same p (s.drop k)) : Matches same (.many :: p) s :=
  ⟨s.drop k, (List.mem_tails _ _).mpr (List.drop_suffix k s), h⟩

end Glob

/-- What a character of a pattern is. -/
def symbol (c : UInt8) : Symbol UInt8 :=
  if c = star then .many else if c = question then .any else .char c

/-- The names that a pattern is to match. -/
def InGlob (pattern string : Text) : Prop :=
  Matches (fun c d => toLower c = toLower d) (pattern.map symbol) string

/-! ## `Match`, in place -/

/-- `*p = c`, where `strchr` has found something. -/
def put (c : UInt8) (p : Option Nat) (s : Text) : Text :=
  match p with
  | some i => s.set i c
  | none => s

/-- The block that `strstr` looks for, and the pattern after it. -/
def cutBlock (ps1 : Text) : Text × Text :=
  let pS := ps1.findIdx? (· == star)
  let pQ := ps1.findIdx? (· == question)
  let cut := put 0 pQ (put 0 pS ps1)
  (cStr cut, put question pQ (put star pS cut))

theorem length_put (c : UInt8) (p : Option Nat) (s : Text) : (put c p s).length = s.length := by
  cases p with
  | none => rfl
  | some i => exact List.length_set

theorem length_cutBlock (ps1 : Text) : (cutBlock ps1).2.length = ps1.length := by
  unfold cutBlock
  simp only [length_put]

/-- `Match`: what it returns, and what it leaves of the pattern. -/
def matchString (ps1 ps2 : Text) : Except SearchFault (Bool × Text) :=
  match ps1 with
  | [] => .ok (ps2.isEmpty, [])
  | c :: ps1 =>
    if c = question then
      match ps2 with
      | [] => (beyondName ps1).map fun hit => (hit, c :: ps1)
      | _ :: ps2 => (matchString ps1 ps2).map fun r => (r.1, c :: r.2)
    else if c = star then
      if ps1 = [] then .ok (true, [c])
      else
        match firstPlace (cutBlock ps1).1 ps2 with
        | none => .ok (false, c :: (cutBlock ps1).2)
        | some pStr => (matchString (cutBlock ps1).2 (ps2.drop pStr)).map fun r => (r.1, c :: r.2)
    else
      match ps2 with
      | [] => .ok (false, c :: ps1)
      | d :: ps2 =>
        if toLower c = toLower d then (matchString ps1 ps2).map fun r => (r.1, c :: r.2)
        else .ok (false, c :: ps1)
termination_by ps1.length
decreasing_by all_goals simp [length_cutBlock]

theorem put_succ (c d : UInt8) (p : Option Nat) (s : Text) :
    put c (p.map (· + 1)) (d :: s) = d :: put c p s := by
  cases p <;> rfl

theorem put_back (c d : UInt8) (s : Text) :
    put c (s.findIdx? (· == c)) (put d (s.findIdx? (· == c)) s) = s := by
  induction s with
  | nil => rfl
  | cons e s ih =>
    rw [List.findIdx?_cons]
    by_cases he : e = c
    · rw [if_pos (beq_iff_eq.mpr he), he]
      rfl
    · rw [if_neg fun h => he (beq_iff_eq.mp h), put_succ, put_succ, ih]

theorem cutBlock_eq {ps1 : Text} (h : NulFree ps1) :
    cutBlock ps1 = (ps1.takeWhile fun c => !isWildcard c, ps1) := by
  induction ps1 with
  | nil => rfl
  | cons c s ih =>
    have hc : c ≠ 0 := fun hc => h (hc ▸ List.mem_cons_self)
    have hs : NulFree s := fun hs => h (List.mem_cons_of_mem c hs)
    have ih := ih hs
    unfold cutBlock at ih ⊢
    rw [List.findIdx?_cons, List.findIdx?_cons]
    by_cases hstar : c = star
    · have hquestion : ¬(c == question) = true := by rw [hstar]; decide
      rw [if_pos (beq_iff_eq.mpr hstar), if_neg hquestion, hstar]
      show (cStr (put 0 _ (0 :: s)), put question _ (put star (some 0) (put 0 _ (0 :: s)))) = _
      rw [put_succ]
      show (cStr (0 :: _), put question _ (star :: put 0 _ s)) = _
      rw [put_succ, put_back]
      rfl
    · by_cases hquestion : c = question
      · rw [if_neg fun h => hstar (beq_iff_eq.mp h), if_pos (beq_iff_eq.mpr hquestion),
          hquestion]
        show (cStr (put 0 (some 0) (put 0 _ (question :: s))),
          put question (some 0) (put star _ (put 0 (some 0) (put 0 _ (question :: s))))) = _
        rw [put_succ]
        show (cStr (0 :: _), put question (some 0) (put star _ (0 :: put 0 _ s))) = _
        rw [put_succ, put_back]
        rfl
      · have hkeep : (!isWildcard c) = true := by
          unfold isWildcard
          rw [beq_eq_false_iff_ne.mpr hstar, beq_eq_false_iff_ne.mpr hquestion]
          rfl
        rw [if_neg fun h => hstar (beq_iff_eq.mp h), if_neg fun h => hquestion (beq_iff_eq.mp h)]
        simp only [put_succ, cStr_cons hc, Prod.mk.injEq, List.cons.injEq, true_and] at ih ⊢
        rw [ih.1, ih.2]
        exact ⟨(List.takeWhile_cons_of_pos (p := fun c => !isWildcard c) hkeep).symm, rfl⟩

/-- In place it is the same, and the pattern is what it was. -/
theorem matchString_eq {pattern : Text} (h : NulFree pattern) (string : Text) :
    matchString pattern string = (matchPattern pattern string).map fun hit => (hit, pattern) := by
  induction pattern generalizing string with
  | nil => rw [matchString]; rfl
  | cons c pattern ih =>
    have ih := ih fun hpattern => h (List.mem_cons_of_mem c hpattern)
    have hcut := cutBlock_eq fun hpattern => h (List.mem_cons_of_mem c hpattern)
    have hmap : ∀ string, (matchString pattern string).map (fun r => (r.1, c :: r.2)) =
        (matchPattern pattern string).map fun hit => (hit, c :: pattern) := by
      intro string
      rw [ih]
      cases matchPattern pattern string <;> rfl
    unfold matchString matchPattern
    by_cases hquestion : c = question
    · rw [if_pos hquestion, if_pos hquestion]
      cases string with
      | nil => rfl
      | cons d string => exact hmap string
    rw [if_neg hquestion, if_neg hquestion]
    by_cases hstar : c = star
    · rw [if_pos hstar, if_pos hstar]
      by_cases hend : pattern = []
      · rw [if_pos hend, if_pos hend, hend]
        rfl
      rw [if_neg hend, if_neg hend, hcut]
      cases firstPlace (pattern.takeWhile fun c => !isWildcard c) string with
      | none => rfl
      | some k => exact hmap (string.drop k)
    rw [if_neg hstar, if_neg hstar]
    cases string with
    | nil => rfl
    | cons d string =>
      by_cases hsame : toLower c = toLower d
      · simp only [if_pos hsame]
        exact hmap string
      · simp only [if_neg hsame]
        rfl

/-! ## When the names are the right ones -/

/-- The scan steps over the end of the name in front of a last `'*'`. -/
def EndsEarly : Text → Text → Prop
  | [], _ => False
  | c :: pattern, string =>
    if c = question then
      match string with
      | [] => pattern.dropWhile (· == question) = [star]
      | _ :: string => EndsEarly pattern string
    else if c = star then
      match firstPlace (pattern.takeWhile fun c => !isWildcard c) string with
      | none => False
      | some k => EndsEarly pattern (string.drop k)
    else
      match string with
      | [] => False
      | d :: string => toLower c = toLower d ∧ EndsEarly pattern string

/-- No `'?'` comes to the end of the name, and where a `'*'` is not the last of the pattern, what
follows it is at the first place of its block, as soon as it is anywhere. -/
def Commits : Text → Text → Prop
  | [], _ => True
  | c :: pattern, string =>
    if c = question then
      match string with
      | [] => False
      | _ :: string => Commits pattern string
    else if c = star then
      if pattern = [] then True
      else
        match firstPlace (pattern.takeWhile fun c => !isWildcard c) string with
        | none => ¬ InGlob (c :: pattern) string
        | some k =>
          Commits pattern (string.drop k) ∧
              (InGlob (c :: pattern) string → InGlob pattern (string.drop k)) ∨
            EndsEarly pattern (string.drop k) ∧ InGlob (c :: pattern) string
    else
      match string with
      | [] => True
      | d :: string => toLower c = toLower d → Commits pattern string

section Glob

variable {pattern : Text}

theorem inGlob_question_nil : ¬ InGlob (question :: pattern) [] := id

theorem inGlob_question (d : UInt8) (string : Text) :
    InGlob (question :: pattern) (d :: string) ↔ InGlob pattern string := Iff.rfl

theorem inGlob_star_end (string : Text) : InGlob [star] string := matches_many_end string

theorem inGlob_star {string : Text} {k : Nat} (h : InGlob pattern (string.drop k)) :
    InGlob (star :: pattern) string := matches_many_of_drop h

theorem symbol_of_ne {c : UInt8} (hquestion : c ≠ question) (hstar : c ≠ star) :
    symbol c = .char c := by
  unfold symbol
  rw [if_neg hstar, if_neg hquestion]

theorem inGlob_char_nil {c : UInt8} (hquestion : c ≠ question) (hstar : c ≠ star) :
    ¬ InGlob (c :: pattern) [] := by
  unfold InGlob
  rw [List.map_cons, symbol_of_ne hquestion hstar]
  exact id

theorem inGlob_char {c : UInt8} (hquestion : c ≠ question) (hstar : c ≠ star) (d : UInt8)
    (string : Text) :
    InGlob (c :: pattern) (d :: string) ↔ toLower c = toLower d ∧ InGlob pattern string := by
  unfold InGlob
  rw [List.map_cons, symbol_of_ne hquestion hstar]
  exact Iff.rfl

end Glob

theorem matchPattern_of_endsEarly {pattern string : Text} (h : EndsEarly pattern string) :
    matchPattern pattern string = .ok true := by
  induction pattern generalizing string with
  | nil => exact h.elim
  | cons c pattern ih =>
    unfold EndsEarly at h
    unfold matchPattern
    by_cases hquestion : c = question
    · rw [if_pos hquestion] at h ⊢
      cases string with
      | nil => exact if_pos h
      | cons d string => exact ih h
    rw [if_neg hquestion] at h ⊢
    by_cases hstar : c = star
    · rw [if_pos hstar] at h ⊢
      by_cases hend : pattern = []
      · rw [if_pos hend]
      rw [if_neg hend]
      cases hplace : firstPlace (pattern.takeWhile fun c => !isWildcard c) string with
      | none =>
        rw [hplace] at h
        exact h.elim
      | some k =>
        rw [hplace] at h
        exact ih h
    rw [if_neg hstar] at h ⊢
    cases string with
    | nil => exact h.elim
    | cons d string =>
      dsimp only at h ⊢
      rw [if_pos h.1]
      exact ih h.2

/-- What is accepted is a name of the pattern, or one at the end of which the scan ends early. -/
theorem inGlob_of_matchPattern {pattern string : Text} (h : matchPattern pattern string = .ok true) :
    InGlob pattern string ∨ EndsEarly pattern string := by
  induction pattern generalizing string with
  | nil => exact .inl (List.isEmpty_iff.mp (Except.ok.inj h))
  | cons c pattern ih =>
    unfold matchPattern at h
    unfold EndsEarly
    by_cases hquestion : c = question
    · rw [if_pos hquestion] at h ⊢
      cases string with
      | nil =>
        dsimp only at h
        unfold beyondName at h
        split at h
        · rename_i hlast
          exact .inr hlast
        · cases h
      | cons d string =>
        rw [hquestion, inGlob_question]
        exact ih h
    rw [if_neg hquestion] at h ⊢
    by_cases hstar : c = star
    · rw [if_pos hstar] at h ⊢
      rw [hstar]
      by_cases hend : pattern = []
      · rw [hend]
        exact .inl (inGlob_star_end string)
      rw [if_neg hend] at h
      cases hplace : firstPlace (pattern.takeWhile fun c => !isWildcard c) string with
      | none =>
        rw [hplace] at h
        cases h
      | some k =>
        rw [hplace] at h
        exact (ih h).imp_left inGlob_star
    rw [if_neg hstar] at h ⊢
    cases string with
    | nil => cases h
    | cons d string =>
      dsimp only at h ⊢
      rw [inGlob_char hquestion hstar]
      split at h
      · rename_i hsame
        exact (ih h).imp (.intro hsame) (.intro hsame)
      · cases h

/-- The answer is the right one. -/
def Decides (pattern string : Text) : Prop :=
  ∃ hit, matchPattern pattern string = .ok hit ∧ (hit = true ↔ InGlob pattern string)

theorem decides_true {pattern string : Text} (h : matchPattern pattern string = .ok true) :
    Decides pattern string ↔ InGlob pattern string := by
  constructor
  · rintro ⟨hit, hhit, hiff⟩
    exact hiff.mp (Except.ok.inj (hhit.symm.trans h))
  · exact fun hglob => ⟨true, h, iff_of_true rfl hglob⟩

theorem decides_false {pattern string : Text} (h : matchPattern pattern string = .ok false) :
    Decides pattern string ↔ ¬ InGlob pattern string := by
  constructor
  · rintro ⟨hit, hhit, hiff⟩ hglob
    cases (hiff.mpr hglob).symm.trans (Except.ok.inj (hhit.symm.trans h))
  · exact fun hglob => ⟨false, h, iff_of_false Bool.false_ne_true hglob⟩

theorem not_decides_beyond {pattern : Text} : ¬ Decides (question :: pattern) [] := by
  rintro ⟨hit, hhit, hiff⟩
  have hbeyond : beyondName pattern = .ok hit := hhit
  unfold beyondName at hbeyond
  split at hbeyond
  · exact inGlob_question_nil (hiff.mp (Except.ok.inj hbeyond).symm)
  · cases hbeyond

/-- Where a `'*'` is not the last, the answer is that for the rest from the first place on. -/
theorem decides_star {pattern string : Text} {k : Nat} (hend : pattern ≠ [])
    (hplace : firstPlace (pattern.takeWhile fun c => !isWildcard c) string = some k) :
    Decides (star :: pattern) string ↔
      Decides pattern (string.drop k) ∧
          (InGlob (star :: pattern) string → InGlob pattern (string.drop k)) ∨
        EndsEarly pattern (string.drop k) ∧ InGlob (star :: pattern) string := by
  have hmatch : matchPattern (star :: pattern) string = matchPattern pattern (string.drop k) := by
    rw [matchPattern.eq_def]
    dsimp only
    rw [if_neg (by decide), if_pos rfl, if_neg hend, hplace]
  constructor
  · rintro ⟨hit, hhit, hiff⟩
    rw [hmatch] at hhit
    cases hit with
    | false =>
      have hnone : ¬ InGlob (star :: pattern) string := fun h => by cases hiff.mpr h
      refine .inl ⟨(decides_false hhit).mpr fun h => hnone (inGlob_star h), ?_⟩
      exact fun h => absurd h hnone
    | true =>
      have hglob := hiff.mp rfl
      rcases inGlob_of_matchPattern hhit with h | h
      · exact .inl ⟨(decides_true hhit).mpr h, fun _ => h⟩
      · exact .inr ⟨h, hglob⟩
  · rintro (⟨⟨hit, hhit, hiff⟩, hcommit⟩ | ⟨hearly, hglob⟩)
    · exact ⟨hit, hmatch.trans hhit, hiff.trans ⟨inGlob_star, hcommit⟩⟩
    · exact ⟨true, hmatch.trans (matchPattern_of_endsEarly hearly), iff_of_true rfl hglob⟩

theorem decides_iff (pattern string : Text) : Decides pattern string ↔ Commits pattern string := by
  induction pattern generalizing string with
  | nil =>
    refine iff_of_true ⟨string.isEmpty, rfl, ?_⟩ trivial
    exact List.isEmpty_iff
  | cons c pattern ih =>
    unfold Commits
    by_cases hquestion : c = question
    · rw [if_pos hquestion, hquestion]
      cases string with
      | nil => exact iff_of_false not_decides_beyond id
      | cons d string => exact ih string
    rw [if_neg hquestion]
    by_cases hstar : c = star
    · rw [if_pos hstar, hstar]
      by_cases hend : pattern = []
      · rw [if_pos hend, hend]
        exact iff_of_true ⟨true, rfl, iff_of_true rfl (inGlob_star_end string)⟩ trivial
      rw [if_neg hend]
      cases hplace : firstPlace (pattern.takeWhile fun c => !isWildcard c) string with
      | none =>
        have hfalse : matchPattern (star :: pattern) string = .ok false := by
          rw [matchPattern.eq_def]
          dsimp only
          rw [if_neg (by decide), if_pos rfl, if_neg hend, hplace]
        exact decides_false hfalse
      | some k =>
        rw [decides_star hend hplace, ih]
    rw [if_neg hstar]
    cases string with
    | nil =>
      have hfalse : matchPattern (c :: pattern) [] = .ok false := by
        rw [matchPattern.eq_def]
        dsimp only
        rw [if_neg hquestion, if_neg hstar]
      exact iff_of_true ((decides_false hfalse).mpr (inGlob_char_nil hquestion hstar)) trivial
    | cons d string =>
      by_cases hsame : toLower c = toLower d
      · have hmatch : matchPattern (c :: pattern) (d :: string) =
            matchPattern pattern string := by
          rw [matchPattern.eq_def]
          dsimp only
          rw [if_neg hquestion, if_neg hstar]
          exact if_pos hsame
        dsimp only
        rw [forall_prop_of_true hsame, ← ih]
        unfold Decides
        rw [hmatch, inGlob_char hquestion hstar, and_iff_right hsame]
      · have hfalse : matchPattern (c :: pattern) (d :: string) = .ok false := by
          rw [matchPattern.eq_def]
          dsimp only
          rw [if_neg hquestion, if_neg hstar]
          exact if_neg hsame
        refine iff_of_true ((decides_false hfalse).mpr fun h => ?_) fun h => absurd h hsame
        exact hsame ((inGlob_char hquestion hstar d string).mp h).1

/-- `Match` reads nothing behind the name, leaves the pattern what it was and accepts just the
names that the pattern is to match, when its scan is like this. -/
theorem matchString_right_iff {pattern : Text} (h : NulFree pattern) (string : Text) :
    (∃ hit, matchString pattern string = .ok (hit, pattern) ∧
      (hit = true ↔ InGlob pattern string)) ↔ Commits pattern string := by
  rw [← decides_iff, matchString_eq h]
  unfold Decides
  cases matchPattern pattern string with
  | error f => exact iff_of_false nofun nofun
  | ok b =>
    constructor
    · rintro ⟨hit, hhit, hiff⟩
      exact ⟨hit, congrArg Except.ok (Prod.mk.inj (Except.ok.inj hhit)).1, hiff⟩
    · rintro ⟨hit, hhit, hiff⟩
      exact ⟨hit, congrArg (fun b => Except.ok (b, pattern)) (Except.ok.inj hhit), hiff⟩

theorem commits_tail : Commits (bytes "*.mp3") (bytes "a.mp3") :=
  .inl ⟨fun _ _ _ _ => trivial, fun _ => ⟨by decide, by decide, by decide, by decide, rfl⟩⟩

/-- A name in which the block is where it ends. -/
theorem matchString_right_tail :
    ∃ hit, matchString (bytes "*.mp3") (bytes "a.mp3") = .ok (hit, bytes "*.mp3") ∧
      (hit = true ↔ InGlob (bytes "*.mp3") (bytes "a.mp3")) :=
  (matchString_right_iff (by decide) (bytes "a.mp3")).mpr commits_tail

/-- A name with the block before its end as well. -/
theorem matchString_right_fails : ¬ ∀ pattern string : Text, NulFree pattern →
    ∃ hit, matchString pattern string = .ok (hit, pattern) ∧
      (hit = true ↔ InGlob pattern string) := by
  intro hall
  obtain ⟨hit, hhit, hiff⟩ := hall (bytes "*.mp3") (bytes "a.mp3.mp3") (by decide)
  have hfalse : matchPattern (bytes "*.mp3") (bytes "a.mp3.mp3") = .ok false := by decide
  rw [matchString_eq (by decide), hfalse] at hhit
  have hglob : InGlob (star :: bytes ".mp3") (bytes "a.mp3.mp3") :=
    inGlob_star (k := 5) ⟨by decide, by decide, by decide, by decide, rfl⟩
  cases (hiff.mpr hglob).symm.trans (Prod.mk.inj (Except.ok.inj hhit)).1.symm

end FreeAmp.Base.Search
