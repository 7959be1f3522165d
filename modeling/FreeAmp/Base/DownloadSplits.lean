/-
  Base/DownloadSplits.lean --- how the calls of `recv` cut a response, and what
  `Download` stores of it, from `base/src/downloadmanager.cpp`.

  The response is a header up to its first terminator and a body.  What is stored does
  not depend on the cuts when

      Unspoilt         no byte behind what has come completes a terminator
      TerminatorFound  `strstr` finds the end of the header where it is
      ReadsOn          the bytes that are expected are not there before the last call

  and where the first of these holds the other two are needed.
-/
import FreeAmp.Base.DownloadResponse

namespace FreeAmp.Base

open FreeAmp.Lib

/-! ## The response -/

/-- A response up to its first terminator, with it, and what follows. -/
def splitResponse : Text → Option (Text × Text)
  | [] => none
  | c :: s =>
    match terminator (c :: s) with
    | some n => some ((c :: s).take n, (c :: s).drop n)
    | none => (splitResponse s).map fun r => (c :: r.1, r.2)

theorem splitResponse_of_terminator {c : UInt8} {s : Text} {n : Nat}
    (h : terminator (c :: s) = some n) :
    splitResponse (c :: s) = some ((c :: s).take n, (c :: s).drop n) := by
  rw [splitResponse, h]

theorem splitResponse_of_none {c : UInt8} {s : Text} (h : terminator (c :: s) = none) :
    splitResponse (c :: s) = (splitResponse s).map fun r => (c :: r.1, r.2) := by
  rw [splitResponse, h]

theorem splitResponse_cons {c : UInt8} {s head body : Text} (hterm : terminator (c :: s) = none)
    (h : splitResponse (c :: s) = some (head, body)) :
    ∃ head', head = c :: head' ∧ splitResponse s = some (head', body) := by
  rw [splitResponse_of_none hterm, Option.map_eq_some_iff] at h
  obtain ⟨⟨head', body'⟩, hsplit, heq⟩ := h
  obtain ⟨rfl, rfl⟩ := Prod.mk.inj heq
  exact ⟨head', rfl, hsplit⟩

theorem terminator_cases {s : Text} {n : Nat} (h : terminator s = some n) :
    (n = 2 ∧ bytes "\n\n" <+: s) ∨ (n = 4 ∧ bytes "\r\n\r\n" <+: s) := by
  unfold terminator at h
  split at h
  · rename_i hlf
    exact .inl ⟨(Option.some.inj h).symm, hlf⟩
  · split at h
    · rename_i hcrlf
      exact .inr ⟨(Option.some.inj h).symm, hcrlf⟩
    · exact absurd h nofun

theorem terminator_none {s : Text} (h : terminator s = none) :
    ¬ bytes "\n\n" <+: s ∧ ¬ bytes "\r\n\r\n" <+: s := by
  unfold terminator at h
  split at h
  · exact absurd h nofun
  · rename_i hlf
    split at h
    · exact absurd h nofun
    · rename_i hcrlf
      exact ⟨hlf, hcrlf⟩

theorem terminator_length {s : Text} {n : Nat} (h : terminator s = some n) :
    0 < n ∧ n ≤ s.length := by
  rcases terminator_cases h with ⟨rfl, hlf⟩ | ⟨rfl, hcrlf⟩
  · exact ⟨by decide, hlf.length_le⟩
  · exact ⟨by decide, hcrlf.length_le⟩

/-- A terminator that has come is one whatever comes next. -/
theorem terminator_append {s : Text} {n : Nat} (h : terminator s = some n) (t : Text) :
    terminator (s ++ t) = some n := by
  rcases terminator_cases h with ⟨rfl, hlf⟩ | ⟨rfl, hcrlf⟩
  · unfold terminator
    rw [if_pos (hlf.trans (List.prefix_append s t))]
  · have hlf : ¬ bytes "\n\n" <+: s ++ t := by
      obtain ⟨u, rfl⟩ := hcrlf
      rintro ⟨v, hv⟩
      exact absurd (List.cons.inj hv).1 (by decide)
    unfold terminator
    rw [if_neg hlf, if_pos (hcrlf.trans (List.prefix_append s t))]

/-- Where a terminator ends within what has come, it has come. -/
theorem terminator_of_append {s t : Text} {n : Nat} (h : terminator (s ++ t) = some n)
    (hn : n ≤ s.length) : terminator s = some n := by
  rcases terminator_cases h with ⟨rfl, hlf⟩ | ⟨rfl, hcrlf⟩
  · have hs : bytes "\n\n" <+: s := List.prefix_of_prefix_length_le hlf (List.prefix_append s t) hn
    unfold terminator
    rw [if_pos hs]
  · have hs : bytes "\r\n\r\n" <+: s :=
      List.prefix_of_prefix_length_le hcrlf (List.prefix_append s t) hn
    have hlf : ¬ bytes "\n\n" <+: s := by
      obtain ⟨u, rfl⟩ := hs
      rintro ⟨v, hv⟩
      exact absurd (List.cons.inj hv).1 (by decide)
    unfold terminator
    rw [if_neg hlf, if_pos hs]

theorem splitResponse_append_eq : ∀ {s head body : Text},
    splitResponse s = some (head, body) → s = head ++ body := by
  intro s
  induction s with
  | nil => intro head body h; exact absurd h nofun
  | cons c s ih =>
    intro head body h
    cases hterm : terminator (c :: s) with
    | some n =>
      rw [splitResponse_of_terminator hterm] at h
      obtain ⟨rfl, rfl⟩ := Prod.mk.inj (Option.some.inj h)
      exact (List.take_append_drop n (c :: s)).symm
    | none =>
      obtain ⟨head', rfl, hsplit⟩ := splitResponse_cons hterm h
      rw [ih hsplit]
      rfl

/-- What is known of the start of a response: the header is the same as of the whole. -/
theorem splitResponse_of_append : ∀ {s t head body : Text},
    splitResponse (s ++ t) = some (head, body) → head.length ≤ s.length →
      splitResponse s = some (head, s.drop head.length) := by
  intro s
  induction s with
  | nil =>
    intro t head body h hlen
    have hhead : head = [] := List.length_eq_zero_iff.mp (Nat.le_zero.mp hlen)
    cases t with
    | nil => exact absurd h nofun
    | cons c t =>
      rw [List.nil_append] at h
      cases hterm : terminator (c :: t) with
      | some n =>
        rw [splitResponse_of_terminator hterm] at h
        have heq := (Prod.mk.inj (Option.some.inj h)).1
        have hpos := (terminator_length hterm).1
        rw [hhead, List.take_eq_nil_iff] at heq
        rcases heq with rfl | hnil
        · exact absurd hpos (Nat.lt_irrefl 0)
        · exact absurd hnil nofun
      | none =>
        obtain ⟨head', heq, -⟩ := splitResponse_cons hterm h
        rw [hhead] at heq
        exact absurd heq nofun
  | cons c s ih =>
    intro t head body h hlen
    rw [List.cons_append] at h
    cases hterm : terminator (c :: (s ++ t)) with
    | some n =>
      rw [splitResponse_of_terminator hterm] at h
      obtain ⟨rfl, rfl⟩ := Prod.mk.inj (Option.some.inj h)
      have hle := (terminator_length hterm).2
      rw [List.length_take_of_le hle] at hlen ⊢
      have hs : terminator (c :: s) = some n := terminator_of_append (t := t) hterm hlen
      rw [splitResponse_of_terminator hs, ← List.cons_append,
        List.take_append_of_le_length hlen]
    | none =>
      obtain ⟨head', rfl, hsplit⟩ := splitResponse_cons hterm h
      have hs : terminator (c :: s) = none := by
        cases hs : terminator (c :: s) with
        | none => rfl
        | some n =>
          have happ := terminator_append hs t
          rw [List.cons_append, hterm] at happ
          exact absurd happ nofun
      rw [splitResponse_of_none hs, ih hsplit (Nat.le_of_succ_le_succ hlen)]
      rfl

theorem complete_of_splitResponse : ∀ {s head body : Text} (behind : Text),
    splitResponse s = some (head, body) → isHTTPHeaderComplete s behind = true := by
  intro s
  induction s with
  | nil => intro head body behind h; exact absurd h nofun
  | cons c s ih =>
    intro head body behind h
    rw [isHTTPHeaderComplete, Bool.or_eq_true]
    cases hterm : terminator (c :: s) with
    | some n =>
      left
      rw [terminator_append hterm]
      rfl
    | none =>
      right
      obtain ⟨head', -, hsplit⟩ := splitResponse_cons hterm h
      exact ih behind hsplit

/-- A terminator that is cut off where what has come ends has no other one in it. -/
theorem splitResponse_of_cut {c : UInt8} {s t : Text} {n : Nat}
    (h : terminator (c :: (s ++ t)) = some n) (hcut : (c :: s).length < n) :
    splitResponse s = none := by
  rcases terminator_cases h with ⟨rfl, -⟩ | ⟨rfl, u, hu⟩
  · cases s with
    | nil => rfl
    | cons d s =>
      simp only [List.length_cons] at hcut
      omega
  · have hs : s ++ t = [10, 13, 10] ++ u := (List.cons.inj hu).2.symm
    have hshort : s.length ≤ 2 := by
      rw [List.length_cons] at hcut
      omega
    have hprefix : s <+: [10, 13] ++ (10 :: u) := ⟨t, hs⟩
    have htake : s = [10, 13].take s.length := by
      have heq := List.prefix_iff_eq_take.mp hprefix
      rwa [List.take_append_of_le_length (by simpa using hshort)] at heq
    have hlen : s.length = 0 ∨ s.length = 1 ∨ s.length = 2 := by omega
    rcases hlen with hlen | hlen | hlen <;> rw [hlen] at htake <;> rw [htake] <;> rfl

/-- A header that has come is the header whatever comes next. -/
theorem splitResponse_append : ∀ {s head body : Text}, splitResponse s = some (head, body) →
    ∀ t, splitResponse (s ++ t) = some (head, body ++ t) := by
  intro s
  induction s with
  | nil => intro head body h; exact absurd h nofun
  | cons c s ih =>
    intro head body h t
    cases hterm : terminator (c :: s) with
    | some n =>
      have happ := terminator_append hterm t
      have hlen := (terminator_length hterm).2
      rw [splitResponse_of_terminator hterm] at h
      obtain ⟨rfl, rfl⟩ := Prod.mk.inj (Option.some.inj h)
      rw [List.cons_append] at happ ⊢
      rw [splitResponse_of_terminator happ, ← List.cons_append,
        List.take_append_of_le_length hlen, List.drop_append_of_le_length hlen]
    | none =>
      obtain ⟨head', rfl, hsplit⟩ := splitResponse_cons hterm h
      have hnone : terminator (c :: (s ++ t)) = none := by
        cases hsome : terminator (c :: (s ++ t)) with
        | none => rfl
        | some n =>
          by_cases hcut : (c :: s).length < n
          · rw [splitResponse_of_cut hsome hcut] at hsplit
            exact absurd hsplit nofun
          · have hs := terminator_of_append (s := c :: s) (t := t) hsome (by omega)
            rw [hterm] at hs
            exact absurd hs nofun
      rw [List.cons_append, splitResponse_of_none hnone, ih hsplit t]
      rfl

/-- What has come is seen to be complete when it has a header. -/
theorem complete_iff_splitResponse (s : Text) :
    isHTTPHeaderComplete s [] = true ↔ ∃ head body, splitResponse s = some (head, body) := by
  constructor
  · induction s with
    | nil => nofun
    | cons c s ih =>
      intro h
      rw [isHTTPHeaderComplete, List.append_nil, Bool.or_eq_true] at h
      cases hterm : terminator (c :: s) with
      | some n => exact ⟨_, _, splitResponse_of_terminator hterm⟩
      | none =>
        rw [hterm] at h
        obtain ⟨head, body, hsplit⟩ := ih (h.resolve_left (by simp))
        exact ⟨c :: head, body, by rw [splitResponse_of_none hterm, hsplit]; rfl⟩
  · rintro ⟨head, body, h⟩
    exact complete_of_splitResponse [] h

/-- The first `n` bytes are complete when they reach the end of the header. -/
theorem complete_take_iff (s : Text) (n : Nat) :
    isHTTPHeaderComplete (s.take n) [] = true ↔
      ∃ head body, splitResponse s = some (head, body) ∧ head.length ≤ n := by
  rw [complete_iff_splitResponse]
  constructor
  · rintro ⟨head, body, h⟩
    have happ := splitResponse_append h (s.drop n)
    have hlen := congrArg List.length (splitResponse_append_eq h)
    rw [List.take_append_drop] at happ
    rw [List.length_append] at hlen
    have hle := List.length_take_le n s
    exact ⟨head, _, happ, by omega⟩
  · rintro ⟨head, body, h, hn⟩
    have hlen := congrArg List.length (splitResponse_append_eq h)
    rw [List.length_append] at hlen
    have hwhole : splitResponse (s.take n ++ s.drop n) = some (head, body) := by
      rwa [List.take_append_drop]
    refine ⟨head, _, splitResponse_of_append hwhole ?_⟩
    rw [List.length_take]
    omega

theorem splitResponse_suffix : ∀ {s head body : Text},
    splitResponse s = some (head, body) →
      bytes "\n\n" <:+ head ∨ bytes "\r\n\r\n" <:+ head := by
  intro s
  induction s with
  | nil => intro head body h; exact absurd h nofun
  | cons c s ih =>
    intro head body h
    cases hterm : terminator (c :: s) with
    | some n =>
      rw [splitResponse_of_terminator hterm] at h
      obtain ⟨rfl, -⟩ := Prod.mk.inj (Option.some.inj h)
      rcases terminator_cases hterm with ⟨rfl, hlf⟩ | ⟨rfl, hcrlf⟩
      · left
        rw [show (c :: s).take 2 = bytes "\n\n" from (List.prefix_iff_eq_take.mp hlf).symm]
      · right
        rw [show (c :: s).take 4 = bytes "\r\n\r\n" from (List.prefix_iff_eq_take.mp hcrlf).symm]
    | none =>
      obtain ⟨head', rfl, hsplit⟩ := splitResponse_cons hterm h
      rcases ih hsplit with hlf | hcrlf
      · exact .inl (hlf.trans (List.suffix_cons c head'))
      · exact .inr (hcrlf.trans (List.suffix_cons c head'))

/-! ## Looking for the terminator again -/

theorem prefix_cStr_iff {p : Text} (hp : NulFree p) (s : Text) : p <+: cStr s ↔ p <+: s := by
  apply prefix_takeWhile_iff
  intro c hc
  have hne : c ≠ 0 := fun h0 => hp (h0 ▸ hc)
  simpa using hne

/-- A pattern without NUL is looked for behind the first character when it is not there. -/
theorem firstPlace_cStr_cons {p s : Text} {c : UInt8} (hp : NulFree p) (hc : c ≠ 0)
    (h : ¬ p <+: c :: s) : firstPlace p (cStr (c :: s)) = (firstPlace p (cStr s)).map (· + 1) := by
  rw [cStr_cons hc]
  apply firstPlace_cons_later
  rwa [← cStr_cons hc, prefix_cStr_iff hp]

theorem firstPlace_cStr_here {p s : Text} {c : UInt8} (hp : NulFree p) (hne : p ≠ [])
    (h : p <+: c :: s) : firstPlace p (cStr (c :: s)) = some 0 := by
  have hc : c ≠ 0 := by
    rintro rfl
    cases p with
    | nil => exact hne rfl
    | cons d p =>
      obtain ⟨t, ht⟩ := h
      exact hp ((List.cons.inj ht).1 ▸ List.mem_cons_self)
  have h' : p <+: c :: cStr s := by rwa [← cStr_cons hc, prefix_cStr_iff hp]
  rw [cStr_cons hc, firstPlace_cons_here h']

theorem nulFree_lf : NulFree (bytes "\n\n") := by decide

theorem nulFree_crlf : NulFree (bytes "\r\n\r\n") := by decide

/-- `"\n\n"` is not found before the end of a `"\r\n\r\n"` that the string begins with. -/
theorem firstPlace_lf_after_crlf {s : Text} (h : bytes "\r\n\r\n" <+: s) {k : Nat}
    (hk : firstPlace (bytes "\n\n") (cStr s) = some k) : 4 < k + 2 := by
  obtain ⟨t, rfl⟩ := h
  have hcut : firstPlace (bytes "\n\n") (cStr (bytes "\r\n\r\n" ++ t)) =
      (((firstPlace (bytes "\n\n") (10 :: cStr t)).map (· + 1)).map (· + 1)).map (· + 1) := by
    show firstPlace (bytes "\n\n") (13 :: 10 :: 13 :: 10 :: cStr t) = _
    have hne : (10 : UInt8) ≠ 13 := by decide
    rw [firstPlace_cons_later (fun ⟨u, hu⟩ => hne (List.cons.inj hu).1),
      firstPlace_cons_later (fun ⟨u, hu⟩ => hne (List.cons.inj (List.cons.inj hu).2).1),
      firstPlace_cons_later (fun ⟨u, hu⟩ => hne (List.cons.inj hu).1)]
  rw [hcut, Option.map_map, Option.map_map, Option.map_eq_some_iff] at hk
  obtain ⟨j, -, rfl⟩ := hk
  simp only [Function.comp]
  omega

/-- Where `strstr` finds the terminators when the header has no NUL. -/
theorem firstPlace_of_splitResponse : ∀ {s head body : Text},
    splitResponse s = some (head, body) → NulFree head →
      (bytes "\n\n" <:+ head ∧
        ∃ k, firstPlace (bytes "\n\n") (cStr s) = some k ∧ k + 2 = head.length) ∨
      (¬ bytes "\n\n" <:+ head ∧
        (∃ k, firstPlace (bytes "\r\n\r\n") (cStr s) = some k ∧ k + 4 = head.length) ∧
        ∀ k, firstPlace (bytes "\n\n") (cStr s) = some k → head.length < k + 2) := by
  intro s
  induction s with
  | nil => intro head body h; exact absurd h nofun
  | cons c s ih =>
    intro head body h hnul
    cases hterm : terminator (c :: s) with
    | some n =>
      rw [splitResponse_of_terminator hterm] at h
      obtain ⟨rfl, -⟩ := Prod.mk.inj (Option.some.inj h)
      rcases terminator_cases hterm with ⟨rfl, hlf⟩ | ⟨rfl, hcrlf⟩
      · left
        rw [show (c :: s).take 2 = bytes "\n\n" from (List.prefix_iff_eq_take.mp hlf).symm]
        exact ⟨List.suffix_refl _, 0, firstPlace_cStr_here nulFree_lf nofun hlf, rfl⟩
      · right
        rw [show (c :: s).take 4 = bytes "\r\n\r\n" from
          (List.prefix_iff_eq_take.mp hcrlf).symm]
        refine ⟨by decide, ⟨0, firstPlace_cStr_here nulFree_crlf nofun hcrlf, rfl⟩, ?_⟩
        intro k hk
        exact firstPlace_lf_after_crlf hcrlf hk
    | none =>
      obtain ⟨head', rfl, hsplit⟩ := splitResponse_cons hterm h
      have hc : c ≠ 0 := fun h0 => hnul (h0 ▸ List.mem_cons_self)
      have hnul' : NulFree head' := fun h0 => hnul (List.mem_cons_of_mem c h0)
      obtain ⟨hlf, hcrlf⟩ := terminator_none hterm
      have hlfs := firstPlace_cStr_cons nulFree_lf hc hlf
      have hcrlfs := firstPlace_cStr_cons nulFree_crlf hc hcrlf
      rcases ih hsplit hnul' with ⟨hend, k, hk, hlen⟩ | ⟨hend, ⟨k, hk, hlen⟩, hlate⟩
      · left
        refine ⟨hend.trans (List.suffix_cons c head'), k + 1, ?_, ?_⟩
        · rw [hlfs, hk]
          rfl
        · rw [List.length_cons]
          omega
      · right
        refine ⟨?_, ⟨k + 1, ?_, ?_⟩, ?_⟩
        · intro hsuffix
          rcases List.suffix_cons_iff.mp hsuffix with heq | hsuffix
          · have hlen' := congrArg List.length heq
            rw [List.length_cons] at hlen'
            have htwo : (bytes "\n\n").length = 2 := rfl
            omega
          · exact hend hsuffix
        · rw [hcrlfs, hk]
          rfl
        · rw [List.length_cons]
          omega
        · intro j hj
          rw [hlfs, Option.map_eq_some_iff] at hj
          obtain ⟨j', hj', rfl⟩ := hj
          have hlate' := hlate j' hj'
          rw [List.length_cons]
          omega

/-- With a NUL in the header `strstr` finds neither terminator. -/
theorem firstPlace_of_nul : ∀ {s head body : Text},
    splitResponse s = some (head, body) → ¬ NulFree head →
      firstPlace (bytes "\n\n") (cStr s) = none ∧
        firstPlace (bytes "\r\n\r\n") (cStr s) = none := by
  intro s
  induction s with
  | nil => intro head body h; exact absurd h nofun
  | cons c s ih =>
    intro head body h hnul
    cases hterm : terminator (c :: s) with
    | some n =>
      rw [splitResponse_of_terminator hterm] at h
      obtain ⟨rfl, -⟩ := Prod.mk.inj (Option.some.inj h)
      exfalso
      apply hnul
      rcases terminator_cases hterm with ⟨rfl, hlf⟩ | ⟨rfl, hcrlf⟩
      · rw [show (c :: s).take 2 = bytes "\n\n" from (List.prefix_iff_eq_take.mp hlf).symm]
        exact nulFree_lf
      · rw [show (c :: s).take 4 = bytes "\r\n\r\n" from
          (List.prefix_iff_eq_take.mp hcrlf).symm]
        exact nulFree_crlf
    | none =>
      obtain ⟨head', rfl, hsplit⟩ := splitResponse_cons hterm h
      obtain ⟨hlf, hcrlf⟩ := terminator_none hterm
      by_cases hc : c = 0
      · subst hc
        rw [cStr_cons_zero]
        exact ⟨rfl, rfl⟩
      · have hnul' : ¬ NulFree head' := fun h' => hnul (h'.cons hc)
        obtain ⟨h₁, h₂⟩ := ih hsplit hnul'
        rw [firstPlace_cStr_cons nulFree_lf hc hlf, firstPlace_cStr_cons nulFree_crlf hc hcrlf,
          h₁, h₂]
        exact ⟨rfl, rfl⟩

/-- `"\r\n\r\n"` is not found to end before the header does. -/
theorem firstPlace_crlf_late : ∀ {s head body : Text} {k : Nat},
    splitResponse s = some (head, body) → firstPlace (bytes "\r\n\r\n") (cStr s) = some k →
      head.length ≤ k + 4 := by
  intro s
  induction s with
  | nil => intro head body k h; exact absurd h nofun
  | cons c s ih =>
    intro head body k h hk
    cases hterm : terminator (c :: s) with
    | some n =>
      rw [splitResponse_of_terminator hterm] at h
      obtain ⟨rfl, -⟩ := Prod.mk.inj (Option.some.inj h)
      have hle := List.length_take_le n (c :: s)
      have hn := terminator_cases hterm
      omega
    | none =>
      obtain ⟨head', rfl, hsplit⟩ := splitResponse_cons hterm h
      by_cases hc : c = 0
      · subst hc
        rw [cStr_cons_zero] at hk
        exact absurd hk nofun
      · rw [firstPlace_cStr_cons nulFree_crlf hc (terminator_none hterm).2,
          Option.map_eq_some_iff] at hk
        obtain ⟨k', hk', rfl⟩ := hk
        have hlate := ih hsplit hk'
        rw [List.length_cons]
        omega

/-- It is found where the header ends when the header is ended by it and has no NUL. -/
theorem firstPlace_crlf_iff {s head body : Text} (h : splitResponse s = some (head, body)) :
    (∃ k, firstPlace (bytes "\r\n\r\n") (cStr s) = some k ∧ k + 4 = head.length) ↔
      bytes "\r\n\r\n" <:+ head ∧ NulFree head := by
  constructor
  · rintro ⟨k, hk, hlen⟩
    constructor
    · have hcStr : cStr s <+: s := List.takeWhile_prefix _
      have hplace : bytes "\r\n\r\n" <+: s.drop k := (firstPlace_spec hk).trans (hcStr.drop k)
      have hfour : (bytes "\r\n\r\n").length = 4 := by simp [bytes]
      rw [splitResponse_append_eq h, List.drop_append_of_le_length (by omega)] at hplace
      have hcut := List.prefix_of_prefix_length_le hplace
        (List.prefix_append (head.drop k) body) (by rw [List.length_drop]; omega)
      have heq := hcut.eq_of_length (by rw [List.length_drop]; omega)
      rw [heq]
      exact List.drop_suffix k head
    · by_contra hnul
      rw [(firstPlace_of_nul h hnul).2] at hk
      exact absurd hk nofun
  · rintro ⟨hend, hnul⟩
    rcases firstPlace_of_splitResponse h hnul with ⟨hlf, -⟩ | ⟨-, hfound, -⟩
    · have hboth := List.suffix_of_suffix_length_le hlf hend (by simp [bytes])
      exact absurd hboth (by decide)
    · exact hfound

/-- `strstr` leads to the end of the header: nothing has come behind it, or the header has
no NUL and no `"\n\n"` is found in its place. -/
def TerminatorFound (came : Header) (head : Text) : Prop :=
  came.bytes = head ∨
    (NulFree head ∧ (bytes "\n\n" <:+ head ∨ ¬ bytes "\n\n" <:+: cStr came.bytes))

instance (came : Header) (head : Text) : Decidable (TerminatorFound came head) := by
  unfold TerminatorFound
  infer_instance

theorem strstr_buffer (header : Header) (pattern : String) :
    strstr header.buffer pattern = firstPlace (bytes pattern) (cStr header.bytes) := by
  unfold strstr Header.buffer
  rw [cStr_append_nul]

/-- What is taken for the body is never more than the body. -/
theorem leftover_length {came : Header} {head : Text}
    (h : splitResponse came.bytes = some (head, came.bytes.drop head.length)) :
    came.leftover.length ≤ came.bytes.length - head.length := by
  have hle : head.length ≤ came.bytes.length := by
    rw [splitResponse_append_eq h, List.length_append]
    exact Nat.le_add_right _ _
  unfold Header.leftover
  rw [strstr_buffer, strstr_buffer]
  by_cases hnul : NulFree head
  · rcases firstPlace_of_splitResponse h hnul with ⟨-, k, hk, hlen⟩ | ⟨-, ⟨k, hk, hlen⟩, hlate⟩
    · rw [hk]
      simp only [List.length_drop]
      omega
    · cases hlf : firstPlace (bytes "\n\n") (cStr came.bytes) with
      | some j =>
        have hj := hlate j hlf
        simp only [List.length_drop]
        omega
      | none =>
        rw [hk]
        simp only [List.length_drop]
        omega
  · obtain ⟨h₁, h₂⟩ := firstPlace_of_nul h hnul
    rw [h₁, h₂]
    exact Nat.zero_le _

/-- What is taken for the body is what came behind the header, when the terminator is
found and only then. -/
theorem leftover_eq_iff {came : Header} {head : Text}
    (h : splitResponse came.bytes = some (head, came.bytes.drop head.length)) :
    came.leftover = came.bytes.drop head.length ↔ TerminatorFound came head := by
  have happ := splitResponse_append_eq h
  have hnone : came.bytes = head ↔ came.bytes.drop head.length = [] := by
    constructor
    · intro heq
      rw [heq, List.drop_length]
    · intro hnil
      rw [hnil, List.append_nil] at happ
      exact happ
  have hle : head.length ≤ came.bytes.length := by
    rw [happ, List.length_append]
    exact Nat.le_add_right _ _
  have hwhole : came.bytes = head → came.leftover = came.bytes.drop head.length := by
    intro heq
    have hlen := leftover_length h
    rw [heq, Nat.sub_self] at hlen
    rw [hnone.mp heq]
    exact List.length_eq_zero_iff.mp (Nat.le_zero.mp hlen)
  by_cases heq : came.bytes = head
  · exact ⟨fun _ => .inl heq, fun _ => hwhole heq⟩
  · have hrest : came.bytes.drop head.length ≠ [] := fun hnil => heq (hnone.mpr hnil)
    have hpos : 0 < came.bytes.length - head.length := by
      rw [← List.length_drop]
      exact List.length_pos_iff.mpr hrest
    unfold TerminatorFound Header.leftover
    rw [strstr_buffer, strstr_buffer, ← firstPlace_eq_none_iff]
    by_cases hnul : NulFree head
    · rcases firstPlace_of_splitResponse h hnul with ⟨hend, k, hk, hlen⟩ | ⟨hend, ⟨k, hk, hlen⟩, hlate⟩
      · have hdrop : came.bytes.drop (k + 2) = came.bytes.drop head.length := by rw [hlen]
        rw [hk]
        simp only [hdrop, hnul, hend]
        simp
      · cases hlf : firstPlace (bytes "\n\n") (cStr came.bytes) with
        | some j =>
          have hj := hlate j hlf
          constructor
          · intro hdrop
            have hlen' := congrArg List.length hdrop
            simp only [List.length_drop] at hlen'
            omega
          · rintro (hsame | ⟨-, hbad | hbad⟩)
            · exact absurd hsame heq
            · exact absurd hbad hend
            · exact absurd hbad (Option.some_ne_none j)
        | none =>
          have hdrop : came.bytes.drop (k + 4) = came.bytes.drop head.length := by rw [hlen]
          rw [hk]
          simp only [hdrop, hnul]
          simp
    · obtain ⟨h₁, h₂⟩ := firstPlace_of_nul h hnul
      rw [h₁, h₂]
      constructor
      · intro hdrop
        exact absurd hdrop.symm hrest
      · rintro (hsame | ⟨hnul', -⟩)
        · exact absurd hsame heq
        · exact absurd hnul' hnul

/-! ## Receiving the header -/

/-- What has come when `n` bytes have, and the calls of `recv` that are left. -/
def arrive (n : Nat) (got : Text) : List Chunk → Header × List Chunk
  | [] => (⟨got, []⟩, [])
  | chunk :: chunks =>
    if n ≤ (got ++ chunk.bytes).length then (⟨got ++ chunk.bytes, chunk.behind⟩, chunks)
    else arrive n (got ++ chunk.bytes) chunks

theorem arrive_spec {n : Nat} : ∀ {chunks : List Chunk} {got : Text},
    n ≤ (got ++ received chunks).length →
      (arrive n got chunks).1.bytes ++ received (arrive n got chunks).2 = got ++ received chunks ∧
        n ≤ (arrive n got chunks).1.bytes.length := by
  intro chunks
  induction chunks with
  | nil =>
    intro got hn
    rw [received_nil, List.append_nil] at hn
    exact ⟨rfl, hn⟩
  | cons chunk chunks ih =>
    intro got hn
    rw [received_cons, ← List.append_assoc] at hn ⊢
    rw [arrive]
    split
    · rename_i hcome
      exact ⟨rfl, hcome⟩
    · exact ih hn

/-- Where fewer than `n` bytes of the header have come, what stands behind them in the
buffer does not complete a terminator. -/
def Unspoilt (n : Nat) (got : Text) (chunks : List Chunk) : Prop :=
  ∀ read chunk unread, chunks = read ++ chunk :: unread →
    (got ++ received (read ++ [chunk])).length < n →
      isHTTPHeaderComplete (got ++ received (read ++ [chunk])) chunk.behind = false

theorem Unspoilt.tail {n : Nat} {got : Text} {chunk : Chunk} {chunks : List Chunk}
    (h : Unspoilt n got (chunk :: chunks)) : Unspoilt n (got ++ chunk.bytes) chunks := by
  intro read next unread heq hlen
  have hnext := h (chunk :: read) next unread (by rw [heq]; rfl)
  rw [List.cons_append, received_cons, ← List.append_assoc] at hnext
  exact hnext hlen

/-- There is room as long as fewer than `2^31 - 1` bytes have come. -/
theorem HeaderBuffer.grow_of_lt (buffer : HeaderBuffer)
    (h : buffer.bytes.length < 2147483647) :
    ∃ size, buffer.grow = some ⟨size, buffer.bytes⟩ := by
  unfold HeaderBuffer.grow
  split
  · rename_i hfull
    split
    · rename_i hwrap
      exfalso
      have hwrap' := congrArg UInt32.toNat hwrap
      rw [UInt32.toNat_mul] at hwrap'
      rw [UInt32.toNat_sub] at hfull
      have htwo : (2 : UInt32).toNat = 2 := rfl
      have hone : (1 : UInt32).toNat = 1 := rfl
      have hzero : (0 : UInt32).toNat = 0 := rfl
      rw [htwo, hzero] at hwrap'
      rw [hone] at hfull
      omega
    · exact ⟨buffer.bufferSize * 2, rfl⟩
  · exact ⟨buffer.bufferSize, rfl⟩

/-- The loop ends with the call that brings the end of the header. -/
theorem receiveHeader_eq {head : Text} (hshort : head.length < 2147483648) :
    ∀ {chunks : List Chunk} {buffer : HeaderBuffer} {body : Text},
      splitResponse (buffer.bytes ++ received chunks) = some (head, body) →
        buffer.bytes.length < head.length → Unspoilt head.length buffer.bytes chunks →
          receiveHeader buffer chunks = .ok (arrive head.length buffer.bytes chunks) := by
  intro chunks
  induction chunks with
  | nil =>
    intro buffer body hsplit hlen _
    rw [received_nil, List.append_nil] at hsplit
    rw [splitResponse_append_eq hsplit, List.length_append] at hlen
    omega
  | cons chunk chunks ih =>
    intro buffer body hsplit hlen hclean
    obtain ⟨size, hgrow⟩ := buffer.grow_of_lt (by omega)
    rw [receiveHeader, hgrow, arrive]
    dsimp only
    rw [received_cons, ← List.append_assoc] at hsplit
    by_cases hcome : head.length ≤ (buffer.bytes ++ chunk.bytes).length
    · have hhead := splitResponse_of_append hsplit hcome
      rw [if_pos (complete_of_splitResponse chunk.behind hhead), if_pos hcome]
    · have hfirst := hclean [] chunk chunks rfl
      rw [List.nil_append, received_cons, received_nil, List.append_nil] at hfirst
      rw [hfirst (by omega), if_neg (by simp), if_neg hcome]
      exact ih hsplit (Nat.lt_of_not_le hcome) hclean.tail

/-! ## Receiving the body -/

theorem DownloadItem.receive_append (item : DownloadItem) (data data' : Text) :
    item.receive (data ++ data') = (item.receive data).receive data' := by
  unfold DownloadItem.receive
  rw [List.length_append, UInt32.ofNat_add]
  congr 1
  rw [← UInt32.add_assoc, UInt32.add_comm (UInt32.ofNat data'.length)]

/-- Before each call but the first there are bytes missing. -/
def ReadsOn (item : DownloadItem) (chunks : List Chunk) : Prop :=
  ∀ read unread, chunks = read ++ unread → read ≠ [] → unread ≠ [] →
    (item.receive (received read)).unfinished = true

/-- The loop stores some of the calls of `recv`, from the first on. -/
theorem receiveBody_file (failed : Bool) : ∀ (chunks : List Chunk) (item : DownloadItem)
    (file : Text), ∃ read unread, chunks = read ++ unread ∧
      (receiveBody failed item file chunks).file = some (file ++ received read) := by
  intro chunks
  induction chunks with
  | nil =>
    intro item file
    exact ⟨[], [], rfl, by rw [received_nil, List.append_nil]; rfl⟩
  | cons chunk chunks ih =>
    intro item file
    rw [receiveBody]
    split
    · obtain ⟨read, unread, heq, hfile⟩ := ih (item.receive chunk.bytes) (file ++ chunk.bytes)
      refine ⟨chunk :: read, unread, by rw [heq]; rfl, ?_⟩
      rw [hfile, received_cons, List.append_assoc]
    · exact ⟨[chunk], chunks, rfl, by rw [received_cons, received_nil, List.append_nil]⟩

/-- The loop stores all of them when bytes are missing before each, and only then. -/
theorem receiveBody_all_iff (failed : Bool) : ∀ (chunks : List Chunk) (item : DownloadItem)
    (file : Text), (receiveBody failed item file chunks).file = some (file ++ received chunks) ↔
      ReadsOn item chunks := by
  intro chunks
  induction chunks with
  | nil =>
    intro item file
    constructor
    · intro _ read unread heq hread _
      exact absurd (List.append_eq_nil_iff.mp heq.symm).1 hread
    · intro _
      rw [received_nil, List.append_nil]
      rfl
  | cons chunk chunks ih =>
    intro item file
    rw [receiveBody, received_cons, ← List.append_assoc]
    by_cases hmore : (item.receive chunk.bytes).unfinished = true
    · rw [if_pos hmore, ih]
      constructor
      · intro hreads read unread heq hread hunread
        cases read with
        | nil => exact absurd rfl hread
        | cons first read =>
          obtain ⟨rfl, htail⟩ := List.cons.inj heq
          rw [received_cons, DownloadItem.receive_append]
          by_cases hnil : read = []
          · rw [hnil]
            unfold DownloadItem.receive DownloadItem.unfinished at hmore ⊢
            simpa using hmore
          · exact hreads read unread htail hnil hunread
      · intro hreads read unread heq hread hunread
        have hcut := hreads (chunk :: read) unread (by rw [heq]; rfl) nofun hunread
        rwa [received_cons, DownloadItem.receive_append] at hcut
    · rw [if_neg hmore]
      constructor
      · intro hall
        have hnil : received chunks = [] := by
          have h := List.append_cancel_left ((List.append_nil _).trans (Option.some.inj hall))
          exact h.symm
        have hchunks : chunks = [] := by
          cases hc : chunks with
          | nil => rfl
          | cons c cs => exact absurd hnil (received_ne_nil (by rw [hc]; nofun))
        intro read unread heq hread hunread
        rw [hchunks] at heq
        cases read with
        | nil => exact absurd rfl hread
        | cons first read =>
          have htail := (List.cons.inj heq).2
          exact absurd (List.append_eq_nil_iff.mp htail.symm).2 hunread
      · intro hreads
        cases hc : chunks with
        | nil => rw [received_nil, List.append_nil]
        | cons c cs =>
          exfalso
          apply hmore
          have hcut := hreads [chunk] chunks rfl nofun (by rw [hc]; nofun)
          rwa [received_cons, received_nil, List.append_nil] at hcut

/-! ## What is stored -/

/-- There is something to download, and the request for it is sent. -/
structure Connected (prefs : DownloadPrefs) (attempt : Attempt) (item : DownloadItem)
    (file : Option Text) : Prop where
  fresh : alreadyThere item file = false
  source : sourceError prefs item.src = none
  reached : attempt.unreachable = none
  sent : attempt.sent = true
  memory : attempt.memory = true

instance (prefs : DownloadPrefs) (attempt : Attempt) (item : DownloadItem)
    (file : Option Text) : Decidable (Connected prefs attempt item file) :=
  decidable_of_iff (alreadyThere item file = false ∧ sourceError prefs item.src = none ∧
      attempt.unreachable = none ∧ attempt.sent = true ∧ attempt.memory = true)
    ⟨fun ⟨h₁, h₂, h₃, h₄, h₅⟩ => ⟨h₁, h₂, h₃, h₄, h₅⟩,
      fun ⟨h₁, h₂, h₃, h₄, h₅⟩ => ⟨h₁, h₂, h₃, h₄, h₅⟩⟩

/-- The request is sent, and the file can be opened when the response comes. -/
structure Requested (prefs : DownloadPrefs) (attempt : Attempt) (item : DownloadItem)
    (file : Option Text) : Prop extends Connected prefs attempt item file where
  opened : attempt.opened = .ok ()

/-- The header is received as it was sent. -/
structure HeaderReceived (head : Text) (chunks : List Chunk) : Prop where
  short : head.length < 2147483648
  unspoilt : Unspoilt head.length [] chunks

/-- The class of the status is 1 or 2. -/
def Stores (head : Text) : Prop := head[9]? = some 49 ∨ head[9]? = some 50

theorem reachHeader_eq {prefs : DownloadPrefs} {attempt : Attempt} {item : DownloadItem}
    {file : Option Text} (h : Connected prefs attempt item file) :
    reachHeader prefs attempt item file =
      match receiveHeader .new attempt.chunks with
      | .error result => .error ⟨result, item.request file, file⟩
      | .ok (header, rest) => .ok (item.request file, header, rest) := by
  unfold reachHeader
  rw [h.fresh, h.source, h.reached, h.sent, h.memory]
  rfl

theorem statusClass_eq {header : Header} {head : Text} {c : UInt8} (h : head <+: header.bytes)
    (hc : head[9]? = some c) : header.statusClass = some c := by
  obtain ⟨t, ht⟩ := h
  obtain ⟨hlt, -⟩ := List.getElem?_eq_some_iff.mp hc
  unfold Header.statusClass Header.buffer
  rw [← ht, List.append_assoc, List.getElem?_append_left hlt, hc]

/-- So is the return code, as the header ends with a line feed. -/
theorem returnCode_eq {header : Header} {head : Text} {c : UInt8} (h : head <+: header.bytes)
    (hc : head[9]? = some c) (hdigit : isDigit c = true) (hend : head.getLast? = some 10) :
    header.returnCode = (Header.mk head []).returnCode := by
  obtain ⟨t, ht⟩ := h
  obtain ⟨hlt, hget⟩ := List.getElem?_eq_some_iff.mp hc
  have hdrop : head.drop 9 = c :: head.drop 10 := by
    rw [List.drop_eq_getElem_cons hlt, hget]
  have hmem : (10 : UInt8) ∈ head.drop 10 := by
    have hlast : (head.drop 9).getLast? = some 10 := by
      rw [List.getLast?_drop, if_neg (Nat.not_le_of_lt hlt), hend]
    rw [hdrop] at hlast
    rcases List.mem_cons.mp (List.mem_of_getLast? hlast) with rfl | hmem
    · exact absurd hdigit (by decide)
    · exact hmem
  have hread := atoi_append hdigit hmem (by decide)
  unfold Header.returnCode
  dsimp only
  rw [← ht, List.append_nil, List.append_assoc, List.drop_append_of_le_length (Nat.le_of_lt hlt),
    hdrop, hread]

theorem splitResponse_getLast {s head body : Text} (h : splitResponse s = some (head, body)) :
    head.getLast? = some 10 := by
  rcases splitResponse_suffix h with ⟨t, rfl⟩ | ⟨t, rfl⟩
  · rw [List.getLast?_append]
    rfl
  · rw [List.getLast?_append]
    rfl

/-- What has come when the header has: the header and the first of the body. -/
theorem arrive_splitResponse {chunks rest : List Chunk} {head body : Text} {came : Header}
    (hsplit : splitResponse (received chunks) = some (head, body))
    (harrive : arrive head.length [] chunks = (came, rest)) :
    splitResponse came.bytes = some (head, came.bytes.drop head.length) ∧
      came.bytes ++ received rest = head ++ body := by
  have hall := splitResponse_append_eq hsplit
  have hle : head.length ≤ ([] ++ received chunks).length := by
    rw [List.nil_append, hall, List.length_append]
    exact Nat.le_add_right _ _
  obtain ⟨harrived, hcome⟩ := arrive_spec hle
  rw [List.nil_append, harrive] at harrived
  rw [harrive] at hcome
  dsimp only at harrived hcome
  rw [← harrived] at hsplit
  exact ⟨splitResponse_of_append hsplit hcome, by rw [harrived, hall]⟩

theorem reachHeader_received {prefs : DownloadPrefs} {attempt : Attempt} {item : DownloadItem}
    {file : Option Text} {head body : Text} {came : Header} {rest : List Chunk}
    (hconnected : Connected prefs attempt item file)
    (hsplit : splitResponse (received attempt.chunks) = some (head, body))
    (harrive : arrive head.length [] attempt.chunks = (came, rest))
    (hheader : HeaderReceived head attempt.chunks) :
    reachHeader prefs attempt item file = .ok (item.request file, came, rest) := by
  have hpos : (HeaderBuffer.new).bytes.length < head.length := by
    cases head with
    | nil => exact absurd (splitResponse_getLast hsplit) nofun
    | cons c head => exact Nat.succ_pos _
  have hreceive : receiveHeader .new attempt.chunks =
      .ok (arrive head.length HeaderBuffer.new.bytes attempt.chunks) :=
    receiveHeader_eq hheader.short hsplit hpos hheader.unspoilt
  rw [reachHeader_eq hconnected, hreceive]
  show Except.ok (_, _, _) = _
  rw [show arrive head.length HeaderBuffer.new.bytes attempt.chunks = (came, rest) from harrive]

/-- The answer to a response of which the class of the status is 1 or 2. -/
theorem answer_store {item : DownloadItem} {file : Option Text} {came : Header}
    (hclass : came.statusClass = some 49 ∨ came.statusClass = some 50)
    (opened : Except Errno Unit) : answer opened item file came = store opened item file came := by
  unfold answer
  rcases hclass with h | h
  · rw [h]
    rfl
  · rw [h]
    rfl

/-- What `Download` comes to when the header has come and the class of the status is 1
or 2. -/
theorem download_store {prefs : DownloadPrefs} {attempt : Attempt} (attempts : List Attempt)
    {item : DownloadItem} {file : Option Text} {head body : Text} {came : Header}
    {rest : List Chunk} (hrequested : Requested prefs attempt item file)
    (hsplit : splitResponse (received attempt.chunks) = some (head, body)) (hclass : Stores head)
    (harrive : arrive head.length [] attempt.chunks = (came, rest))
    (hheader : HeaderReceived head attempt.chunks) :
    openedFile came file = openedFile ⟨head, []⟩ file ∧
    download prefs (attempt :: attempts) item file =
      some (receiveBody attempt.failed
        (((item.request file).accept came).receive came.leftover)
        (openedFile came file ++ came.leftover) rest) := by
  obtain ⟨hcut, -⟩ := arrive_splitResponse hsplit harrive
  have hprefix : head <+: came.bytes := ⟨_, (splitResponse_append_eq hcut).symm⟩
  constructor
  · unfold openedFile
    rcases hclass with hc | hc
    · rw [returnCode_eq hprefix hc (by decide) (splitResponse_getLast hcut)]
    · rw [returnCode_eq hprefix hc (by decide) (splitResponse_getLast hcut)]
  · have hstatus : came.statusClass = some 49 ∨ came.statusClass = some 50 :=
      hclass.imp (statusClass_eq hprefix) (statusClass_eq hprefix)
    have honce : downloadOnce prefs attempt item file =
        .ok (receiveBody attempt.failed
          (((item.request file).accept came).receive came.leftover)
          (openedFile came file ++ came.leftover) rest) := by
      unfold downloadOnce
      rw [reachHeader_received hrequested.toConnected hsplit harrive hheader]
      dsimp only
      rw [answer_store hstatus, hrequested.opened]
      rfl
    rw [download, honce]

/-- The file holds the body, and before it what a partial response was asked to go on from. -/
def StoresBody (prefs : DownloadPrefs) (attempts : List Attempt) (item : DownloadItem)
    (file : Option Text) (head body : Text) : Prop :=
  (download prefs attempts item file).map Downloaded.file =
    some (some (openedFile ⟨head, []⟩ file ++ body))

/-- The item when what has come with the header is stored. -/
def bodyItem (item : DownloadItem) (file : Option Text) (head : Text) (came : Header) :
    DownloadItem :=
  ((item.request file).accept came).receive (came.bytes.drop head.length)

/-- `Download` stores the body, however the response is cut, when the header is received
as it was sent, its end is found again and bytes are missing before each further call of
`recv`; where the header is received as it was sent, only then. -/
theorem download_storesBody_iff (prefs : DownloadPrefs) (attempt : Attempt)
    (attempts : List Attempt) (item : DownloadItem) (file : Option Text) (head body : Text)
    (came : Header) (rest : List Chunk) (hrequested : Requested prefs attempt item file)
    (hsplit : splitResponse (received attempt.chunks) = some (head, body)) (hclass : Stores head)
    (harrive : arrive head.length [] attempt.chunks = (came, rest)) :
    (HeaderReceived head attempt.chunks ∧ TerminatorFound came head ∧
        ReadsOn (bodyItem item file head came) rest →
      StoresBody prefs (attempt :: attempts) item file head body) ∧
    (HeaderReceived head attempt.chunks →
      StoresBody prefs (attempt :: attempts) item file head body →
        TerminatorFound came head ∧ ReadsOn (bodyItem item file head came) rest) := by
  have key : HeaderReceived head attempt.chunks →
      (StoresBody prefs (attempt :: attempts) item file head body ↔
        TerminatorFound came head ∧ ReadsOn (bodyItem item file head came) rest) := by
    intro hheader
    obtain ⟨hcut, hall⟩ := arrive_splitResponse hsplit harrive
    obtain ⟨hopened, hdownload⟩ := download_store attempts hrequested hsplit hclass harrive hheader
    have hbody : body = came.bytes.drop head.length ++ received rest := by
      have happ := splitResponse_append_eq hcut
      rw [happ, List.append_assoc] at hall
      exact (List.append_cancel_left hall).symm
    unfold StoresBody
    rw [hdownload, Option.map_some, Option.some.injEq, ← hopened, hbody, ← List.append_assoc]
    by_cases hfound : TerminatorFound came head
    · have hleft : came.leftover = came.bytes.drop head.length :=
        (leftover_eq_iff hcut).mpr hfound
      rw [hleft, receiveBody_all_iff]
      exact ⟨fun h => ⟨hfound, h⟩, fun h => h.2⟩
    · constructor
      · intro hfile
        exfalso
        obtain ⟨read, unread, hchunks, hread⟩ := receiveBody_file attempt.failed rest
          (((item.request file).accept came).receive came.leftover)
          (openedFile came file ++ came.leftover)
        rw [hread, hchunks, received_append, Option.some.injEq] at hfile
        have hshort := leftover_length hcut
        have hlen := congrArg List.length hfile
        simp only [List.length_append, List.length_drop] at hlen
        -- as much is taken for the body as came behind the header, so it is the same
        have hsame : came.leftover.length = (came.bytes.drop head.length).length := by
          rw [List.length_drop]
          omega
        apply hfound
        apply (leftover_eq_iff hcut).mp
        rw [List.append_assoc, List.append_assoc] at hfile
        exact (List.append_inj (List.append_cancel_left hfile) hsame).1
      · intro h
        exact absurd h.1 hfound
  exact ⟨fun ⟨hheader, h⟩ => (key hheader).mpr h, fun hheader h => (key hheader).mp h⟩

instance (prefs : DownloadPrefs) (attempts : List Attempt) (item : DownloadItem)
    (file : Option Text) (head body : Text) :
    Decidable (StoresBody prefs attempts item file head body) :=
  inferInstanceAs (Decidable (_ = _))

/-- An attempt that gets a connection on which these calls of `recv` return. -/
def Attempt.ofChunks (chunks : List Chunk) : Attempt :=
  ⟨none, true, true, chunks, false, .ok ()⟩

/-- A file that is about to be downloaded. -/
def DownloadItem.ofSource (src : Text) : DownloadItem :=
  { DownloadItem.new with src := src, dest := bytes "f", state := .downloading }

/-- A header with the length of a body of six bytes. -/
def sixBytesHead : Text := bytes "HTTP/1.1 200 OK\r\nContent-Length: 6\r\n\r\n"

theorem download_storesBody_cut :
    StoresBody ⟨false, []⟩
      [.ofChunks [⟨sixBytesHead, [], by decide⟩, ⟨bytes "ab\n\ncd", [], by decide⟩]]
      (.ofSource (bytes "http://h/f")) none sixBytesHead (bytes "ab\n\ncd") := by
  refine (download_storesBody_iff ⟨false, []⟩
    (.ofChunks [⟨sixBytesHead, [], by decide⟩, ⟨bytes "ab\n\ncd", [], by decide⟩]) []
    (.ofSource (bytes "http://h/f")) none sixBytesHead (bytes "ab\n\ncd")
    ⟨sixBytesHead, []⟩ [⟨bytes "ab\n\ncd", [], by decide⟩]
    ⟨by decide, rfl⟩ (by decide) (.inr (by decide))
    (by decide)).1 ⟨⟨by decide, ?_⟩, .inl rfl, ?_⟩
  · intro read chunk unread heq hlen
    exfalso
    cases read with
    | nil =>
      rw [← (List.cons.inj heq).1] at hlen
      exact absurd hlen (by decide)
    | cons first read =>
      rw [List.cons_append, ← (List.cons.inj heq).1, received_cons, List.nil_append,
        List.length_append] at hlen
      dsimp only at hlen
      omega
  · intro read unread heq hread hunread
    cases read with
    | nil => exact absurd rfl hread
    | cons first read =>
      exact absurd (List.append_eq_nil_iff.mp (List.cons.inj heq).2.symm).2 hunread

/-- Of the same response in one call of `recv`, what stands before the blank line in the
body is lost; and of a response without a length, all that comes after the first call of
`recv` that brings nothing but body. -/
theorem download_storesBody_fails :
    (splitResponse (sixBytesHead ++ bytes "ab\n\ncd") = some (sixBytesHead, bytes "ab\n\ncd") ∧
      ¬ StoresBody ⟨false, []⟩
        [.ofChunks [⟨sixBytesHead ++ bytes "ab\n\ncd", [], by decide⟩]]
        (.ofSource (bytes "http://h/f")) none sixBytesHead (bytes "ab\n\ncd")) ∧
    (splitResponse (bytes "HTTP/1.1 200 OK\r\n\r\n" ++ (bytes "ab" ++ bytes "cd")) =
        some (bytes "HTTP/1.1 200 OK\r\n\r\n", bytes "abcd") ∧
      ¬ StoresBody ⟨false, []⟩
        [.ofChunks [⟨bytes "HTTP/1.1 200 OK\r\n\r\n", [], by decide⟩, ⟨bytes "ab", [], by decide⟩,
          ⟨bytes "cd", [], by decide⟩]]
        (.ofSource (bytes "http://h/f")) none (bytes "HTTP/1.1 200 OK\r\n\r\n")
        (bytes "abcd")) := by
  decide

end FreeAmp.Base
