/-
  Io/OpenHeader.lean --- when `HttpInput::Open` returns from a server that closes the
  connection.

  The loop over the header looks for its end with `strstr`, and in nothing else: it does not
  look at what `recv` has returned unless that is negative, and `strstr` looks for the end up
  to a NUL, wherever what has come ends.

      stateAt_succ         the state behind so many calls of `recv`
      right_iff            when `Open` does what it should
      headerReceived_iff   the condition, where NULs stand behind what has come
-/
import FreeAmp.Base.DownloadSplits
import FreeAmp.Io.HttpInputRun

namespace FreeAmp.Io

open FreeAmp.Lib FreeAmp.Base

/-! ## Looking in what has come -/

section Patterns

variable {p : String} {s : Text} {k : Nat}

theorem cStr_prefix_append (s t : Text) : cStr s <+: cStr (s ++ t) := by
  induction s with
  | nil => exact List.nil_prefix
  | cons c s ih =>
    by_cases hc : c = 0
    · subst hc
      exact List.prefix_rfl
    · rw [List.cons_append, cStr_cons hc, cStr_cons hc]
      exact List.prefix_cons_inj c |>.mpr ih

theorem strstr_more (h : strstr s p = some k) (t : Text) : strstr (s ++ t) p = some k := by
  obtain ⟨u, hu⟩ := cStr_prefix_append s t
  unfold strstr at h ⊢
  rw [← hu]
  exact firstPlace_append h u

theorem strstr_less {t : Text} (h : strstr (s ++ t) p = none) : strstr s p = none := by
  cases hfind : strstr s p with
  | none => rfl
  | some k =>
    rw [strstr_more hfind t] at h
    cases h

/-- What is found inside is found without what follows. -/
theorem strstr_inside {t : Text} (hp : bytes p ≠ []) (hnul : NulFree (bytes p))
    (h : strstr (s ++ t) p = some k) (hle : k + (bytes p).length ≤ s.length) :
    strstr s p = some k := by
  cases hfind : strstr s p with
  | some k' =>
    have hmore := strstr_more hfind t
    rw [h] at hmore
    exact hmore.symm
  | none =>
    exfalso
    unfold strstr at h hfind
    refine firstPlace_eq_none_iff.mp hfind ?_
    obtain ⟨v, hv⟩ := firstPlace_spec h
    have htake : (cStr (s ++ t)).take (k + (bytes p).length) <+: cStr s := by
      have hfree : NulFree ((cStr (s ++ t)).take (k + (bytes p).length)) :=
        (nulFree_cStr (s ++ t)).of_subset (List.take_subset _ _)
      have hfront : (cStr (s ++ t)).take (k + (bytes p).length) <+: s ++ t :=
        (List.take_prefix _ _).trans (List.takeWhile_prefix _)
      rw [prefix_cStr_iff hfree]
      refine List.prefix_of_prefix_length_le hfront (List.prefix_append s t) ?_
      rw [List.length_take]
      omega
    have hinfix : bytes p <:+: (cStr (s ++ t)).take (k + (bytes p).length) := by
      rw [List.take_add, ← hv, List.take_left]
      exact List.suffix_append _ _ |>.isInfix
    exact hinfix.trans htake.isInfix

end Patterns

/-! ## The header that is taken -/

theorem crlf_ne : bytes "\r\n\r\n" ≠ [] ∧ NulFree (bytes "\r\n\r\n") := by decide

theorem lf_ne : bytes "\n\n" ≠ [] ∧ NulFree (bytes "\n\n") := by decide

/-- The header that is taken ends in what has come. -/
def TakenInside (buffer behind : Text) : Prop :=
  ∀ header leftover, splitHeader buffer behind = some (header, leftover) →
    header.length < buffer.length

/-- The end that is looked for stands in what has come, and what follows has no other that is
looked for before it. -/
def EndsInside (buffer behind : Text) : Prop :=
  (strstr buffer "\r\n\r\n").isSome = true ∨
    (strstr buffer "\n\n").isSome = true ∧ strstr (buffer ++ behind) "\r\n\r\n" = none

theorem splitHeader_crlf {buffer behind : Text} {pEnd : Nat}
    (h : strstr (buffer ++ behind) "\r\n\r\n" = some pEnd) :
    splitHeader buffer behind = some ((buffer ++ behind).take (pEnd + 3), buffer.drop (pEnd + 4)) ∧
      ((buffer ++ behind).take (pEnd + 3)).length = pEnd + 3 := by
  have hlength := strstr_length crlf_ne.1 h
  have hfour : (bytes "\r\n\r\n").length = 4 := by decide
  refine ⟨by unfold splitHeader; rw [h], ?_⟩
  rw [List.length_take]
  omega

theorem splitHeader_lf {buffer behind : Text} {pEnd : Nat}
    (hnone : strstr (buffer ++ behind) "\r\n\r\n" = none)
    (h : strstr (buffer ++ behind) "\n\n" = some pEnd) :
    splitHeader buffer behind = some ((buffer ++ behind).take (pEnd + 1), buffer.drop (pEnd + 2)) ∧
      ((buffer ++ behind).take (pEnd + 1)).length = pEnd + 1 := by
  have hlength := strstr_length lf_ne.1 h
  have htwo : (bytes "\n\n").length = 2 := by decide
  refine ⟨by unfold splitHeader; rw [hnone, h], ?_⟩
  rw [List.length_take]
  omega

/-- A header is taken, from what has come, just when its end is there. -/
theorem endsInside_iff (buffer behind : Text) :
    EndsInside buffer behind ↔
      splitHeader buffer behind ≠ none ∧ TakenInside buffer behind := by
  have hfour : (bytes "\r\n\r\n").length = 4 := by decide
  have htwo : (bytes "\n\n").length = 2 := by decide
  unfold EndsInside TakenInside
  cases hcrlf : strstr (buffer ++ behind) "\r\n\r\n" with
  | some pEnd =>
    obtain ⟨hsplit, hlength⟩ := splitHeader_crlf hcrlf
    rw [hsplit]
    constructor
    · rintro (hsome | ⟨-, hnone⟩)
      · obtain ⟨k, hk⟩ := Option.isSome_iff_exists.mp hsome
        have hsame := strstr_more hk behind
        rw [hcrlf] at hsame
        cases hsame
        have hle := strstr_length crlf_ne.1 hk
        refine ⟨Option.some_ne_none _, fun header leftover heq => ?_⟩
        cases heq
        omega
      · cases hnone
    · rintro ⟨-, hinside⟩
      have hlt := hinside _ _ rfl
      exact .inl (by rw [strstr_inside crlf_ne.1 crlf_ne.2 hcrlf (by omega)]; rfl)
  | none =>
    rw [strstr_less hcrlf]
    cases hlf : strstr (buffer ++ behind) "\n\n" with
    | none =>
      have hsplit : splitHeader buffer behind = none := by
        unfold splitHeader
        rw [hcrlf, hlf]
      rw [hsplit, strstr_less hlf]
      simp
    | some pEnd =>
      obtain ⟨hsplit, hlength⟩ := splitHeader_lf hcrlf hlf
      rw [hsplit]
      constructor
      · rintro (hsome | ⟨hsome, -⟩)
        · cases hsome
        · obtain ⟨k, hk⟩ := Option.isSome_iff_exists.mp hsome
          have hsame := strstr_more hk behind
          rw [hlf] at hsame
          cases hsame
          have hle := strstr_length lf_ne.1 hk
          refine ⟨Option.some_ne_none _, fun header leftover heq => ?_⟩
          cases heq
          omega
      · rintro ⟨-, hinside⟩
        have hlt := hinside _ _ rfl
        exact .inr ⟨by rw [strstr_inside lf_ne.1 lf_ne.2 hlf (by omega)]; rfl, rfl⟩

/-! ## A server that closes the connection -/

/-- What the server sends, and what `Open` finds in its memory. -/
structure Served where
  /-- what `recv` brings before it returns 0 -/
  chunks : List Text
  comes : ∀ c ∈ chunks, c ≠ [] ∧ c.length ≤ 1024
  /-- what stands in `pInitialBuffer` behind what the first `recv` brings -/
  initial : Text
  /-- what stands in `pHeaderData` behind what has come, after each `recv` -/
  memory : Nat → Text
  /-- the stream can be saved -/
  saved : Bool
  numBlocks : Int

/-- `Open` has not returned. -/
def HttpInput.opening (s : HttpInput) : Bool :=
  match s.place with
  | .first => true
  | .header _ => true
  | _ => false

namespace Served

variable (r : Served)

/-- What a call of `recv` comes to. -/
def recvAt (n : Nat) : Recv :=
  match r.chunks[n]? with
  | some c => .data c
  | none => .closed

def event (n : Nat) : InputEvent := .recv (r.recvAt n) r.initial (r.memory n) r.saved

/-- What has come, behind the `recv` with this number. -/
def buffer (n : Nat) : Text := (r.chunks.take (n + 1)).flatten

/-- All that comes. -/
def sent : Text := r.chunks.flatten

/-- The state before the `recv` with this number, as long as `Open` calls it. -/
def stateAt : Nat → HttpInput
  | 0 => HttpInput.start r.numBlocks
  | n + 1 =>
    let s := stateAt n
    if s.opening then (s.next (r.event n)).getD s else s

/-- What `Open` makes of the first line. -/
def status : Option Int := statusCode (cStr (r.buffer 0 ++ r.initial))

/-- No end of the header has been found up to the `recv` with this number. -/
def Unfinished (n : Nat) : Prop := ∀ m ≤ n, splitHeader (r.buffer m) (r.memory m) = none

variable {r} {n : Nat} {s : HttpInput}

theorem buffer_zero : r.buffer 0 = (r.recvAt 0).bytes := by
  unfold buffer recvAt
  cases r.chunks with
  | nil => rfl
  | cons c chunks => exact List.append_nil c

theorem buffer_succ (n : Nat) : r.buffer (n + 1) = r.buffer n ++ (r.recvAt (n + 1)).bytes := by
  unfold buffer recvAt
  rw [List.take_add_one, List.flatten_append]
  cases r.chunks[n + 1]? with
  | none => rfl
  | some c => exact congrArg _ (List.append_nil c)

theorem recvAt_isError (n : Nat) : (r.recvAt n).isError = false := by
  unfold recvAt
  cases r.chunks[n]? <;> rfl

theorem comes_recvAt (hasked : s.asked = some 1024) (hclosed : s.closed = true → r.chunks.length ≤ n) :
    s.comes (r.recvAt n) = true := by
  have hsize : (UInt32.ofInt 1024).toNat = 1024 := by decide
  unfold HttpInput.comes recvAt
  rw [hasked]
  cases hchunk : r.chunks[n]? with
  | none => rfl
  | some c =>
    obtain ⟨hlt, rfl⟩ := List.getElem?_eq_some_iff.mp hchunk
    obtain ⟨hne, hle⟩ := r.comes _ (List.getElem_mem hlt)
    have hopen : s.closed = false := Bool.eq_false_iff.mpr fun h => absurd (hclosed h) (by omega)
    simp [hopen, hne, hsize, hle]

theorem next_event (hasked : s.asked = some 1024)
    (hclosed : s.closed = true → r.chunks.length ≤ n) :
    s.next (r.event n) = some { s.receive (r.recvAt n) r.initial (r.memory n) r.saved with
      received := s.received ++ (r.recvAt n).bytes
      closed := s.closed || r.recvAt n == .closed } := by
  unfold HttpInput.next event
  exact if_pos (comes_recvAt hasked hclosed)

/-! ## The rounds -/

theorem parse_cases (s : HttpInput) (buffer behind : Text) (saved : Bool) :
    (splitHeader buffer behind = none ∧ (s.parse buffer behind saved).place = .header buffer ∧
        (s.parse buffer behind saved).closed = s.closed) ∨
      (splitHeader buffer behind ≠ none ∧ (s.parse buffer behind saved).opening = false) := by
  unfold HttpInput.parse
  cases splitHeader buffer behind with
  | none => exact .inl ⟨rfl, rfl, rfl⟩
  | some found =>
    refine .inr ⟨Option.some_ne_none _, ?_⟩
    obtain ⟨header, leftover⟩ := found
    unfold HttpInput.opened HttpInput.opening
    dsimp only
    split_ifs <;> rfl

theorem unfinished_zero : r.Unfinished 0 ↔ splitHeader (r.buffer 0) (r.memory 0) = none := by
  unfold Unfinished
  simp only [Nat.le_zero]
  exact forall_eq

theorem unfinished_succ :
    r.Unfinished (n + 1) ↔
      r.Unfinished n ∧ splitHeader (r.buffer (n + 1)) (r.memory (n + 1)) = none := by
  constructor
  · exact fun h => ⟨fun m hm => h m (Nat.le_succ_of_le hm), h _ (Nat.le_refl _)⟩
  · rintro ⟨hbefore, hlast⟩ m hm
    rcases Nat.lt_or_eq_of_le hm with hlt | rfl
    · exact hbefore m (Nat.le_of_lt_succ hlt)
    · exact hlast

/-- The loop is at a place with what has come, and data are still to come unless it is closed. -/
structure Looping (r : Served) (n : Nat) (s : HttpInput) : Prop where
  place : s.place = .header (r.buffer n)
  closed : s.closed = true → r.chunks.length ≤ n + 1

theorem Looping.opening (h : Looping r n s) : s.opening = true := by
  unfold HttpInput.opening
  rw [h.place]

theorem Looping.asked (h : Looping r n s) : s.asked = some 1024 := by
  unfold HttpInput.asked
  rw [h.place]

theorem closed_next (hclosed : s.closed = true → r.chunks.length ≤ n)
    (h : (s.closed || r.recvAt n == .closed) = true) : r.chunks.length ≤ n + 1 := by
  rcases Bool.or_eq_true_iff.mp h with hbefore | hnow
  · exact Nat.le_succ_of_le (hclosed hbefore)
  · unfold recvAt at hnow
    cases hchunk : r.chunks[n]? with
    | none => exact Nat.le_succ_of_le (List.getElem?_eq_none_iff.mp hchunk)
    | some c =>
      rw [hchunk] at hnow
      simp at hnow

theorem stateAt_succ_of_opening (hopening : (r.stateAt n).opening = true)
    (hasked : (r.stateAt n).asked = some 1024)
    (hclosed : (r.stateAt n).closed = true → r.chunks.length ≤ n) :
    r.stateAt (n + 1) =
      { (r.stateAt n).receive (r.recvAt n) r.initial (r.memory n) r.saved with
        received := (r.stateAt n).received ++ (r.recvAt n).bytes
        closed := (r.stateAt n).closed || r.recvAt n == .closed } := by
  rw [stateAt]
  dsimp only
  rw [if_pos hopening, next_event hasked hclosed, Option.getD_some]

theorem stateAt_one :
    match r.status with
    | none => (r.stateAt 1).place = .poll
    | some code =>
      if code = 200 then
        r.Unfinished 0 ∧ Looping r 0 (r.stateAt 1) ∨
          ¬ r.Unfinished 0 ∧ (r.stateAt 1).opening = false
      else (r.stateAt 1).place = .ended := by
  have hone := stateAt_succ_of_opening (r := r) (n := 0) rfl rfl nofun
  have hreceive : (r.stateAt 0).receive (r.recvAt 0) r.initial (r.memory 0) r.saved =
      (r.stateAt 0).respond (r.buffer 0) r.initial (r.memory 0) r.saved := by
    show (if (r.recvAt 0).isError = true then _ else _) = _
    rw [recvAt_isError, if_neg Bool.false_ne_true, buffer_zero]
  have hclosed := closed_next (r := r) (n := 0) (s := r.stateAt 0) nofun
  rw [hreceive] at hone
  rw [hone]
  unfold HttpInput.respond status
  cases statusCode (cStr (r.buffer 0 ++ r.initial)) with
  | none => rfl
  | some code =>
    dsimp only
    split
    · rw [unfinished_zero]
      rcases parse_cases (r.stateAt 0) (r.buffer 0) (r.memory 0) r.saved with
        ⟨hnone, hplace, -⟩ | ⟨hsome, hopening⟩
      · exact .inl ⟨hnone, hplace, hclosed⟩
      · exact .inr ⟨hsome, hopening⟩
    · rfl

theorem stateAt_looping (h : Looping r n (r.stateAt (n + 1))) :
    splitHeader (r.buffer (n + 1)) (r.memory (n + 1)) = none ∧
        Looping r (n + 1) (r.stateAt (n + 2)) ∨
      splitHeader (r.buffer (n + 1)) (r.memory (n + 1)) ≠ none ∧
        (r.stateAt (n + 2)).opening = false := by
  have hnext := stateAt_succ_of_opening h.opening h.asked h.closed
  have hclosed := closed_next h.closed
  have hreceive : (r.stateAt (n + 1)).receive (r.recvAt (n + 1)) r.initial (r.memory (n + 1)) r.saved =
      (r.stateAt (n + 1)).parse (r.buffer (n + 1)) (r.memory (n + 1)) r.saved := by
    unfold HttpInput.receive
    rw [h.place]
    dsimp only
    rw [recvAt_isError, if_neg Bool.false_ne_true, buffer_succ]
  rw [hreceive] at hnext
  rw [hnext]
  rcases parse_cases (r.stateAt (n + 1)) (r.buffer (n + 1)) (r.memory (n + 1)) r.saved with
    ⟨hnone, hplace, -⟩ | ⟨hsome, hopening⟩
  · exact .inl ⟨hnone, hplace, hclosed⟩
  · exact .inr ⟨hsome, hopening⟩

theorem stateAt_returned (h : (r.stateAt n).opening = false) :
    r.stateAt (n + 1) = r.stateAt n := by
  rw [stateAt]
  rw [if_neg (by rw [h]; exact Bool.false_ne_true)]

theorem stateAt_le {m : Nat} (h : (r.stateAt n).opening = false) (hle : n ≤ m) :
    r.stateAt m = r.stateAt n := by
  induction m, hle using Nat.le_induction with
  | base => rfl
  | succ m _ ih => rw [stateAt_returned (ih ▸ h), ih]

/-- Once a first line with 200 has come, the loop goes on as long as no end of the header is
found. -/
theorem stateAt_cases (hstatus : r.status = some 200) (n : Nat) :
    r.Unfinished n ∧ Looping r n (r.stateAt (n + 1)) ∨
      ¬ r.Unfinished n ∧ (r.stateAt (n + 1)).opening = false := by
  induction n with
  | zero =>
    have hone := stateAt_one (r := r)
    rw [hstatus] at hone
    simpa using hone
  | succ n ih =>
    rw [unfinished_succ]
    rcases ih with ⟨hbefore, hloop⟩ | ⟨hfound, hreturned⟩
    · rcases stateAt_looping hloop with ⟨hnone, hloop'⟩ | ⟨hsome, hreturned⟩
      · exact .inl ⟨⟨hbefore, hnone⟩, hloop'⟩
      · exact .inr ⟨fun h => hsome h.2, hreturned⟩
    · refine .inr ⟨fun h => hfound h.1, ?_⟩
      rw [stateAt_returned hreturned]
      exact hreturned

/-! ## When `Open` does what it should -/

/-- The header ends in the text. -/
def Completed (text : Text) : Prop := bytes "\r\n\r\n" <:+: text ∨ bytes "\n\n" <:+: text

/-- `Open` returns, with an error when the header does not end, and takes nothing for header that
has not come. -/
structure Right (r : Served) : Prop where
  returns : ∃ n, (r.stateAt n).opening = false
  error : ¬ Completed r.sent → ∃ n, (r.stateAt n).place = .ended
  inside : r.status = some 200 → ∀ n, (r.stateAt n).opening = true →
    TakenInside (r.buffer n) (r.memory n)

/-- One `recv` brings the end of the header, and no end has been found before. -/
def HeaderReceived (r : Served) : Prop :=
  ∃ n, (∀ m < n, splitHeader (r.buffer m) (r.memory m) = none) ∧
    EndsInside (r.buffer n) (r.memory n)

theorem opening_iff (hstatus : r.status = some 200) (n : Nat) :
    (r.stateAt n).opening = true ↔ ∀ m < n, splitHeader (r.buffer m) (r.memory m) = none := by
  cases n with
  | zero => exact iff_of_true rfl fun _ h => absurd h (Nat.not_lt_zero _)
  | succ n =>
    have hunfinished : r.Unfinished n ↔
        ∀ m < n + 1, splitHeader (r.buffer m) (r.memory m) = none := by
      unfold Unfinished
      simp only [Nat.lt_succ_iff]
    rw [← hunfinished]
    rcases stateAt_cases hstatus n with ⟨hnone, hloop⟩ | ⟨hfound, hreturned⟩
    · exact iff_of_true hloop.opening hnone
    · exact iff_of_false (by rw [hreturned]; exact Bool.false_ne_true) hfound

theorem strstr_occurs {text : Text} {p : String} (h : (strstr text p).isSome = true) :
    bytes p <:+: text := by
  obtain ⟨k, hk⟩ := Option.isSome_iff_exists.mp h
  exact (strstr_spec hk).isInfix.trans (List.drop_suffix _ _).isInfix

theorem buffer_begins (r : Served) (n : Nat) : r.buffer n <+: r.sent := by
  unfold buffer sent
  conv => rhs; rw [← List.take_append_drop (n + 1) r.chunks, List.flatten_append]
  exact List.prefix_append _ _

theorem completed_of_endsInside (h : EndsInside (r.buffer n) (r.memory n)) : Completed r.sent := by
  have hsent := (buffer_begins r n).isInfix
  rcases h with hcrlf | ⟨hlf, -⟩
  · exact .inl ((strstr_occurs hcrlf).trans hsent)
  · exact .inr ((strstr_occurs hlf).trans hsent)

theorem right_iff_headerReceived (hstatus : r.status = some 200) :
    r.Right ↔ r.HeaderReceived := by
  constructor
  · rintro hright
    obtain ⟨k, hk⟩ := hright.returns
    have hsome : ∃ n, splitHeader (r.buffer n) (r.memory n) ≠ none := by
      by_contra hnone
      rw [not_exists] at hnone
      have hopening := (opening_iff hstatus k).mpr fun m _ => not_not.mp (hnone m)
      rw [hk] at hopening
      exact absurd hopening Bool.false_ne_true
    classical
    have hbefore : ∀ m < Nat.find hsome, splitHeader (r.buffer m) (r.memory m) = none :=
      fun m hm => not_not.mp (Nat.find_min hsome hm)
    refine ⟨Nat.find hsome, hbefore, (endsInside_iff _ _).mpr ⟨Nat.find_spec hsome, ?_⟩⟩
    exact hright.inside hstatus _ ((opening_iff hstatus _).mpr hbefore)
  · rintro ⟨n, hbefore, hends⟩
    obtain ⟨hsome, hinside⟩ := (endsInside_iff _ _).mp hends
    refine ⟨⟨n + 1, ?_⟩, fun hnot => absurd (completed_of_endsInside hends) hnot, ?_⟩
    · rw [← Bool.not_eq_true, opening_iff hstatus]
      exact fun hnone => hsome (hnone n (Nat.lt_succ_self n))
    · intro _ m hopening header leftover htaken
      have hnone := (opening_iff hstatus m).mp hopening
      rcases Nat.lt_trichotomy m n with hlt | rfl | hgt
      · rw [hbefore m hlt] at htaken
        cases htaken
      · exact hinside header leftover htaken
      · exact absurd (hnone n hgt) hsome

/-- The first line has no number: the header is not looked at. -/
theorem right_iff_completed (hstatus : r.status = none) : r.Right ↔ Completed r.sent := by
  have hone := stateAt_one (r := r)
  rw [hstatus] at hone
  have hreturned : (r.stateAt 1).opening = false := by
    unfold HttpInput.opening
    rw [hone]
  constructor
  · intro hright
    by_contra hnot
    obtain ⟨n, hn⟩ := hright.error hnot
    cases n with
    | zero => cases hn
    | succ n =>
      rw [stateAt_le hreturned (Nat.succ_le_succ (Nat.zero_le n)), hone] at hn
      cases hn
  · refine fun hcompleted => ⟨⟨1, hreturned⟩, fun hnot => absurd hcompleted hnot, fun h => ?_⟩
    rw [hstatus] at h
    cases h

theorem right_of_error {code : Int} (hstatus : r.status = some code) (hcode : code ≠ 200) :
    r.Right := by
  have hone := stateAt_one (r := r)
  rw [hstatus] at hone
  simp only [if_neg hcode] at hone
  refine ⟨⟨1, ?_⟩, fun _ => ⟨1, hone⟩, fun h => ?_⟩
  · unfold HttpInput.opening
    rw [hone]
  · rw [hstatus] at h
    exact absurd (Option.some.inj h) hcode

/-! ## Where NULs stand behind what has come -/

/-- As behind a block that has been cleared. -/
def Cleared (r : Served) : Prop := ∀ n, (r.memory n).head? = some 0

theorem strstr_cleared {buffer behind : Text} (h : behind.head? = some 0) (p : String) :
    strstr (buffer ++ behind) p = strstr buffer p := by
  obtain ⟨rest, rfl⟩ : ∃ rest, behind = 0 :: rest := by
    cases behind with
    | nil => cases h
    | cons c rest =>
      cases h
      exact ⟨rest, rfl⟩
  unfold strstr
  rw [cStr_append_nul]

/-- The end of the header stands in front of the first NUL of the text. -/
def EndsVisibly (text : Text) : Prop :=
  (strstr text "\r\n\r\n").isSome = true ∨ (strstr text "\n\n").isSome = true

theorem splitHeader_cleared {buffer behind : Text} (h : behind.head? = some 0) :
    (splitHeader buffer behind ≠ none ↔ EndsVisibly buffer) ∧
      (EndsInside buffer behind ↔ EndsVisibly buffer) := by
  unfold splitHeader EndsInside EndsVisibly
  rw [strstr_cleared h, strstr_cleared h]
  cases strstr buffer "\r\n\r\n" with
  | some pEnd => simp
  | none => cases strstr buffer "\n\n" <;> simp

theorem EndsVisibly.more {text : Text} (h : EndsVisibly text) (t : Text) :
    EndsVisibly (text ++ t) := by
  rcases h with hcrlf | hlf
  · obtain ⟨k, hk⟩ := Option.isSome_iff_exists.mp hcrlf
    exact .inl (by rw [strstr_more hk t]; rfl)
  · obtain ⟨k, hk⟩ := Option.isSome_iff_exists.mp hlf
    exact .inr (by rw [strstr_more hk t]; rfl)

theorem headerReceived_iff (hcleared : r.Cleared) : r.HeaderReceived ↔ EndsVisibly r.sent := by
  constructor
  · rintro ⟨n, -, hends⟩
    obtain ⟨t, ht⟩ := buffer_begins r n
    rw [← ht]
    exact ((splitHeader_cleared (hcleared n)).2.mp hends).more t
  · intro hvisible
    have hall : r.buffer r.chunks.length = r.sent := by
      unfold buffer sent
      rw [List.take_of_length_le (Nat.le_succ _)]
    have hsome : ∃ n, EndsVisibly (r.buffer n) := ⟨_, hall ▸ hvisible⟩
    classical
    refine ⟨Nat.find hsome, fun m hm => ?_, ?_⟩
    · exact not_not.mp (mt (splitHeader_cleared (hcleared m)).1.mp (Nat.find_min hsome hm))
    · exact (splitHeader_cleared (hcleared _)).2.mpr (Nat.find_spec hsome)

/-- The header is cut off behind its first line. -/
def cutHeader : Served where
  chunks := [bytes "ICY 200 OK\r\n"]
  comes := by decide
  initial := [0]
  memory := fun _ => [0]
  saved := true
  numBlocks := 0

end Served

end FreeAmp.Io
