/-
  Lmc/ConvertToIso.lean --- the comments of a Vorbis file in Latin-1, as `ConvertToISO` of
  `lmc/vorbis/src/vorbislmc.cpp` makes them of UTF-8.

      past_loop_iff      which strings are read past their end
      convertToISO_iff   which characters are converted

  A byte over 0xC3 gives a '?', and the bytes that continue it are left for the next turns
  of the loop, where they are taken for the first byte of two.
-/
import FreeAmp.Base.Database

namespace FreeAmp.Lmc

open FreeAmp.Base

/-! ## The loop -/

/-- What has been put into `buf`, and whether the byte behind the NUL of `utf8` is read. -/
structure Converted where
  out : Text
  past : Bool
  deriving DecidableEq, Repr

/-- `*out = c`, and what comes after it. -/
def Converted.put (c : UInt8) (r : Converted) : Converted := { r with out := c :: r.out }

/-- `(((*in) & 0x1F) << 6) | (0x3F & (*(++in)))` -/
def joined (c d : UInt8) : UInt8 := ((c &&& 0x1F) <<< 6) ||| (0x3F &&& d)

/-- The loop of `ConvertToISO`, from `in` up to the NUL. -/
def convertLoop : Text → Converted
  | [] => ⟨[], true⟩  -- `*in` is tested before `in <= end`
  | c :: p =>
    if c = 0 then ⟨[], false⟩
    else if c < 0x80 then (convertLoop p).put c
    else if 0xC3 < c then (convertLoop p).put 63
    else if c &&& 0xC0 ≠ 0 then
      match p with
      | [] => (convertLoop []).put 0  -- `in >= end`
      | d :: p => (convertLoop p).put (joined c d)
    else (convertLoop p).put 63

/-- `ConvertToISO`: the bytes up to the NUL are converted. -/
def convertToISO (utf8 : Text) : Converted := convertLoop (cStr utf8 ++ [0])

/-- `string((char *)buf)` -/
def Converted.ret (r : Converted) : Text := cStr r.out

/-! ## What the loop does -/

/-- The bytes that are taken for the first of two. -/
def Leads (c : UInt8) : Prop := 0x80 ≤ c ∧ c ≤ 0xC3

instance (c : UInt8) : Decidable (Leads c) := inferInstanceAs (Decidable (_ ∧ _))

theorem convertLoop_ascii {c : UInt8} (p : Text) (h0 : c ≠ 0) (h : c < 0x80) :
    convertLoop (c :: p) = (convertLoop p).put c := by
  rw [convertLoop.eq_def]
  dsimp only
  rw [if_neg h0, if_pos h]

theorem convertLoop_high {c : UInt8} (p : Text) (h : 0xC3 < c) :
    convertLoop (c :: p) = (convertLoop p).put 63 := by
  have h0 : c ≠ 0 := by rintro rfl; exact absurd h (by decide)
  have hlow : ¬ c < 0x80 := fun hlt => absurd (UInt8.lt_trans h hlt) (by decide)
  rw [convertLoop.eq_def]
  dsimp only
  rw [if_neg h0, if_neg hlow, if_pos h]

set_option maxRecDepth 4000 in
/-- The top bit of such a byte is set: the last branch is never taken. -/
theorem and_ne_zero : ∀ n < 256, 0x80 ≤ n → UInt8.ofNat n &&& 0xC0 ≠ 0 := by
  decide

theorem Leads.ne_zero {c : UInt8} (h : Leads c) : c ≠ 0 := by
  rintro rfl
  exact absurd h (by decide)

theorem Leads.turn {c : UInt8} (p : Text) (h : Leads c) :
    convertLoop (c :: p) = match p with
      | [] => (convertLoop []).put 0
      | d :: p => (convertLoop p).put (joined c d) := by
  have hlow : ¬ c < 0x80 := UInt8.not_lt.mpr h.1
  have hhigh : ¬ 0xC3 < c := UInt8.not_lt.mpr h.2
  have htop : c &&& 0xC0 ≠ 0 := by
    rw [← UInt8.ofNat_toNat (x := c)]
    exact and_ne_zero _ c.toNat_lt h.1
  rw [convertLoop.eq_def]
  dsimp only
  rw [if_neg h.ne_zero, if_neg hlow, if_neg hhigh, if_pos htop]
  cases p <;> rfl

theorem convertLoop_leads {c : UInt8} (d : UInt8) (p : Text) (h : Leads c) :
    convertLoop (c :: d :: p) = (convertLoop p).put (joined c d) := h.turn (d :: p)

theorem leads_or (c : UInt8) : c < 0x80 ∨ 0xC3 < c ∨ Leads c := by
  by_cases hlow : c < 0x80
  · exact .inl hlow
  · by_cases hhigh : 0xC3 < c
    · exact .inr (.inl hhigh)
    · exact .inr (.inr ⟨UInt8.not_lt.mp hlow, UInt8.not_lt.mp hhigh⟩)

/-- What a turn of the loop puts there is not the NUL yet. -/
theorem out_cons_ne {c : UInt8} (p : Text) (h0 : c ≠ 0) (h : ¬ Leads c) :
    ∃ d, convertLoop (c :: p) = (convertLoop p).put d := by
  rcases leads_or c with hlow | hhigh | hleads
  · exact ⟨c, convertLoop_ascii p h0 hlow⟩
  · exact ⟨63, convertLoop_high p hhigh⟩
  · exact absurd hleads h

/-! ## Which bytes are read and written -/

/-- How many bytes that lead stand at the end, with `n` of them in front of the string. -/
def tailRun (n : Nat) (s : Text) : Nat := s.foldl (fun n c => if Leads c then n + 1 else 0) n

theorem tailRun_leads {c : UInt8} (n : Nat) (s : Text) (h : Leads c) :
    tailRun n (c :: s) = tailRun (n + 1) s := by
  unfold tailRun
  rw [List.foldl_cons, if_pos h]

theorem tailRun_not {c : UInt8} (n : Nat) (s : Text) (h : ¬ Leads c) :
    tailRun n (c :: s) = tailRun 0 s := by
  unfold tailRun
  rw [List.foldl_cons, if_neg h]

theorem past_put (c : UInt8) (r : Converted) : (r.put c).past = r.past := rfl

/-- The NUL is skipped when the bytes at the end that lead cannot be paired. -/
theorem past_loop_iff : ∀ (s : Text) (n : Nat), NulFree s → n % 2 = 0 →
    ((convertLoop (s ++ [0])).past = false ↔ tailRun n s % 2 = 0)
  | [], n, _, hn => ⟨fun _ => hn, fun _ => rfl⟩
  | c :: s, n, hnul, hn => by
      obtain ⟨h0, hs⟩ := List.ne_and_not_mem_of_not_mem_cons hnul
      by_cases hleads : Leads c
      · match s with
        | [] =>
          rw [tailRun_leads n [] hleads]
          refine ⟨fun h => ?_, fun h => ?_⟩
          · exact nomatch (congrArg Converted.past (convertLoop_leads 0 [] hleads)).symm.trans h
          · have hrun : tailRun (n + 1) [] = n + 1 := rfl
            omega
        | d :: s =>
          have hrest := List.not_mem_of_not_mem_cons hs
          have hturn := convertLoop_leads d (s ++ [0]) hleads
          rw [List.cons_append, List.cons_append, hturn, past_put, tailRun_leads n _ hleads]
          by_cases hsecond : Leads d
          · rw [tailRun_leads _ s hsecond]
            exact past_loop_iff s (n + 2) hrest (by omega)
          · rw [tailRun_not _ s hsecond]
            exact past_loop_iff s 0 hrest rfl
      · obtain ⟨d, hturn⟩ := out_cons_ne (s ++ [0]) (Ne.symm h0) hleads
        rw [List.cons_append, hturn, past_put, tailRun_not n s hleads]
        exact past_loop_iff s 0 hs rfl

theorem length_out_le : ∀ s : Text, NulFree s → (convertLoop (s ++ [0])).out.length ≤ s.length
  | [], _ => Nat.le_refl 0
  | c :: s, hnul => by
      obtain ⟨h0, hs⟩ := List.ne_and_not_mem_of_not_mem_cons hnul
      by_cases hleads : Leads c
      · match s with
        | [] =>
          have hone : (convertLoop ([c] ++ [0])).out.length = 1 :=
            congrArg (fun r => r.out.length) (convertLoop_leads 0 [] hleads)
          exact Nat.le_of_eq hone
        | d :: s =>
          have hturn := convertLoop_leads d (s ++ [0]) hleads
          have hrest := length_out_le s (List.not_mem_of_not_mem_cons hs)
          rw [List.cons_append, List.cons_append, hturn, Converted.put, List.length_cons,
            List.length_cons, List.length_cons]
          omega
      · obtain ⟨d, hturn⟩ := out_cons_ne (s ++ [0]) (Ne.symm h0) hleads
        rw [List.cons_append, hturn]
        exact Nat.succ_le_succ (length_out_le s hs)

/-! ## Characters -/

def utf8 (cs : List Char) : Text := cs.flatMap String.utf8EncodeChar

/-- The character in Latin-1, or the '?'. -/
def latin1 (c : Char) : UInt8 := if c.toNat ≤ 0xFF then UInt8.ofNat c.toNat else 63

/-- One character is left of every code point, and no byte behind the NUL is read. -/
def Right (cs : List Char) : Prop :=
  (convertToISO (utf8 cs)).ret = cs.map latin1 ∧ (convertToISO (utf8 cs)).past = false

theorem toNat_ofNat {n : Nat} (h : n < 256) : (UInt8.ofNat n).toNat = n := by
  rw [UInt8.toNat_ofNat', Nat.mod_eq_of_lt h]

theorem high_ofNat {n : Nat} (hlow : 0xC3 < n) (hhigh : n < 256) : 0xC3 < UInt8.ofNat n := by
  rw [UInt8.lt_iff_toNat_lt, toNat_ofNat hhigh]
  exact hlow

theorem leads_ofNat {n : Nat} (hlow : 0x80 ≤ n) (hhigh : n ≤ 0xC3) : Leads (UInt8.ofNat n) := by
  unfold Leads
  rw [UInt8.le_iff_toNat_le, UInt8.le_iff_toNat_le, toNat_ofNat (by omega)]
  exact ⟨hlow, hhigh⟩

/-- A byte that continues a character. -/
def cont (n : Nat) : UInt8 := UInt8.ofNat (n % 64 + 0x80)

theorem leads_cont (n : Nat) : Leads (cont n) := leads_ofNat (by omega) (by omega)

/-- The bytes of a character: a first one, and the rest. -/
theorem utf8EncodeChar_cases (c : Char) :
    (c.toNat ≤ 0x7F ∧ String.utf8EncodeChar c = [UInt8.ofNat c.toNat]) ∨
    (0x7F < c.toNat ∧ c.toNat ≤ 0xFF ∧
      String.utf8EncodeChar c = [UInt8.ofNat (c.toNat / 64 % 32 + 0xC0), cont c.toNat]) ∨
    (0xFF < c.toNat ∧ ∃ first, 0xC3 < first ∧
      (String.utf8EncodeChar c = [first, cont c.toNat] ∨
        String.utf8EncodeChar c = [first, cont (c.toNat / 64), cont c.toNat] ∨
        String.utf8EncodeChar c =
          [first, cont (c.toNat / 4096), cont (c.toNat / 64), cont c.toNat])) := by
  have hmax : c.toNat < 0x110000 := by
    have hvalid := c.valid
    unfold UInt32.isValidChar Nat.isValidChar at hvalid
    have htoNat : c.toNat = c.val.toNat := rfl
    omega
  have henc : String.utf8EncodeChar c = _ := String.utf8EncodeChar.eq_1 c
  have htoNat : c.val.toNat = c.toNat := rfl
  rw [htoNat] at henc
  by_cases h1 : c.toNat ≤ 0x7F
  · rw [if_pos h1] at henc
    exact .inl ⟨h1, henc⟩
  · rw [if_neg h1] at henc
    by_cases h2 : c.toNat ≤ 0x7FF
    · rw [if_pos h2] at henc
      by_cases hbyte : c.toNat ≤ 0xFF
      · exact .inr (.inl ⟨by omega, hbyte, henc⟩)
      · exact .inr (.inr ⟨by omega, _, high_ofNat (by omega) (by omega), .inl henc⟩)
    · rw [if_neg h2] at henc
      by_cases h3 : c.toNat ≤ 0xFFFF
      · rw [if_pos h3] at henc
        exact .inr (.inr ⟨by omega, _, high_ofNat (by omega) (by omega), .inr (.inl henc)⟩)
      · rw [if_neg h3] at henc
        exact .inr (.inr ⟨by omega, _, high_ofNat (by omega) (by omega), .inr (.inr henc)⟩)

theorem cont_ne_zero (n : Nat) : cont n ≠ 0 := (leads_cont n).ne_zero

set_option maxRecDepth 4000 in
theorem joined_two : ∀ n < 256, 0x7F < n →
    Leads (UInt8.ofNat (n / 64 % 32 + 0xC0)) ∧
      joined (UInt8.ofNat (n / 64 % 32 + 0xC0)) (cont n) = UInt8.ofNat n := by
  decide

theorem nulFree_utf8EncodeChar {c : Char} (h : c.toNat ≠ 0) :
    NulFree (String.utf8EncodeChar c) := by
  rcases utf8EncodeChar_cases c with ⟨hlow, henc⟩ | ⟨hlow, hhigh, henc⟩ | ⟨-, first, hfirst, henc⟩
  · have hne : UInt8.ofNat c.toNat ≠ 0 := by
      intro h0
      have htoNat := congrArg UInt8.toNat h0
      rw [toNat_ofNat (by omega)] at htoNat
      exact h htoNat
    rw [henc]
    exact nulFree_nil.cons hne
  · rw [henc]
    exact (nulFree_nil.cons (cont_ne_zero _)).cons (joined_two _ (by omega) hlow).1.ne_zero
  · have hne : first ≠ 0 := by
      rintro rfl
      exact absurd hfirst (by decide)
    rcases henc with henc | henc | henc
    all_goals
      rw [henc]
      refine NulFree.cons hne ?_
      repeat' refine NulFree.cons (cont_ne_zero _) ?_
      exact nulFree_nil

theorem nulFree_utf8 {cs : List Char} (h : ∀ c ∈ cs, c.toNat ≠ 0) : NulFree (utf8 cs) := by
  intro hmem
  obtain ⟨c, hc, hzero⟩ := List.mem_flatMap.mp hmem
  exact nulFree_utf8EncodeChar (h c hc) hzero

/-! ## Characters of Latin-1 -/

theorem convertLoop_latin1 {c : Char} (p : Text) (h0 : c.toNat ≠ 0) (h : c.toNat ≤ 0xFF) :
    convertLoop (String.utf8EncodeChar c ++ p) = (convertLoop p).put (latin1 c) := by
  have hlatin : latin1 c = UInt8.ofNat c.toNat := if_pos h
  rcases utf8EncodeChar_cases c with ⟨hlow, henc⟩ | ⟨hlow, hhigh, henc⟩ | ⟨hbig, -⟩
  · have hnul := nulFree_utf8EncodeChar h0
    rw [henc] at hnul
    have hascii : UInt8.ofNat c.toNat < 0x80 := by
      rw [UInt8.lt_iff_toNat_lt, toNat_ofNat (by omega)]
      exact Nat.lt_succ_of_le hlow
    rw [henc, hlatin]
    exact convertLoop_ascii p (fun h0 => hnul (h0 ▸ List.mem_singleton_self _)) hascii
  · obtain ⟨hleads, hjoined⟩ := joined_two _ (by omega) hlow
    rw [henc, hlatin, ← hjoined]
    exact convertLoop_leads _ p hleads
  · omega

theorem convertLoop_utf8 : ∀ cs : List Char, (∀ c ∈ cs, c.toNat ≠ 0 ∧ c.toNat ≤ 0xFF) →
    convertLoop (utf8 cs ++ [0]) = ⟨cs.map latin1, false⟩
  | [], _ => rfl
  | c :: cs, h => by
      have hc := h c List.mem_cons_self
      have ih := convertLoop_utf8 cs fun d hd => h d (List.mem_cons_of_mem c hd)
      have hutf8 : utf8 (c :: cs) ++ [0] = String.utf8EncodeChar c ++ (utf8 cs ++ [0]) := by
        unfold utf8
        rw [List.flatMap_cons, List.append_assoc]
      rw [hutf8, convertLoop_latin1 _ hc.1 hc.2, ih]
      rfl

theorem latin1_ne_zero {c : Char} (h : c.toNat ≠ 0) : latin1 c ≠ 0 := by
  unfold latin1
  split
  · intro h0
    have htoNat := congrArg UInt8.toNat h0
    rw [toNat_ofNat (by omega)] at htoNat
    exact h htoNat
  · decide

theorem right_of_latin1 {cs : List Char} (h : ∀ c ∈ cs, c.toNat ≠ 0 ∧ c.toNat ≤ 0xFF) :
    Right cs := by
  have hconv : convertToISO (utf8 cs) = ⟨cs.map latin1, false⟩ := by
    unfold convertToISO
    rw [(nulFree_utf8 fun c hc => (h c hc).1).cStr_eq, convertLoop_utf8 cs h]
  unfold Right
  rw [hconv]
  refine ⟨NulFree.cStr_eq fun h0 => ?_, rfl⟩
  obtain ⟨c, hc, hzero⟩ := List.mem_map.mp h0
  exact latin1_ne_zero (h c hc).1 hzero

/-! ## Other characters -/

theorem convertToISO_eq {cs : List Char} (h : ∀ c ∈ cs, c.toNat ≠ 0) :
    convertToISO (utf8 cs) = convertLoop (utf8 cs ++ [0]) := by
  unfold convertToISO
  rw [(nulFree_utf8 h).cStr_eq]

theorem past_two {first : UInt8} (a : Nat) (h : 0xC3 < first) :
    (convertLoop [first, cont a, 0]).past = true := by
  rw [convertLoop_high _ h, convertLoop_leads _ _ (leads_cont a)]
  rfl

/-- The last byte of four is, after the two in the middle. -/
theorem past_four {first : UInt8} (a b d : Nat) (h : 0xC3 < first) :
    (convertLoop [first, cont a, cont b, cont d, 0]).past = true := by
  rw [convertLoop_high _ h, convertLoop_leads _ _ (leads_cont a),
    convertLoop_leads _ _ (leads_cont d)]
  rfl

theorem convertLoop_three {first : UInt8} (a b : Nat) (p : Text) (h : 0xC3 < first) :
    convertLoop (first :: cont a :: cont b :: p) =
      ((convertLoop p).put (joined (cont a) (cont b))).put 63 := by
  rw [convertLoop_high _ h, convertLoop_leads _ _ (leads_cont a)]

/-- A character over U+00FF does not come through alone, or not twice. -/
theorem wrong_of_high {c : Char} (h : 0xFF < c.toNat) : ¬ Right [c] ∨ ¬ Right [c, c] := by
  have hone := @convertToISO_eq [c] fun d hd => by
    rw [List.mem_singleton.mp hd]
    omega
  rcases utf8EncodeChar_cases c with ⟨hlow, -⟩ | ⟨-, hhigh, -⟩ | ⟨-, first, hfirst, henc⟩
  · omega
  · omega
  · rcases henc with henc | henc | henc
    · have hutf8 : utf8 [c] ++ [0] = [first, cont c.toNat, 0] := by
        rw [utf8, List.flatMap_singleton, henc]
        rfl
      refine .inl fun hright => ?_
      rw [Right, hone, hutf8, past_two _ hfirst] at hright
      exact nomatch hright.2
    · by_cases hzero : joined (cont (c.toNat / 64)) (cont c.toNat) = 0
      · have htwo := @convertToISO_eq [c, c] fun d hd => by
          simp only [List.mem_cons, List.not_mem_nil, or_false, or_self] at hd
          rw [hd]
          omega
        have hutf8 : utf8 [c, c] ++ [0] = first :: cont (c.toNat / 64) :: cont c.toNat ::
            first :: cont (c.toNat / 64) :: cont c.toNat :: [0] := by
          rw [utf8, List.flatMap_cons, List.flatMap_singleton, henc]
          rfl
        refine .inr fun hright => ?_
        rw [Right, htwo, hutf8, convertLoop_three _ _ _ hfirst, hzero] at hright
        have hret : [63] = [latin1 c, latin1 c] := hright.1
        exact absurd (congrArg List.length hret) (by simp)
      · have hutf8 : utf8 [c] ++ [0] = first :: cont (c.toNat / 64) :: cont c.toNat :: [0] := by
          rw [utf8, List.flatMap_singleton, henc]
          rfl
        have hret : cStr [63, joined (cont (c.toNat / 64)) (cont c.toNat)] =
            [63, joined (cont (c.toNat / 64)) (cont c.toNat)] :=
          ((nulFree_nil.cons hzero).cons (by decide)).cStr_eq
        refine .inl fun hright => ?_
        rw [Right, hone, hutf8, convertLoop_three _ _ _ hfirst] at hright
        exact absurd (congrArg List.length (hret.symm.trans hright.1)) (by simp)
    · have hutf8 : utf8 [c] ++ [0] =
          [first, cont (c.toNat / 4096), cont (c.toNat / 64), cont c.toNat, 0] := by
        rw [utf8, List.flatMap_singleton, henc]
        rfl
      refine .inl fun hright => ?_
      rw [Right, hone, hutf8, past_four _ _ _ hfirst] at hright
      exact nomatch hright.2

/-! ## Results -/

/-- Any string over some characters is converted just when they are characters of Latin-1; and
any string at all is read up to its NUL just when the bytes at its end can be paired. -/
theorem convertToISO_iff (chars : Set Char) :
    ((∀ cs : List Char, (∀ c ∈ cs, c.toNat ≠ 0 ∧ c ∈ chars) → Right cs) ↔
      ∀ c ∈ chars, c.toNat ≤ 0xFF) ∧
    ∀ s : Text, ((convertToISO s).past = false ↔ tailRun 0 (cStr s) % 2 = 0) ∧
      (convertToISO s).out.length + 1 ≤ (cStr s).length + 1 := by
  constructor
  · constructor
    · intro hall c hc
      by_contra hbig
      have hne : c.toNat ≠ 0 := by omega
      have hmem : ∀ n, ∀ d ∈ List.replicate n c, d.toNat ≠ 0 ∧ d ∈ chars := fun n d hd => by
        rw [List.eq_of_mem_replicate hd]
        exact ⟨hne, hc⟩
      rcases wrong_of_high (by omega : 0xFF < c.toNat) with hwrong | hwrong
      · exact hwrong (hall [c] (hmem 1))
      · exact hwrong (hall [c, c] (hmem 2))
    · intro hlatin cs hcs
      exact right_of_latin1 fun c hc => ⟨(hcs c hc).1, hlatin c (hcs c hc).2⟩
  · intro s
    exact ⟨past_loop_iff _ 0 (nulFree_cStr s) rfl,
      Nat.succ_le_succ (length_out_le _ (nulFree_cStr s))⟩

/-- U+0100 is read past the NUL. -/
theorem convertToISO_fails : ¬ ∀ cs : List Char, (∀ c ∈ cs, c.toNat ≠ 0) → Right cs := by
  intro hall
  have hright := hall [Char.ofNat 0x100] fun c hc => by
    rw [List.mem_singleton.mp hc]
    decide
  exact absurd hright.2 (by decide)

end FreeAmp.Lmc
