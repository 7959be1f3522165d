/-
  Lib/Uri.lean --- percent-encoding over an alphabet of legal characters.

  `encode` lets an escape pass that is there already, but only when its two digits are
  decimal; `decode` reads the digits of both kinds and both cases.

      encode_encoded       what comes out: legal characters and escapes
      encode_encode_iff    when encoding again changes nothing
      decode_encode_iff    when the encoded string decodes like the string itself
-/
import FreeAmp.Lib.Decimal

namespace FreeAmp.Lib.Uri

/-! ## Escapes -/

/-- A hexadecimal digit, as `%x` prints it. -/
def hexDigit (n : Nat) : UInt8 := UInt8.ofNat (if n < 10 then 48 + n else 87 + n)

/-- The value of a hexadecimal digit of either case. -/
def hexValue (c : UInt8) : Option Nat :=
  if isDigit c then some (c.toNat - 48)
  else if 65 ≤ c ∧ c ≤ 70 then some (c.toNat - 55)
  else if 97 ≤ c ∧ c ≤ 102 then some (c.toNat - 87)
  else none

/-- What the two digits behind a percent sign stand for. -/
def octet (x y : UInt8) : Option UInt8 :=
  match hexValue x, hexValue y with
  | some high, some low => some (UInt8.ofNat (16 * high + low))
  | _, _ => none

/-- `"%%%02x"` -/
def escapeOf (c : UInt8) : List UInt8 := [37, hexDigit (c.toNat / 16), hexDigit (c.toNat % 16)]

theorem octet_hexDigit (c : UInt8) :
    octet (hexDigit (c.toNat / 16)) (hexDigit (c.toNat % 16)) = some c := by
  have hall : ∀ n : Fin 256, octet (hexDigit (n.val / 16)) (hexDigit (n.val % 16)) =
      some (UInt8.ofNat n.val) := by decide +kernel
  rw [hall ⟨c.toNat, c.toNat_lt⟩, UInt8.ofNat_toNat]

theorem isDigit_hexDigit {n : Nat} (h : n < 16) : isDigit (hexDigit n) = true ↔ n < 10 := by
  have hall : ∀ n : Fin 16, isDigit (hexDigit n.val) = true ↔ n.val < 10 := by decide
  exact hall ⟨n, h⟩

theorem hexValue_isSome_of_isDigit {c : UInt8} (h : isDigit c = true) :
    (hexValue c).isSome = true := by
  rw [hexValue, if_pos h]
  rfl

theorem hexValue_percent : hexValue 37 = none := by decide

theorem octet_isSome {x y : UInt8} :
    (octet x y).isSome = true ↔ (hexValue x).isSome = true ∧ (hexValue y).isSome = true := by
  unfold octet
  cases hexValue x <;> cases hexValue y <;> simp

theorem ne_percent {c : UInt8} (h : (hexValue c).isSome = true) : c ≠ 37 := by
  rintro rfl
  rw [hexValue_percent] at h
  exact absurd h Bool.false_ne_true

/-- Two decimal digits stand at the beginning. -/
def twoDigits : List UInt8 → Bool
  | x :: y :: _ => isDigit x && isDigit y
  | _ => false

theorem twoDigits_iff {t : List UInt8} :
    twoDigits t = true ↔ ∃ x y rest, t = x :: y :: rest ∧ isDigit x = true ∧ isDigit y = true := by
  constructor
  · intro h
    match t, h with
    | x :: y :: rest, h => exact ⟨x, y, rest, rfl, Bool.and_eq_true _ _ ▸ h⟩
  · rintro ⟨x, y, rest, rfl, hx, hy⟩
    rw [twoDigits, hx, hy]
    rfl

/-! ## Decoding -/

/-- A percent sign that no two digits follow stands for itself. -/
def decode : List UInt8 → List UInt8
  | c :: x :: y :: t =>
    match (if c = 37 then octet x y else none) with
    | some b => b :: decode t
    | none => c :: decode (x :: y :: t)
  | t => t

/-- What a string may begin with. -/
inductive Front : List UInt8 → Prop
  | nil : Front []
  | plain (c : UInt8) (t : List UInt8) (hc : c ≠ 37) : Front (c :: t)
  | bare (t : List UInt8) (h : ∀ x y rest, t = x :: y :: rest → octet x y = none) : Front (37 :: t)
  | octet (x y : UInt8) (t : List UInt8) (h : (octet x y).isSome = true) : Front (37 :: x :: y :: t)

theorem front (t : List UInt8) : Front t := by
  cases t with
  | nil => exact .nil
  | cons c t =>
    by_cases hc : c = 37
    · subst hc
      match t with
      | [] => exact .bare [] fun _ _ _ h => by cases h
      | [x] => exact .bare [x] fun _ _ _ h => by cases h
      | x :: y :: t =>
        by_cases hoctet : (octet x y).isSome = true
        · exact .octet x y t hoctet
        · refine .bare _ fun x' y' rest h => ?_
          cases h
          exact Option.not_isSome_iff_eq_none.mp hoctet
    · exact .plain c t hc

theorem decode_plain {c : UInt8} (hc : c ≠ 37) (t : List UInt8) :
    decode (c :: t) = c :: decode t := by
  match t with
  | [] => rfl
  | [_] => rfl
  | x :: y :: t => rw [decode, if_neg hc]

theorem decode_bare {t : List UInt8} (h : ∀ x y rest, t = x :: y :: rest → octet x y = none) :
    decode (37 :: t) = 37 :: decode t := by
  match t with
  | [] => rfl
  | [_] => rfl
  | x :: y :: t => rw [decode, if_pos rfl, h x y t rfl]

theorem decode_octet {x y b : UInt8} (h : octet x y = some b) (t : List UInt8) :
    decode (37 :: x :: y :: t) = b :: decode t := by
  rw [decode, if_pos rfl, h]

theorem decode_escapeOf (c : UInt8) (t : List UInt8) :
    decode (escapeOf c ++ t) = c :: decode t :=
  decode_octet (octet_hexDigit c) t

/-- No escape reaches over a character that is not a digit. -/
theorem decode_append {t : List UInt8} (ht : ∀ c ∈ t.head?, hexValue c = none) (s : List UInt8) :
    decode (s ++ t) = decode s ++ decode t := by
  generalize hlength : s.length = n
  induction n using Nat.strong_induction_on generalizing s with
  | _ n ih =>
    subst hlength
    cases front s with
    | nil => rfl
    | plain c s hc =>
      rw [List.cons_append, decode_plain hc, decode_plain hc, List.cons_append,
        ih _ (Nat.lt_succ_self _) s rfl]
    | bare s h =>
      have hbare : ∀ x y rest, s ++ t = x :: y :: rest → octet x y = none := by
        intro x y rest heq
        rw [← Option.not_isSome_iff_eq_none, octet_isSome]
        rintro ⟨hx, hy⟩
        match s, h with
        | [], _ =>
          rw [List.nil_append] at heq
          rw [ht x (by rw [heq]; rfl)] at hx
          exact absurd hx Bool.false_ne_true
        | [_], _ =>
          simp only [List.cons_append, List.nil_append, List.cons.injEq] at heq
          rw [ht y (by rw [heq.2]; rfl)] at hy
          exact absurd hy Bool.false_ne_true
        | x' :: y' :: s, h =>
          simp only [List.cons_append, List.cons.injEq] at heq
          have hnone := h x' y' s rfl
          rw [← Option.not_isSome_iff_eq_none, octet_isSome, heq.1, heq.2.1] at hnone
          exact hnone ⟨hx, hy⟩
      rw [List.cons_append, decode_bare hbare, decode_bare h, List.cons_append,
        ih _ (Nat.lt_succ_self _) s rfl]
    | octet x y s h =>
      obtain ⟨b, hb⟩ := Option.isSome_iff_exists.mp h
      rw [List.cons_append, List.cons_append, List.cons_append, decode_octet hb,
        decode_octet hb, List.cons_append, ih s.length (by simp only [List.length_cons]; omega) s rfl]

/-! ## Encoding -/

/-- Legal characters: every digit of an escape is one, the percent sign is none. -/
structure Alphabet where
  legal : List UInt8
  digits : ∀ c, (hexValue c).isSome = true → c ∈ legal
  percent : 37 ∉ legal

variable (A : Alphabet)

/-- Everything else is replaced, but for a percent sign that two decimal digits follow. -/
def encode : List UInt8 → List UInt8
  | [] => []
  | c :: t =>
    if c ∈ A.legal then c :: encode t
    else if c = 37 ∧ twoDigits t = true then c :: encode t
    else escapeOf c ++ encode t

/-- Legal characters and escapes. -/
inductive Encoded : List UInt8 → Prop
  | nil : Encoded []
  | legal (c : UInt8) (t : List UInt8) (hc : c ∈ A.legal) (ht : Encoded t) : Encoded (c :: t)
  | escape (x y : UInt8) (t : List UInt8) (h : (octet x y).isSome = true) (ht : Encoded t) :
      Encoded (37 :: x :: y :: t)

/-- The character in front of `t` is replaced. -/
def Replaced (c : UInt8) (t : List UInt8) : Prop := c ∉ A.legal ∧ ¬ (c = 37 ∧ twoDigits t = true)

instance (c : UInt8) (t : List UInt8) : Decidable (Replaced A c t) :=
  inferInstanceAs (Decidable (_ ∧ _))

variable {A} {c : UInt8} {s t : List UInt8}

theorem encode_replaced (h : Replaced A c t) : encode A (c :: t) = escapeOf c ++ encode A t := by
  rw [encode, if_neg h.1, if_neg h.2]

theorem encode_kept (h : ¬ Replaced A c t) : encode A (c :: t) = c :: encode A t := by
  rw [encode]
  by_cases hc : c ∈ A.legal
  · rw [if_pos hc]
  · rw [if_neg hc, if_pos (not_not.mp fun hnot => h ⟨hc, hnot⟩)]

theorem encode_legal (hc : c ∈ A.legal) : encode A (c :: t) = c :: encode A t :=
  encode_kept fun h => h.1 hc

theorem encode_digits {x y : UInt8} (h : (octet x y).isSome = true) :
    encode A (x :: y :: t) = x :: y :: encode A t := by
  obtain ⟨hx, hy⟩ := octet_isSome.mp h
  rw [encode_legal (A.digits x hx), encode_legal (A.digits y hy)]

theorem octet_isSome_of_isDigit {x y : UInt8} (hx : isDigit x = true) (hy : isDigit y = true) :
    (octet x y).isSome = true :=
  octet_isSome.mpr ⟨hexValue_isSome_of_isDigit hx, hexValue_isSome_of_isDigit hy⟩

theorem hexDigit_isSome (c : UInt8) :
    (octet (hexDigit (c.toNat / 16)) (hexDigit (c.toNat % 16))).isSome = true := by
  rw [octet_hexDigit]
  rfl

/-- What is kept is legal, or begins an escape that is kept. -/
theorem kept_cases (h : ¬ Replaced A c t) :
    c ∈ A.legal ∨ c = 37 ∧ ∃ x y rest, t = x :: y :: rest ∧ isDigit x = true ∧ isDigit y = true := by
  by_cases hc : c ∈ A.legal
  · exact .inl hc
  · obtain ⟨heq, hdigits⟩ := not_not.mp fun hnot => h ⟨hc, hnot⟩
    exact .inr ⟨heq, twoDigits_iff.mp hdigits⟩

theorem encode_append_legal {u : List UInt8} (hu : ∀ c ∈ u, c ∈ A.legal) :
    encode A (u ++ t) = u ++ encode A t := by
  induction u with
  | nil => rfl
  | cons c u ih =>
    rw [List.forall_mem_cons] at hu
    rw [List.cons_append, encode_legal hu.1, ih hu.2, List.cons_append]

theorem Encoded.tail {c : UInt8} {t : List UInt8} (hc : c ≠ 37) (h : Encoded A (c :: t)) :
    Encoded A t := by
  cases h with
  | legal _ _ _ ht => exact ht
  | escape => exact absurd rfl hc

theorem encode_encoded (s : List UInt8) : Encoded A (encode A s) := by
  induction s with
  | nil => exact .nil
  | cons c s ih =>
    by_cases h : Replaced A c s
    · rw [encode_replaced h]
      exact .escape _ _ _ (hexDigit_isSome c) ih
    · rw [encode_kept h]
      rcases kept_cases h with hc | ⟨rfl, x, y, rest, rfl, hx, hy⟩
      · exact .legal c _ hc ih
      · have hoctet := octet_isSome_of_isDigit hx hy
        obtain ⟨hx', hy'⟩ := octet_isSome.mp hoctet
        rw [encode_digits hoctet] at ih ⊢
        exact .escape x y _ hoctet ((ih.tail (ne_percent hx')).tail (ne_percent hy'))

theorem Encoded.mem (h : Encoded A t) : ∀ c ∈ t, c ∈ A.legal ∨ c = 37 := by
  induction h with
  | nil => exact fun c hc => absurd hc List.not_mem_nil
  | legal c t hc _ ih => exact List.forall_mem_cons.mpr ⟨.inl hc, ih⟩
  | escape x y t h _ ih =>
    obtain ⟨hx, hy⟩ := octet_isSome.mp h
    simp only [List.forall_mem_cons]
    exact ⟨.inr trivial, .inl (A.digits x hx), .inl (A.digits y hy), ih⟩

/-! ## Encoding again -/

theorem length_le_encode (s : List UInt8) : s.length ≤ (encode A s).length := by
  induction s with
  | nil => exact Nat.le_refl _
  | cons c s ih =>
    by_cases h : Replaced A c s
    · rw [encode_replaced h, List.length_append]
      show s.length + 1 ≤ 3 + _
      omega
    · rw [encode_kept h]
      exact Nat.succ_le_succ ih

/-- The character's code has two decimal digits. -/
def DecimalCode (c : UInt8) : Prop := c.toNat / 16 < 10 ∧ c.toNat % 16 < 10

theorem twoDigits_escapeOf : twoDigits ((escapeOf c).tail ++ t) = true ↔ DecimalCode c := by
  have hlt := c.toNat_lt
  have hhigh := isDigit_hexDigit (show c.toNat / 16 < 16 by omega)
  have hlow := isDigit_hexDigit (show c.toNat % 16 < 16 by omega)
  show (isDigit _ && isDigit _) = true ↔ _
  rw [Bool.and_eq_true, hhigh, hlow]
  rfl

/-- What is replaced is replaced by an escape that is let pass. -/
def Settled (A : Alphabet) (s : List UInt8) : Prop :=
  ∀ c t, c :: t <:+ s → Replaced A c t → DecimalCode c

theorem settled_cons : Settled A (c :: t) ↔ (Replaced A c t → DecimalCode c) ∧ Settled A t := by
  unfold Settled
  simp only [List.suffix_cons_iff]
  constructor
  · exact fun h => ⟨h c t (.inl rfl), fun c' t' hsuffix => h c' t' (.inr hsuffix)⟩
  · rintro ⟨hhead, htail⟩ c' t' (heq | hsuffix)
    · cases heq
      exact hhead
    · exact htail c' t' hsuffix

theorem not_replaced_of_twoDigits (h : twoDigits t = true) : ¬ Replaced A 37 t :=
  fun hreplaced => hreplaced.2 ⟨rfl, h⟩

theorem encode_encode_iff (s : List UInt8) : encode A (encode A s) = encode A s ↔ Settled A s := by
  induction s with
  | nil =>
    refine iff_of_true rfl fun c t hsuffix => ?_
    exact absurd (List.suffix_nil.mp hsuffix) (List.cons_ne_nil _ _)
  | cons c s ih =>
    rw [settled_cons, ← ih]
    by_cases h : Replaced A c s
    · have hdigits : encode A ((escapeOf c).tail ++ encode A s) =
          (escapeOf c).tail ++ encode A (encode A s) := encode_digits (hexDigit_isSome c)
      have hescape : escapeOf c ++ encode A s = 37 :: ((escapeOf c).tail ++ encode A s) := rfl
      rw [encode_replaced h, hescape]
      by_cases hcode : DecimalCode c
      · rw [encode_kept (not_replaced_of_twoDigits (twoDigits_escapeOf.mpr hcode)), hdigits,
          List.cons_inj_right, List.append_cancel_left_eq]
        exact (and_iff_right fun _ => hcode).symm
      · refine iff_of_false (fun heq => ?_) fun hno => hcode (hno.1 h)
        have hreplaced : Replaced A 37 ((escapeOf c).tail ++ encode A s) :=
          ⟨A.percent, fun hkept => hcode (twoDigits_escapeOf.mp hkept.2)⟩
        have hlonger := length_le_encode (A := A) (encode A s)
        have hlength := congrArg List.length heq
        rw [encode_replaced hreplaced, hdigits] at hlength
        simp only [List.length_append, List.length_cons, escapeOf] at hlength
        omega
    · have hkept : ¬ Replaced A c (encode A s) := by
        rcases kept_cases h with hc | ⟨rfl, x, y, rest, rfl, hx, hy⟩
        · exact fun hreplaced => hreplaced.1 hc
        · rw [encode_digits (octet_isSome_of_isDigit hx hy)]
          exact not_replaced_of_twoDigits (twoDigits_iff.mpr ⟨x, y, _, rfl, hx, hy⟩)
      rw [encode_kept h, encode_kept hkept, List.cons_inj_right]
      exact (and_iff_right fun hreplaced => absurd hreplaced h).symm

/-! ## Decoding what has been encoded -/

/-- Every escape in the string is one that is let pass. -/
def DecimalEscapes (s : List UInt8) : Prop :=
  ∀ x y t, 37 :: x :: y :: t <:+ s → (octet x y).isSome = true →
    isDigit x = true ∧ isDigit y = true

theorem decimalEscapes_tail (h : ∀ x y rest, t = x :: y :: rest → c = 37 →
    (octet x y).isSome = true → isDigit x = true ∧ isDigit y = true) :
    DecimalEscapes (c :: t) ↔ DecimalEscapes t := by
  unfold DecimalEscapes
  simp only [List.suffix_cons_iff]
  constructor
  · exact fun hall x y rest hsuffix => hall x y rest (.inr hsuffix)
  · rintro hall x y rest (heq | hsuffix)
    · cases heq
      exact h x y rest rfl rfl
    · exact hall x y rest hsuffix

theorem decimalEscapes_digits {x y : UInt8} (h : (octet x y).isSome = true) :
    DecimalEscapes (x :: y :: t) ↔ DecimalEscapes t := by
  obtain ⟨hx, hy⟩ := octet_isSome.mp h
  rw [decimalEscapes_tail fun _ _ _ _ heq => absurd heq (ne_percent hx),
    decimalEscapes_tail fun _ _ _ _ heq => absurd heq (ne_percent hy)]

/-- A percent sign that is replaced comes back as it was. -/
theorem decode_encode_percent (h : twoDigits t = false) :
    decode (encode A (37 :: t)) = 37 :: decode (encode A t) := by
  have hreplaced : Replaced A 37 t :=
    ⟨A.percent, fun hkept => Bool.false_ne_true (h.symm.trans hkept.2)⟩
  rw [encode_replaced hreplaced, decode_escapeOf]

theorem decode_encode_plain (hc : c ≠ 37) :
    decode (encode A (c :: t)) = c :: decode (encode A t) := by
  by_cases h : Replaced A c t
  · rw [encode_replaced h, decode_escapeOf]
  · rw [encode_kept h, decode_plain hc]

theorem decode_encode_digits {x y b : UInt8} (hx : isDigit x = true) (hy : isDigit y = true)
    (hb : octet x y = some b) :
    decode (encode A (37 :: x :: y :: t)) = b :: decode (encode A t) := by
  have hdigits : twoDigits (x :: y :: t) = true := twoDigits_iff.mpr ⟨x, y, t, rfl, hx, hy⟩
  rw [encode_kept (not_replaced_of_twoDigits hdigits), encode_digits (hb ▸ rfl), decode_octet hb]

theorem twoDigits_of_letters {x y : UInt8} (hnot : ¬ (isDigit x = true ∧ isDigit y = true)) :
    twoDigits (x :: y :: t) = false := by
  rw [← Bool.not_eq_true, twoDigits_iff]
  rintro ⟨x', y', rest, heq, hx, hy⟩
  cases heq
  exact hnot ⟨hx, hy⟩

theorem decode_encode_letters {x y : UInt8} (h : (octet x y).isSome = true)
    (hnot : ¬ (isDigit x = true ∧ isDigit y = true)) :
    decode (encode A (37 :: x :: y :: t)) = 37 :: x :: y :: decode (encode A t) := by
  obtain ⟨hx, hy⟩ := octet_isSome.mp h
  rw [decode_encode_percent (twoDigits_of_letters hnot), encode_digits h, decode_plain (ne_percent hx),
    decode_plain (ne_percent hy)]

theorem twoDigits_of_bare (h : ∀ x y rest, t = x :: y :: rest → octet x y = none) :
    twoDigits t = false := by
  rw [← Bool.not_eq_true, twoDigits_iff]
  rintro ⟨x, y, rest, rfl, hx, hy⟩
  have hsome := octet_isSome_of_isDigit hx hy
  rw [h x y rest rfl] at hsome
  exact absurd hsome Bool.false_ne_true

theorem length_decode_le (s : List UInt8) :
    (decode s).length ≤ (decode (encode A s)).length := by
  generalize hlength : s.length = n
  induction n using Nat.strong_induction_on generalizing s with
  | _ n ih =>
    subst hlength
    cases front s with
    | nil => exact Nat.le_refl _
    | plain c s hc =>
      rw [decode_plain hc, decode_encode_plain hc]
      exact Nat.succ_le_succ (ih _ (Nat.lt_succ_self _) s rfl)
    | bare s h =>
      rw [decode_bare h, decode_encode_percent (twoDigits_of_bare h)]
      exact Nat.succ_le_succ (ih _ (Nat.lt_succ_self _) s rfl)
    | octet x y s h =>
      obtain ⟨b, hb⟩ := Option.isSome_iff_exists.mp h
      have htail := ih s.length (by simp only [List.length_cons]; omega) s rfl
      rw [decode_octet hb, List.length_cons]
      by_cases hdigits : isDigit x = true ∧ isDigit y = true
      · rw [decode_encode_digits hdigits.1 hdigits.2 hb]
        exact Nat.succ_le_succ htail
      · rw [decode_encode_letters h hdigits, List.length_cons, List.length_cons,
          List.length_cons]
        omega

theorem decode_encode_iff (s : List UInt8) :
    decode (encode A s) = decode s ↔ DecimalEscapes s := by
  generalize hlength : s.length = n
  induction n using Nat.strong_induction_on generalizing s with
  | _ n ih =>
    subst hlength
    cases front s with
    | nil =>
      refine iff_of_true rfl fun x y t hsuffix => ?_
      exact absurd (List.suffix_nil.mp hsuffix) (List.cons_ne_nil _ _)
    | plain c s hc =>
      rw [decode_plain hc, decode_encode_plain hc, List.cons_inj_right,
        ih _ (Nat.lt_succ_self _) s rfl]
      exact (decimalEscapes_tail fun _ _ _ _ heq => absurd heq hc).symm
    | bare s h =>
      rw [decode_bare h, decode_encode_percent (twoDigits_of_bare h), List.cons_inj_right,
        ih _ (Nat.lt_succ_self _) s rfl]
      refine (decimalEscapes_tail fun x y rest heq _ hsome => ?_).symm
      rw [h x y rest heq] at hsome
      exact absurd hsome Bool.false_ne_true
    | octet x y s h =>
      obtain ⟨b, hb⟩ := Option.isSome_iff_exists.mp h
      by_cases hdigits : isDigit x = true ∧ isDigit y = true
      · have hhead : DecimalEscapes (37 :: x :: y :: s) ↔ DecimalEscapes (x :: y :: s) := by
          refine decimalEscapes_tail fun x' y' rest heq _ _ => ?_
          cases heq
          exact hdigits
        rw [decode_octet hb, decode_encode_digits hdigits.1 hdigits.2 hb, List.cons_inj_right,
          hhead, decimalEscapes_digits h]
        exact ih s.length (by simp only [List.length_cons]; omega) s rfl
      · refine iff_of_false (fun heq => ?_) fun hall => hdigits (hall x y s List.suffix_rfl h)
        have hle := length_decode_le (A := A) s
        have hlengths := congrArg List.length heq
        rw [decode_octet hb, decode_encode_letters h hdigits] at hlengths
        simp only [List.length_cons] at hlengths
        omega

/-- An encoded string is left as it is when all its escapes are let pass. -/
theorem Encoded.encode_eq_self_iff (h : Encoded A t) : encode A t = t ↔ DecimalEscapes t := by
  induction h with
  | nil =>
    refine iff_of_true rfl fun x y t hsuffix => ?_
    exact absurd (List.suffix_nil.mp hsuffix) (List.cons_ne_nil _ _)
  | legal c t hc _ ih =>
    have hpercent : c ≠ 37 := fun heq => A.percent (heq ▸ hc)
    rw [encode_legal hc, List.cons_inj_right, ih]
    exact (decimalEscapes_tail fun _ _ _ _ heq => absurd heq hpercent).symm
  | escape x y t h _ ih =>
    by_cases hdigits : isDigit x = true ∧ isDigit y = true
    · have hkept : twoDigits (x :: y :: t) = true :=
        twoDigits_iff.mpr ⟨x, y, t, rfl, hdigits.1, hdigits.2⟩
      have hhead : DecimalEscapes (37 :: x :: y :: t) ↔ DecimalEscapes (x :: y :: t) := by
        refine decimalEscapes_tail fun x' y' rest heq _ _ => ?_
        cases heq
        exact hdigits
      rw [encode_kept (not_replaced_of_twoDigits hkept), encode_digits h, hhead,
        decimalEscapes_digits h, List.cons_inj_right, List.cons_inj_right, List.cons_inj_right, ih]
    · refine iff_of_false (fun heq => ?_) fun hall => hdigits (hall x y t List.suffix_rfl h)
      have hreplaced : Replaced A 37 (x :: y :: t) := ⟨A.percent, fun hkept =>
        Bool.false_ne_true ((twoDigits_of_letters hdigits).symm.trans hkept.2)⟩
      have hlonger := length_le_encode (A := A) (x :: y :: t)
      have hlength := congrArg List.length heq
      rw [encode_replaced hreplaced] at hlength
      simp only [List.length_append, List.length_cons, escapeOf] at hlength hlonger
      omega

end FreeAmp.Lib.Uri
