/-
  Xml/Entities.lean --- what `Parse::UnXMLize` makes of a text, from `lib/xml/src/Parse.cpp`.

      full_entity, full_cons    one entity, replaced until there is none left
      unXMLize_named            the five of them, from left to right
      unXMLize_eq_decode_iff    when that is what a single pass makes of the text
      unXMLize_escape_iff       when it undoes the escaping
-/
import FreeAmp.Lib.Search
import FreeAmp.Xml.Parse

namespace FreeAmp.Xml

open FreeAmp.Base FreeAmp.Lib

/-! ## Escaping, and a single pass -/

/-- An entity is an ampersand and a name, and stands for a character. -/
def entityDefs : List (Text × UInt8) :=
  [(bytes "amp;", 38), (bytes "lt;", 60), (bytes "gt;", 62), (bytes "apos;", 39),
    (bytes "quot;", 34)]

theorem entities_eq : entities = entityDefs.map fun d => (38 :: d.1, [d.2]) := by
  decide

/-- The characters that have an entity are written as their entities. -/
def escapeChar (c : UInt8) : Text :=
  match entityDefs.find? fun d => d.2 == c with
  | some d => 38 :: d.1
  | none => [c]

def escape (s : Text) : Text := s.flatMap escapeChar

/-- The entity whose name stands at the beginning. -/
def named (t : Text) : Option (Text × UInt8) := entityDefs.find? fun d => d.1.isPrefixOf t

/-- Entities are replaced from left to right, once; the number is that of the characters that are
still to be skipped. -/
def decodeFrom : Nat → Text → Text
  | _, [] => []
  | skip + 1, _ :: t => decodeFrom skip t
  | 0, c :: t =>
    if c = 38 then
      match named t with
      | some d => d.2 :: decodeFrom d.1.length t
      | none => c :: decodeFrom 0 t
    else c :: decodeFrom 0 t

def decode (t : Text) : Text := decodeFrom 0 t

/-! ## The five entities -/

theorem entityDef_name {d : Text × UInt8} (h : d ∈ entityDefs) : d.1 ≠ [] ∧ 38 ∉ d.1 := by
  have hall : ∀ d ∈ entityDefs, d.1 ≠ [] ∧ 38 ∉ d.1 := by decide
  exact hall d h

/-- No name has one of the characters in it that entities stand for. -/
theorem entityDef_char {d d' : Text × UInt8} (h : d ∈ entityDefs) (h' : d' ∈ entityDefs) :
    d'.2 ∉ d.1 := by
  have hall : ∀ d ∈ entityDefs, ∀ d' ∈ entityDefs, d'.2 ∉ d.1 := by decide
  exact hall d h d' h'

theorem entityDef_unique {d d' : Text × UInt8} (h : d ∈ entityDefs) (h' : d' ∈ entityDefs)
    {t : Text} (hbegin : d.1 <+: d'.1 ++ t) : d = d' := by
  have hall : ∀ d ∈ entityDefs, ∀ d' ∈ entityDefs, d.1.isPrefixOf d'.1 = true → d = d' := by
    decide
  rcases List.prefix_or_prefix_of_prefix hbegin (List.prefix_append d'.1 t) with hle | hle
  · exact hall d h d' h' (List.isPrefixOf_iff_prefix.mpr hle)
  · exact (hall d' h' d h (List.isPrefixOf_iff_prefix.mpr hle)).symm

theorem named_eq_some {t : Text} {d : Text × UInt8} (h : named t = some d) :
    d ∈ entityDefs ∧ d.1 <+: t := by
  unfold named at h
  have hbegin := List.find?_some h
  exact ⟨List.mem_of_find?_eq_some h, List.isPrefixOf_iff_prefix.mp hbegin⟩

theorem named_append {d : Text × UInt8} (h : d ∈ entityDefs) (t : Text) :
    named (d.1 ++ t) = some d := by
  cases hfind : named (d.1 ++ t) with
  | none =>
    have hnone := List.find?_eq_none.mp hfind d h
    exact absurd (List.isPrefixOf_iff_prefix.mpr (List.prefix_append _ _)) hnone
  | some d' =>
    obtain ⟨hmem, hbegin⟩ := named_eq_some hfind
    rw [entityDef_unique hmem h hbegin]

theorem named_eq_none {t : Text} : named t = none ↔ ∀ d ∈ entityDefs, ¬ d.1 <+: t := by
  unfold named
  rw [List.find?_eq_none]
  simp only [List.isPrefixOf_iff_prefix]

/-! ## The single pass -/

theorem decodeFrom_drop (skip : Nat) (t : Text) : decodeFrom skip t = decode (t.drop skip) := by
  induction skip generalizing t with
  | zero => rfl
  | succ skip ih =>
    cases t with
    | nil => rfl
    | cons c t =>
      rw [decodeFrom, List.drop_succ_cons]
      exact ih t

theorem decode_cons {c : UInt8} (hc : c ≠ 38) (t : Text) : decode (c :: t) = c :: decode t := by
  unfold decode
  rw [decodeFrom, if_neg hc]

theorem decode_entity {d : Text × UInt8} (h : d ∈ entityDefs) (t : Text) :
    decode (38 :: (d.1 ++ t)) = d.2 :: decode t := by
  unfold decode
  rw [decodeFrom, if_pos rfl, named_append h]
  simp only
  rw [decodeFrom_drop, List.drop_left]
  rfl

theorem decode_ampersand {t : Text} (h : named t = none) : decode (38 :: t) = 38 :: decode t := by
  unfold decode
  rw [decodeFrom, if_pos rfl, h]

theorem decode_append {x : Text} (hx : 38 ∉ x) (t : Text) : decode (x ++ t) = x ++ decode t := by
  induction x with
  | nil => rfl
  | cons c x ih =>
    rw [List.mem_cons, not_or] at hx
    rw [List.cons_append, decode_cons (Ne.symm hx.1), ih hx.2, List.cons_append]

theorem escapeChar_cases (c : UInt8) :
    (∃ d ∈ entityDefs, d.2 = c ∧ escapeChar c = 38 :: d.1) ∨ c ≠ 38 ∧ escapeChar c = [c] := by
  unfold escapeChar
  cases hfind : entityDefs.find? fun d => d.2 == c with
  | some d => exact .inl ⟨d, List.mem_of_find?_eq_some hfind, by simpa using List.find?_some hfind, rfl⟩
  | none =>
    refine .inr ⟨?_, rfl⟩
    rintro rfl
    exact absurd hfind (by decide)

theorem escape_cons (c : UInt8) (s : Text) : escape (c :: s) = escapeChar c ++ escape s :=
  List.flatMap_cons

theorem decode_escape (s : Text) : decode (escape s) = s := by
  induction s with
  | nil => rfl
  | cons c s ih =>
    rw [escape_cons]
    rcases escapeChar_cases c with ⟨d, hd, hchar, heq⟩ | ⟨hc, heq⟩
    · rw [heq, List.cons_append, decode_entity hd, ih, hchar]
    · rw [heq, List.singleton_append, decode_cons hc, ih]

/-! ## One entity, replaced until there is none left -/

theorem find_eq (entity t : Text) (h : entity ≠ []) : find entity t = firstPlace entity t := by
  induction t with
  | nil =>
    unfold find firstPlace
    rw [if_neg h]
    cases entity with
    | nil => exact absurd rfl h
    | cons c entity => rfl
  | cons c t ih =>
    have hfirst : find entity (c :: t) =
        if entity.isPrefixOf (c :: t) then some 0 else (find entity t).map (· + 1) := by
      unfold find
      rw [List.length_cons, List.range_succ_eq_map, List.find?_cons]
      cases hp : entity.isPrefixOf ((c :: t).drop 0) with
      | true =>
        rw [List.drop_zero] at hp
        rw [if_pos hp]
      | false =>
        rw [List.drop_zero] at hp
        rw [if_neg (by rw [hp]; exact Bool.false_ne_true), List.find?_map]
        rfl
    rw [hfirst, firstPlace, ih]
    simp only [List.isPrefixOf_iff_prefix]

variable {d : Text × UInt8}

/-- `replaceEntity` with as many rounds as it takes. -/
def full (d : Text × UInt8) (t : Text) : Text := replaceEntity (38 :: d.1) [d.2] t.length t

theorem length_replaced (h : d ∈ entityDefs) {t : Text} {pos : Nat}
    (hfind : find (38 :: d.1) t = some pos) :
    (t.take pos ++ [d.2] ++ t.drop (pos + (38 :: d.1).length)).length < t.length := by
  rw [find_eq _ _ (List.cons_ne_nil _ _)] at hfind
  have hlength := (firstPlace_spec hfind).length_le
  have hname := List.length_pos_iff.mpr (entityDef_name h).1
  rw [List.length_drop] at hlength
  rw [List.length_append, List.length_append, List.length_take, List.length_drop,
    List.length_singleton]
  rw [List.length_cons] at hlength ⊢
  omega

theorem replaceEntity_more (h : d ∈ entityDefs) {rounds : Nat} {t : Text}
    (hrounds : t.length ≤ rounds) : replaceEntity (38 :: d.1) [d.2] rounds t = full d t := by
  have hstep : ∀ rounds (t : Text), t.length ≤ rounds →
      replaceEntity (38 :: d.1) [d.2] (rounds + 1) t = replaceEntity (38 :: d.1) [d.2] rounds t := by
    intro rounds
    induction rounds with
    | zero =>
      intro t ht
      obtain rfl := List.eq_nil_of_length_eq_zero (Nat.le_zero.mp ht)
      have hnil : find (38 :: d.1) [] = none := by
        rw [find_eq _ _ (List.cons_ne_nil _ _)]
        exact if_neg (List.cons_ne_nil _ _)
      simp only [replaceEntity, hnil]
    | succ rounds ih =>
      intro t ht
      rw [replaceEntity, replaceEntity]
      cases hfind : find (38 :: d.1) t with
      | none => rfl
      | some pos =>
        have hless := length_replaced h hfind
        exact ih _ (by omega)
  induction rounds with
  | zero =>
    rw [full, Nat.le_zero.mp hrounds]
  | succ rounds ih =>
    rcases Nat.lt_or_eq_of_le hrounds with hlt | heq
    · rw [hstep _ _ (Nat.le_of_lt_succ hlt), ih (Nat.le_of_lt_succ hlt)]
    · rw [full, heq]

theorem full_none {t : Text} (hfind : find (38 :: d.1) t = none) : full d t = t := by
  unfold full
  cases t with
  | nil => rfl
  | cons c t =>
    rw [List.length_cons, replaceEntity]
    rw [hfind]

theorem full_some (h : d ∈ entityDefs) {t : Text} {pos : Nat}
    (hfind : find (38 :: d.1) t = some pos) :
    full d t = full d (t.take pos ++ [d.2] ++ t.drop (pos + (38 :: d.1).length)) := by
  have hless := length_replaced h hfind
  obtain ⟨n, hn⟩ : ∃ n, t.length = n + 1 := ⟨t.length - 1, by omega⟩
  have hrest := replaceEntity_more h
    (show (t.take pos ++ [d.2] ++ t.drop (pos + (38 :: d.1).length)).length ≤ n by omega)
  rw [← hrest, full, hn, replaceEntity, hfind]

theorem full_entity (h : d ∈ entityDefs) (t : Text) :
    full d (38 :: (d.1 ++ t)) = full d (d.2 :: t) := by
  have hfind : find (38 :: d.1) (38 :: (d.1 ++ t)) = some 0 := by
    rw [find_eq _ _ (List.cons_ne_nil _ _)]
    exact firstPlace_cons_here (List.prefix_append (38 :: d.1) t)
  rw [full_some h hfind, Nat.zero_add, ← List.cons_append, List.drop_left]
  rfl

theorem full_cons (h : d ∈ entityDefs) {c : UInt8} {t : Text} (hc : ¬ 38 :: d.1 <+: c :: t) :
    full d (c :: t) = c :: full d t := by
  generalize hlength : t.length = n
  induction n using Nat.strong_induction_on generalizing t with
  | _ n ih =>
    have hcons : find (38 :: d.1) (c :: t) = (find (38 :: d.1) t).map (· + 1) := by
      rw [find_eq _ _ (List.cons_ne_nil _ _), find_eq _ _ (List.cons_ne_nil _ _)]
      exact firstPlace_cons_later hc
    cases hfind : find (38 :: d.1) t with
    | none =>
      rw [hfind] at hcons
      rw [full_none hcons, full_none hfind]
    | some pos =>
      rw [hfind] at hcons
      have hless := length_replaced h hfind
      rw [full_some h hcons, full_some h hfind]
      have hshift : (c :: t).take (pos + 1) ++ [d.2] ++
          (c :: t).drop (pos + 1 + (38 :: d.1).length) =
            c :: (t.take pos ++ [d.2] ++ t.drop (pos + (38 :: d.1).length)) := by
        rw [List.take_succ_cons, show pos + 1 + (38 :: d.1).length =
          pos + (38 :: d.1).length + 1 by omega, List.drop_succ_cons]
        rfl
      rw [hshift]
      refine ih _ (hlength ▸ hless) (fun hbegin => hc ?_) rfl
      -- what has been replaced is not in the name
      rw [List.cons_prefix_cons] at hbegin ⊢
      refine ⟨hbegin.1, ?_⟩
      rw [List.append_assoc] at hbegin
      have hplace := (firstPlace_spec (find_eq _ _ (List.cons_ne_nil _ _) ▸ hfind)).length_le
      rw [List.length_drop, List.length_cons] at hplace
      have htake : (t.take pos).length = pos := by
        rw [List.length_take]
        omega
      rcases Nat.lt_or_ge pos d.1.length with hlt | hge
      · exfalso
        obtain ⟨u, hu⟩ := hbegin.2
        have hat := congrArg (fun l => l[pos]?) hu
        rw [List.getElem?_append_left hlt, List.getElem?_append_right htake.le, htake,
          Nat.sub_self] at hat
        exact entityDef_char h h (List.mem_of_getElem? hat)
      · have hfront := List.prefix_of_prefix_length_le hbegin.2 (List.prefix_append _ _)
          (by rw [htake]; exact hge)
        exact hfront.trans (List.take_prefix _ _)

theorem full_append (h : d ∈ entityDefs) {x : Text} (hx : 38 ∉ x) (t : Text) :
    full d (x ++ t) = x ++ full d t := by
  induction x with
  | nil => rfl
  | cons c x ih =>
    rw [List.mem_cons, not_or] at hx
    rw [List.cons_append, full_cons h (fun hp => hx.1 (List.cons_prefix_cons.mp hp).1), ih hx.2,
      List.cons_append]

/-- What begins a text behind the replacements has begun it before. -/
theorem prefix_of_full (h : d ∈ entityDefs) {x : Text} (hx : 38 ∉ x) (hchar : d.2 ∉ x) {t : Text}
    (hbegin : x <+: full d t) : x <+: t := by
  generalize hlength : t.length = n
  induction n using Nat.strong_induction_on generalizing t x with
  | _ n ih =>
    cases x with
    | nil => exact List.nil_prefix
    | cons c x =>
      rw [List.mem_cons, not_or] at hx hchar
      cases t with
      | nil => exact hbegin
      | cons c' t =>
        by_cases hhere : 38 :: d.1 <+: c' :: t
        · exfalso
          obtain ⟨rest, hrest⟩ := hhere
          rw [← hrest, List.cons_append, full_entity h] at hbegin
          have hshort : (d.2 :: rest).length < n := by
            have hname := List.length_pos_iff.mpr (entityDef_name h).1
            rw [← hlength, ← hrest, List.length_append, List.length_cons, List.length_cons]
            omega
          have hbegins := ih _ hshort (by simpa using hx) (by simpa using hchar) hbegin rfl
          exact hchar.1 (List.cons_prefix_cons.mp hbegins).1.symm
        · rw [full_cons h hhere, List.cons_prefix_cons] at hbegin
          rw [List.cons_prefix_cons]
          exact ⟨hbegin.1, ih t.length (by rw [← hlength]; exact Nat.lt_succ_self _) hx.2
            hchar.2 hbegin.2 rfl⟩

/-! ## The other four -/

/-- Several entities, one after the other. -/
def passes (ds : List (Text × UInt8)) (t : Text) : Text := ds.foldl (fun t d => full d t) t

variable {ds : List (Text × UInt8)}

theorem passes_cons (hds : ∀ d ∈ ds, d ∈ entityDefs) {c : UInt8} {t : Text}
    (hc : c = 38 → ∀ d ∈ ds, ¬ d.1 <+: t) : passes ds (c :: t) = c :: passes ds t := by
  induction ds generalizing t with
  | nil => rfl
  | cons d ds ih =>
    rw [List.forall_mem_cons] at hds
    have hnot : ¬ 38 :: d.1 <+: c :: t := by
      rw [List.cons_prefix_cons]
      exact fun hp => hc hp.1.symm d List.mem_cons_self hp.2
    unfold passes at ih ⊢
    rw [List.foldl_cons, full_cons hds.1 hnot, List.foldl_cons]
    refine ih hds.2 fun heq d' hd' hp => hc heq d' (List.mem_cons_of_mem _ hd') ?_
    have hd'' := hds.2 d' hd'
    exact prefix_of_full hds.1 (entityDef_name hd'').2 (entityDef_char hd'' hds.1) hp

theorem passes_entity (hds : ∀ d ∈ ds, d ∈ entityDefs ∧ d.2 ≠ 38) {d : Text × UInt8} (hd : d ∈ ds)
    (t : Text) : passes ds (38 :: (d.1 ++ t)) = d.2 :: passes ds t := by
  induction ds generalizing t with
  | nil => exact absurd hd List.not_mem_nil
  | cons d' ds ih =>
    have hall := List.forall_mem_cons.mp hds
    have hmem := (hds d hd).1
    by_cases heq : d = d'
    · subst heq
      have hnot : ¬ 38 :: d.1 <+: d.2 :: t := fun hp =>
        (hds d hd).2 (List.cons_prefix_cons.mp hp).1.symm
      unfold passes
      rw [List.foldl_cons, full_entity hmem, full_cons hmem hnot, List.foldl_cons]
      exact passes_cons (fun d hd => (hall.2 d hd).1) fun hc => absurd hc (hds d hd).2
    · have hnot : ¬ 38 :: d'.1 <+: 38 :: (d.1 ++ t) := fun hp =>
        heq (entityDef_unique hall.1.1 hmem (List.cons_prefix_cons.mp hp).2).symm
      unfold passes at ih ⊢
      rw [List.foldl_cons, full_cons hall.1.1 hnot, full_append hall.1.1 (entityDef_name hmem).2,
        List.foldl_cons]
      exact ih hall.2 ((List.mem_cons.mp hd).resolve_left heq) _

/-! ## All five, from left to right -/

/-- The entity that is replaced first, and makes ampersands. -/
def amp : Text × UInt8 := (bytes "amp;", 38)

theorem amp_mem : amp ∈ entityDefs := List.mem_cons_self

theorem unXMLize_eq_passes (t : Text) : unXMLize t = passes entityDefs t := by
  unfold unXMLize
  rw [entities_eq, List.foldl_map]
  rfl

theorem unXMLize_cons {c : UInt8} (hc : c ≠ 38) (t : Text) :
    unXMLize (c :: t) = c :: unXMLize t := by
  rw [unXMLize_eq_passes, unXMLize_eq_passes]
  exact passes_cons (fun d hd => hd) fun heq => absurd heq hc

theorem unXMLize_plain {t : Text} (h : named t = none) :
    unXMLize (38 :: t) = 38 :: unXMLize t := by
  rw [unXMLize_eq_passes, unXMLize_eq_passes]
  exact passes_cons (fun d hd => hd) fun _ => named_eq_none.mp h

/-- The ampersand that has been decoded stands there like one that was there before. -/
theorem unXMLize_amp (t : Text) : unXMLize (38 :: (amp.1 ++ t)) = unXMLize (38 :: t) := by
  rw [unXMLize_eq_passes, unXMLize_eq_passes]
  show passes entityDefs.tail (full amp (38 :: (amp.1 ++ t))) =
    passes entityDefs.tail (full amp (38 :: t))
  rw [full_entity amp_mem]
  rfl

theorem eq_amp_or {d : Text × UInt8} (h : d ∈ entityDefs) : d = amp ∨ d ∈ entityDefs.tail :=
  List.mem_cons.mp h

theorem others {d : Text × UInt8} (h : d ∈ entityDefs.tail) :
    d ∈ entityDefs ∧ d.2 ≠ 38 ∧ d ≠ amp := by
  have hall : ∀ d ∈ entityDefs.tail, d ∈ entityDefs ∧ d.2 ≠ 38 ∧ d ≠ amp := by decide
  exact hall d h

theorem unXMLize_named {d : Text × UInt8} (h : d ∈ entityDefs.tail) (t : Text) :
    unXMLize (38 :: (d.1 ++ t)) = d.2 :: unXMLize t := by
  obtain ⟨hmem, -, hne⟩ := others h
  have hnot : ¬ 38 :: amp.1 <+: 38 :: (d.1 ++ t) := fun hp =>
    hne (entityDef_unique amp_mem hmem (List.cons_prefix_cons.mp hp).2).symm
  rw [unXMLize_eq_passes, unXMLize_eq_passes]
  show passes entityDefs.tail (full amp (38 :: (d.1 ++ t))) =
    d.2 :: passes entityDefs.tail (full amp t)
  rw [full_cons amp_mem hnot, full_append amp_mem (entityDef_name hmem).2]
  exact passes_entity (fun d hd => ⟨(others hd).1, (others hd).2.1⟩) h _

/-! ## When that is a single pass -/

/-- No escaped ampersand stands before the name of an entity. -/
def NoChain (t : Text) : Prop := ∀ d ∈ entityDefs, ¬ 38 :: (amp.1 ++ d.1) <:+: t

theorem noChain_nil : NoChain [] := by
  intro d _ hinfix
  exact List.cons_ne_nil _ _ (List.infix_nil.mp hinfix)

theorem noChain_cons {c : UInt8} {t : Text}
    (h : ∀ d ∈ entityDefs, ¬ 38 :: (amp.1 ++ d.1) <+: c :: t) : NoChain (c :: t) ↔ NoChain t := by
  unfold NoChain
  refine forall₂_congr fun d hd => not_congr ?_
  rw [List.infix_cons_iff]
  exact or_iff_right (h d hd)

theorem noChain_append {x : Text} (hx : 38 ∉ x) (t : Text) : NoChain (x ++ t) ↔ NoChain t := by
  induction x with
  | nil => rfl
  | cons c x ih =>
    rw [List.mem_cons, not_or] at hx
    rw [List.cons_append, noChain_cons fun d _ hp => hx.1 (List.cons_prefix_cons.mp hp).1, ih hx.2]

theorem noChain_plain {t : Text} (h : named t = none) : NoChain (38 :: t) ↔ NoChain t := by
  refine noChain_cons fun d _ hp => named_eq_none.mp h amp amp_mem ?_
  exact (List.prefix_append _ _).trans (List.cons_prefix_cons.mp hp).2

theorem noChain_named {d : Text × UInt8} (h : d ∈ entityDefs.tail) (t : Text) :
    NoChain (38 :: (d.1 ++ t)) ↔ NoChain t := by
  obtain ⟨hmem, -, hne⟩ := others h
  rw [noChain_cons, noChain_append (entityDef_name hmem).2]
  intro d' _ hp
  have hamp := (List.prefix_append amp.1 d'.1).trans (List.cons_prefix_cons.mp hp).2
  exact hne (entityDef_unique amp_mem hmem hamp).symm

theorem noChain_amp (t : Text) :
    NoChain (38 :: (amp.1 ++ t)) ↔ (∀ d ∈ entityDefs, ¬ d.1 <+: t) ∧ NoChain t := by
  have hrest := noChain_append (entityDef_name amp_mem).2 t
  unfold NoChain at hrest ⊢
  simp only [List.infix_cons_iff, not_or, List.cons_prefix_cons, true_and,
    List.prefix_append_right_inj]
  rw [← hrest]
  exact forall₂_and

/-- What a text may begin with. -/
inductive Front : Text → Prop
  | nil : Front []
  | cons (c : UInt8) (t : Text) (hc : c ≠ 38) : Front (c :: t)
  | plain (t : Text) (h : named t = none) : Front (38 :: t)
  | amp (t : Text) : Front (38 :: (amp.1 ++ t))
  | named (d : Text × UInt8) (t : Text) (h : d ∈ entityDefs.tail) : Front (38 :: (d.1 ++ t))

theorem front (t : Text) : Front t := by
  cases t with
  | nil => exact .nil
  | cons c t =>
    by_cases hc : c = 38
    · subst hc
      cases hnamed : named t with
      | none => exact .plain t hnamed
      | some d =>
        obtain ⟨hmem, rest, rfl⟩ := named_eq_some hnamed
        rcases eq_amp_or hmem with rfl | hother
        · exact .amp rest
        · exact .named d rest hother
    · exact .cons c t hc

theorem length_entity {d : Text × UInt8} (h : d ∈ entityDefs) (t : Text) :
    t.length + 1 < (38 :: (d.1 ++ t)).length := by
  have hname := List.length_pos_iff.mpr (entityDef_name h).1
  rw [List.length_cons, List.length_append]
  omega

theorem decode_amp_length {t : Text} : (decode (38 :: t)).length ≤ (decode t).length + 1 := by
  cases hnamed : named t with
  | none => rw [decode_ampersand hnamed, List.length_cons]
  | some d =>
    obtain ⟨hmem, rest, rfl⟩ := named_eq_some hnamed
    rw [decode_entity hmem, decode_append (entityDef_name hmem).2, List.length_cons,
      List.length_append]
    omega

theorem length_unXMLize_le (t : Text) : (unXMLize t).length ≤ (decode t).length := by
  generalize hlength : t.length = n
  induction n using Nat.strong_induction_on generalizing t with
  | _ n ih =>
    cases front t with
    | nil => exact Nat.le_refl _
    | cons c t hc =>
      rw [unXMLize_cons hc, decode_cons hc]
      exact Nat.succ_le_succ (ih _ (hlength ▸ Nat.lt_succ_self _) t rfl)
    | plain t h =>
      rw [unXMLize_plain h, decode_ampersand h]
      exact Nat.succ_le_succ (ih _ (hlength ▸ Nat.lt_succ_self _) t rfl)
    | amp t =>
      have hshort : (38 :: t).length < n := hlength ▸ length_entity amp_mem t
      rw [unXMLize_amp, decode_entity amp_mem]
      exact (ih _ hshort _ rfl).trans decode_amp_length
    | named d t h =>
      have hshort : t.length < n :=
        Nat.lt_of_succ_lt (hlength ▸ length_entity (others h).1 t)
      rw [unXMLize_named h, decode_entity (others h).1]
      exact Nat.succ_le_succ (ih _ hshort t rfl)

/-- A chain is decoded twice, and leaves less than a single pass. -/
theorem length_chain {d : Text × UInt8} (h : d ∈ entityDefs) (t : Text) :
    (unXMLize (38 :: (amp.1 ++ (d.1 ++ t)))).length <
      (decode (38 :: (amp.1 ++ (d.1 ++ t)))).length := by
  have hname := List.length_pos_iff.mpr (entityDef_name h).1
  have hle := length_unXMLize_le (38 :: (d.1 ++ t))
  rw [decode_entity h, List.length_cons] at hle
  rw [unXMLize_amp, decode_entity amp_mem, decode_append (entityDef_name h).2, List.length_cons,
    List.length_append]
  omega

theorem unXMLize_eq_decode_iff (t : Text) : unXMLize t = decode t ↔ NoChain t := by
  generalize hlength : t.length = n
  induction n using Nat.strong_induction_on generalizing t with
  | _ n ih =>
    cases front t with
    | nil => exact iff_of_true rfl noChain_nil
    | cons c t hc =>
      have hnot : ∀ d ∈ entityDefs, ¬ 38 :: (amp.1 ++ d.1) <+: c :: t := fun d _ hp =>
        hc (List.cons_prefix_cons.mp hp).1.symm
      rw [unXMLize_cons hc, decode_cons hc, noChain_cons hnot, List.cons_inj_right]
      exact ih _ (hlength ▸ Nat.lt_succ_self _) t rfl
    | plain t h =>
      rw [unXMLize_plain h, decode_ampersand h, noChain_plain h, List.cons_inj_right]
      exact ih _ (hlength ▸ Nat.lt_succ_self _) t rfl
    | amp t =>
      have hshort : t.length < n := Nat.lt_of_succ_lt (hlength ▸ length_entity amp_mem t)
      rw [noChain_amp]
      cases hnamed : named t with
      | none =>
        rw [unXMLize_amp, unXMLize_plain hnamed, decode_entity amp_mem,
          and_iff_right (named_eq_none.mp hnamed)]
        exact (List.cons_inj_right 38).trans (ih _ hshort t rfl)
      | some d =>
        obtain ⟨hmem, rest, rfl⟩ := named_eq_some hnamed
        refine iff_of_false (fun heq => ?_) fun hno => hno.1 d hmem (List.prefix_append _ _)
        exact (length_chain hmem rest).ne (congrArg List.length heq)
    | named d t h =>
      have hshort : t.length < n :=
        Nat.lt_of_succ_lt (hlength ▸ length_entity (others h).1 t)
      rw [unXMLize_named h, decode_entity (others h).1, noChain_named h, List.cons_inj_right]
      exact ih _ hshort t rfl

/-! ## What has been escaped -/

/-- No entity stands in the text. -/
def NoEntity (s : Text) : Prop := ∀ d ∈ entityDefs, ¬ 38 :: d.1 <:+: s

/-- A name that begins the escaped text begins the text. -/
theorem prefix_escape {x : Text} (hx : ∀ d ∈ entityDefs, d.2 ∉ x) {s : Text} :
    x <+: escape s ↔ x <+: s := by
  induction s generalizing x with
  | nil => rfl
  | cons c s ih =>
    cases x with
    | nil => exact iff_of_true List.nil_prefix List.nil_prefix
    | cons c' x =>
      have hhead : ∀ d ∈ entityDefs, d.2 ≠ c' := fun d hd heq =>
        hx d hd (heq ▸ List.mem_cons_self)
      rw [escape_cons]
      rcases escapeChar_cases c with ⟨d, hd, hchar, heq⟩ | ⟨hc, heq⟩
      · rw [heq, List.cons_append, List.cons_prefix_cons, List.cons_prefix_cons]
        refine iff_of_false (fun hp => hhead amp amp_mem hp.1.symm) fun hp => ?_
        exact hhead d hd (hchar.trans hp.1.symm)
      · rw [heq, List.singleton_append, List.cons_prefix_cons, List.cons_prefix_cons,
          ih fun d hd hmem => hx d hd (List.mem_cons_of_mem _ hmem)]

theorem noChain_escape_iff (s : Text) : NoChain (escape s) ↔ NoEntity s := by
  induction s with
  | nil =>
    refine iff_of_true noChain_nil fun d _ hinfix => ?_
    exact List.cons_ne_nil _ _ (List.infix_nil.mp hinfix)
  | cons c s ih =>
    have hnames : (∀ d ∈ entityDefs, ¬ d.1 <+: escape s) ↔ ∀ d ∈ entityDefs, ¬ d.1 <+: s :=
      forall₂_congr fun d hd => not_congr (prefix_escape fun d' hd' => entityDef_char hd hd')
    have hentity : NoEntity (c :: s) ↔
        (c = 38 → ∀ d ∈ entityDefs, ¬ d.1 <+: s) ∧ NoEntity s := by
      unfold NoEntity
      simp only [List.infix_cons_iff, not_or, List.cons_prefix_cons, not_and]
      rw [forall₂_and]
      refine and_congr_left fun _ => ?_
      exact ⟨fun h hc d hd => h d hd hc.symm, fun h d hd hc => h hc.symm d hd⟩
    rw [hentity, ← ih, ← hnames, escape_cons]
    rcases escapeChar_cases c with ⟨d, hd, rfl, heq⟩ | ⟨hc, heq⟩
    · rw [heq, List.cons_append]
      rcases eq_amp_or hd with rfl | hother
      · rw [noChain_amp]
        exact and_congr_left fun _ => ⟨fun h _ => h, fun h => h rfl⟩
      · rw [noChain_named hother]
        exact (and_iff_right fun heq => absurd heq (others hother).2.1).symm
    · rw [heq, List.singleton_append, noChain_cons fun d _ hp =>
        hc (List.cons_prefix_cons.mp hp).1.symm]
      exact (and_iff_right fun heq => absurd heq hc).symm

theorem unXMLize_escape_iff (s : Text) : unXMLize (escape s) = s ↔ NoEntity s := by
  rw [← noChain_escape_iff, ← unXMLize_eq_decode_iff, decode_escape]

/-- The two conditions under which the five replacements, each over the whole text, are those of a
single pass. -/
theorem unXMLize_single_pass_iff (s : Text) :
    (unXMLize (escape s) = s ↔ NoEntity s) ∧ (unXMLize s = decode s ↔ NoChain s) :=
  ⟨unXMLize_escape_iff s, unXMLize_eq_decode_iff s⟩

/-- What the text `&lt;` has been escaped to is decoded to a bracket. -/
theorem escaped_entity_decoded :
    unXMLize (escape (bytes "&lt;")) = bytes "<" ∧ bytes "<" ≠ bytes "&lt;" ∧
      unXMLize (bytes "&amp;lt;") ≠ decode (bytes "&amp;lt;") := by
  decide

end FreeAmp.Xml
