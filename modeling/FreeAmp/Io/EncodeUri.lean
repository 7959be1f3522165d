/-
  Io/EncodeUri.lean --- `EncodeURI` of `io/http/httpinput.cpp` and of `lib/http/src/Http.cpp`.

  The two functions differ in their legal characters alone.  The string grows under the
  cursor; what is behind the cursor is encoded as `Lib/Uri.lean` encodes it, and the loop
  is given one round more than the string has characters (`encodeLoop_append`: it never
  needs more).
-/
import FreeAmp.Base.Database
import FreeAmp.Lib.Uri

namespace FreeAmp.Io

open FreeAmp.Base FreeAmp.Lib FreeAmp.Lib.Uri

/-! ## The loop -/

/-- `URI.find_first_not_of(legalCharacters, convert)` -/
def findFirstNotOf (legalCharacters URI : Text) (convert : Nat) : Option Nat :=
  ((URI.drop convert).findIdx? fun c => decide (c ∉ legalCharacters)).map (convert + ·)

def scheme : Text := bytes "http://"

/-- Where the loop starts: behind the name of the host, when there is one. `none` is `npos`, where
nothing is found any more. -/
def startOf (URI : Text) : Option Nat :=
  if scheme.isPrefixOf URI then
    ((URI.drop 7).findIdx? fun c => decide (c = 47)).map (7 + ·)
  else some 0

/-- `none`: there were not enough rounds. -/
def encodeLoop (legalCharacters : Text) : Nat → Text → Option Nat → Option Text
  | 0, _, _ => none
  | rounds + 1, URI, convert =>
    match convert.bind (findFirstNotOf legalCharacters URI) with
    | none => some URI
    | some convert =>
      if URI.getD convert 0 = 37 ∧ URI.length - convert > 2 ∧
          isDigit (URI.getD (convert + 1) 0) = true ∧
          isDigit (URI.getD (convert + 2) 0) = true then
        encodeLoop legalCharacters rounds URI (some (convert + 1))
      else
        let hex := escapeOf (URI.getD convert 0)
        encodeLoop legalCharacters rounds (URI.take convert ++ hex ++ URI.drop (convert + 1))
          (some (convert + hex.length))

def encodeURI (legalCharacters URI : Text) : Option Text :=
  encodeLoop legalCharacters (URI.length + 1) URI (startOf URI)

namespace HttpInput

def legalCharacters : Text :=
  bytes "abcdefghijklmnopqrstuvwxyzABCDEFGHIJKLMNOPQRSTUVWXYZ0123456789/?&=-."

/-- `EncodeURI` of `HttpInput`. -/
def encodeURI (URI : Text) : Option Text := Io.encodeURI legalCharacters URI

end HttpInput

namespace Http

def legalCharacters : Text :=
  bytes "abcdefghijklmnopqrstuvwxyzABCDEFGHIJKLMNOPQRSTUVWXYZ0123456789/?."

/-- `EncodeURI` of `Http`. -/
def encodeURI (URI : Text) : Option Text := Io.encodeURI legalCharacters URI

end Http

/-! ## The two alphabets -/

/-- An alphabet for paths: the solidus is in it, and the colon is not. -/
structure PathAlphabet extends Alphabet where
  solidus : 47 ∈ legal
  colon : 58 ∉ legal

theorem forall_hexValue {P : UInt8 → Prop}
    (h : ∀ n : Fin 256, (hexValue (UInt8.ofNat n.val)).isSome = true → P (UInt8.ofNat n.val)) :
    ∀ c, (hexValue c).isSome = true → P c := by
  intro c hc
  have hn := h ⟨c.toNat, c.toNat_lt⟩
  rw [UInt8.ofNat_toNat] at hn
  exact hn hc

def HttpInput.alphabet : PathAlphabet where
  legal := HttpInput.legalCharacters
  digits := forall_hexValue (by decide +kernel)
  percent := by decide
  solidus := by decide
  colon := by decide

def Http.alphabet : PathAlphabet where
  legal := Http.legalCharacters
  digits := forall_hexValue (by decide +kernel)
  percent := by decide
  solidus := by decide
  colon := by decide

/-! ## What a search finds -/

theorem findIdx?_append_cons {α : Type} {p : α → Bool} {u : List α} {c : α} (t : List α)
    (hu : ∀ x ∈ u, p x = false) (hc : p c = true) :
    (u ++ c :: t).findIdx? p = some u.length := by
  induction u with
  | nil =>
    rw [List.nil_append, List.findIdx?_cons, if_pos hc]
    rfl
  | cons x u ih =>
    rw [List.forall_mem_cons] at hu
    rw [List.cons_append, List.findIdx?_cons, if_neg (by rw [hu.1]; exact Bool.false_ne_true),
      ih hu.2]
    rfl

/-- Either nothing is found, or what stands before it is known. -/
theorem findIdx?_cases {α : Type} (p : α → Bool) (s : List α) :
    (s.findIdx? p = none ∧ ∀ x ∈ s, p x = false) ∨
      ∃ u c t, s = u ++ c :: t ∧ (∀ x ∈ u, p x = false) ∧ p c = true ∧
        s.findIdx? p = some u.length := by
  cases hfind : s.findIdx? p with
  | none => exact .inl ⟨rfl, List.findIdx?_eq_none_iff.mp hfind⟩
  | some k =>
    obtain ⟨hk, hp, hbefore⟩ := List.findIdx?_eq_some_iff_getElem.mp hfind
    refine .inr ⟨s.take k, s[k], s.drop (k + 1), ?_, fun x hx => ?_, hp, ?_⟩
    · rw [List.cons_getElem_drop_succ, List.take_append_drop]
    · obtain ⟨i, hi, rfl⟩ := List.mem_take_iff_getElem.mp hx
      exact Bool.not_eq_true _ ▸ hbefore i (by omega)
    · rw [List.length_take, Nat.min_eq_left (Nat.le_of_lt hk)]

variable {A : PathAlphabet}

theorem getD_behind (s t : Text) (k : Nat) : (s ++ t).getD (s.length + k) 0 = t.getD k 0 := by
  rw [List.getD_eq_getElem?_getD, List.getD_eq_getElem?_getD,
    List.getElem?_append_right (Nat.le_add_right _ _), Nat.add_sub_cancel_left]

theorem looksAhead_iff (s : Text) (c : UInt8) (t : Text) :
    ((s ++ c :: t).getD s.length 0 = 37 ∧ (s ++ c :: t).length - s.length > 2 ∧
        isDigit ((s ++ c :: t).getD (s.length + 1) 0) = true ∧
        isDigit ((s ++ c :: t).getD (s.length + 2) 0) = true) ↔
      c = 37 ∧ twoDigits t = true := by
  have hlength : (s ++ c :: t).length - s.length = t.length + 1 := by
    rw [List.length_append, List.length_cons, Nat.add_sub_cancel_left]
  have hhere : (s ++ c :: t).getD s.length 0 = c := getD_behind s (c :: t) 0
  rw [hlength, hhere, getD_behind, getD_behind]
  match t with
  | [] => simp [twoDigits]
  | [x] => simp [twoDigits]
  | x :: y :: t => simp [twoDigits]

/-- The rounds from the cursor on make of the string what the alphabet makes of it. -/
theorem encodeLoop_append {rounds : Nat} : ∀ {t : Text} (s : Text), t.length < rounds →
    encodeLoop A.legal rounds (s ++ t) (some s.length) = some (s ++ encode A.toAlphabet t) := by
  induction rounds with
  | zero => exact fun _ h => absurd h (Nat.not_lt_zero _)
  | succ rounds ih =>
    intro t s hrounds
    have hfirst : findFirstNotOf A.legal (s ++ t) s.length =
        (t.findIdx? fun c => decide (c ∉ A.legal)).map (s.length + ·) := by
      rw [findFirstNotOf, List.drop_left]
    rw [encodeLoop, Option.bind_some, hfirst]
    rcases findIdx?_cases (fun c => decide (c ∉ A.legal)) t with
      ⟨hnone, hlegal⟩ | ⟨u, c, t, rfl, hu, hc, hsome⟩
    · have hall : ∀ c ∈ t, c ∈ A.legal := fun c hc => by simpa using hlegal c hc
      have hself := encode_append_legal (A := A.toAlphabet) (t := []) hall
      rw [List.append_nil] at hself
      rw [hnone, hself]
      simp [encode]
    · have hlegal : ∀ c ∈ u, c ∈ A.legal := fun c hc => by simpa using hu c hc
      have hillegal : c ∉ A.legal := by simpa using hc
      have hshort : t.length < rounds := by
        rw [List.length_append, List.length_cons] at hrounds
        omega
      have hlook := looksAhead_iff (s ++ u) c t
      rw [hsome, encode_append_legal hlegal, ← List.append_assoc, ← List.append_assoc,
        Option.map_some, ← List.length_append]
      by_cases hkept : c = 37 ∧ twoDigits t = true
      · have hnext := ih (s ++ u ++ [c]) hshort
        rw [List.append_assoc _ [c], List.append_assoc _ [c], List.length_append] at hnext
        simp only
        rw [if_pos (hlook.mpr hkept), encode_kept fun hreplaced => hreplaced.2 hkept]
        exact hnext
      · have hnext := ih (s ++ u ++ escapeOf c) hshort
        have hhere : (s ++ u ++ c :: t).getD (s ++ u).length 0 = c := getD_behind _ _ 0
        have hdrop : (s ++ u ++ c :: t).drop ((s ++ u).length + 1) = t := by
          rw [← List.drop_drop, List.drop_left]
          rfl
        simp only
        rw [if_neg (mt hlook.mp hkept), hhere, List.take_left, hdrop, ← List.length_append,
          encode_replaced ⟨hillegal, hkept⟩, ← List.append_assoc]
        exact hnext

/-! ## Where it starts -/

/-- What stands before the start of the loop, and what is encoded. -/
def uriHead (URI : Text) : Text :=
  match startOf URI with
  | none => URI
  | some convert => URI.take convert

def uriPath (URI : Text) : Text :=
  match startOf URI with
  | none => []
  | some convert => URI.drop convert

/-- A path, a host alone, and a host with its path. -/
inductive Shape : Text → Prop
  | path (URI : Text) (h : ¬ scheme <+: URI) : Shape URI
  | host (s : Text) (hs : 47 ∉ s) : Shape (scheme ++ s)
  | hostPath (s t : Text) (hs : 47 ∉ s) : Shape (scheme ++ s ++ 47 :: t)

theorem shape (URI : Text) : Shape URI := by
  by_cases h : scheme <+: URI
  · obtain ⟨rest, rfl⟩ := h
    by_cases hmem : 47 ∈ rest
    · obtain ⟨s, t, rfl, hs⟩ := List.eq_append_cons_of_mem hmem
      rw [← List.append_assoc]
      exact .hostPath s t hs
    · exact .host rest hmem
  · exact .path URI h

theorem startOf_path {URI : Text} (h : ¬ scheme <+: URI) : startOf URI = some 0 := by
  unfold startOf
  rw [if_neg (mt List.isPrefixOf_iff_prefix.mp h)]

theorem startOf_scheme (s : Text) :
    startOf (scheme ++ s) = (s.findIdx? fun c => decide (c = 47)).map (7 + ·) := by
  unfold startOf
  rw [if_pos (List.isPrefixOf_iff_prefix.mpr (List.prefix_append _ _))]
  have hdrop : (scheme ++ s).drop 7 = s := List.drop_left' (by decide)
  rw [hdrop]

theorem startOf_host {s : Text} (hs : 47 ∉ s) : startOf (scheme ++ s) = none := by
  rw [startOf_scheme, List.findIdx?_eq_none_iff.mpr]
  · rfl
  · exact fun x hx => decide_eq_false fun heq => hs (heq ▸ hx)

theorem startOf_hostPath {s : Text} (hs : 47 ∉ s) (t : Text) :
    startOf (scheme ++ s ++ 47 :: t) = some (scheme ++ s).length := by
  rw [List.append_assoc, startOf_scheme, findIdx?_append_cons t _ rfl, List.length_append]
  · rfl
  · exact fun x hx => decide_eq_false fun heq => hs (heq ▸ hx)

theorem uriHead_append_uriPath (URI : Text) : uriHead URI ++ uriPath URI = URI := by
  unfold uriHead uriPath
  cases startOf URI with
  | none => exact List.append_nil URI
  | some convert => exact List.take_append_drop _ _

/-- What is not the URL of a host is encoded from its beginning on. -/
theorem uriHead_path {URI : Text} (h : ¬ scheme <+: URI) : uriHead URI = [] := by
  unfold uriHead
  rw [startOf_path h]
  rfl

theorem uriPath_path {URI : Text} (h : ¬ scheme <+: URI) : uriPath URI = URI := by
  unfold uriPath
  rw [startOf_path h]
  rfl

theorem uriHead_host {s : Text} (hs : 47 ∉ s) : uriHead (scheme ++ s) = scheme ++ s := by
  unfold uriHead
  rw [startOf_host hs]

theorem uriPath_host {s : Text} (hs : 47 ∉ s) : uriPath (scheme ++ s) = [] := by
  unfold uriPath
  rw [startOf_host hs]

theorem uriHead_hostPath {s : Text} (hs : 47 ∉ s) (t : Text) :
    uriHead (scheme ++ s ++ 47 :: t) = scheme ++ s := by
  unfold uriHead
  rw [startOf_hostPath hs]
  exact List.take_left

theorem uriPath_hostPath {s : Text} (hs : 47 ∉ s) (t : Text) :
    uriPath (scheme ++ s ++ 47 :: t) = 47 :: t := by
  unfold uriPath
  rw [startOf_hostPath hs]
  exact List.drop_left

theorem encodeLoop_startOf {rounds : Nat} {URI : Text} (h : URI.length < rounds) :
    encodeLoop A.legal rounds URI (startOf URI) =
      some (uriHead URI ++ encode A.toAlphabet (uriPath URI)) := by
  cases shape URI with
  | path URI hpath =>
    rw [startOf_path hpath, uriHead_path hpath, uriPath_path hpath]
    exact encodeLoop_append [] h
  | host s hs =>
    obtain ⟨n, rfl⟩ : ∃ n, rounds = n + 1 := ⟨rounds - 1, by omega⟩
    rw [startOf_host hs, uriHead_host hs, uriPath_host hs]
    exact congrArg some (List.append_nil _).symm
  | hostPath s t hs =>
    rw [startOf_hostPath hs, uriHead_hostPath hs, uriPath_hostPath hs]
    refine encodeLoop_append _ (Nat.lt_of_le_of_lt ?_ h)
    rw [List.length_append]
    exact Nat.le_add_left _ _

theorem not_scheme_prefix_encode (s : Text) : ¬ scheme <+: encode A.toAlphabet s := by
  intro h
  have hcolon : (58 : UInt8) ∈ scheme := by decide
  rcases (encode_encoded s).mem 58 (h.subset hcolon) with hlegal | hpercent
  · exact A.colon hlegal
  · exact absurd hpercent (by decide)

theorem uriHead_encoded (URI : Text) :
    uriHead (uriHead URI ++ encode A.toAlphabet (uriPath URI)) = uriHead URI ∧
      uriPath (uriHead URI ++ encode A.toAlphabet (uriPath URI)) =
        encode A.toAlphabet (uriPath URI) := by
  cases shape URI with
  | path URI hpath =>
    have hencoded := not_scheme_prefix_encode (A := A) URI
    rw [uriHead_path hpath, uriPath_path hpath, List.nil_append]
    exact ⟨uriHead_path hencoded, uriPath_path hencoded⟩
  | host s hs =>
    rw [uriHead_host hs, uriPath_host hs, encode, List.append_nil]
    exact ⟨uriHead_host hs, uriPath_host hs⟩
  | hostPath s t hs =>
    rw [uriHead_hostPath hs, uriPath_hostPath hs, encode_legal A.solidus]
    exact ⟨uriHead_hostPath hs _, uriPath_hostPath hs _⟩

theorem decode_uri (URI : Text) :
    decode URI = decode (uriHead URI) ++ decode (uriPath URI) := by
  cases shape URI with
  | path URI hpath =>
    rw [uriHead_path hpath, uriPath_path hpath]
    rfl
  | host s hs =>
    rw [uriHead_host hs, uriPath_host hs]
    exact (List.append_nil _).symm
  | hostPath s t hs =>
    rw [uriHead_hostPath hs, uriPath_hostPath hs]
    refine decode_append (fun c hc => ?_) _
    rw [← Option.mem_some.mp hc]
    decide

/-! ## The laws -/

/-- What an `EncodeURI` with the legal characters of `A` makes of a URI. -/
structure Laws (A : PathAlphabet) (encodeURI : Text → Option Text) (URI : Text) : Prop where
  /-- it returns, and more rounds make no difference -/
  returns : ∃ result, encodeURI URI = some result ∧ ∀ rounds, URI.length < rounds →
    encodeLoop A.legal rounds URI (startOf URI) = some result
  /-- behind the host, when there is one, everything is legal or an escape -/
  encoded : ∀ result, encodeURI URI = some result →
    ∃ path, result = uriHead URI ++ path ∧ Encoded A.toAlphabet path
  path : ¬ scheme <+: URI → uriHead URI = []
  /-- encoded text is left as it is when none of its escapes has a letter in it -/
  unchanged : Encoded A.toAlphabet (uriPath URI) →
    (encodeURI URI = some URI ↔ DecimalEscapes (uriPath URI))
  idempotent : ∀ result, encodeURI URI = some result →
    (encodeURI result = some result ↔ Settled A.toAlphabet (uriPath URI))
  decodes : ∀ result, encodeURI URI = some result →
    (decode result = decode URI ↔ DecimalEscapes (uriPath URI))

theorem encodeURI_eq (URI : Text) :
    encodeURI A.legal URI = some (uriHead URI ++ encode A.toAlphabet (uriPath URI)) :=
  encodeLoop_startOf (Nat.lt_succ_self _)

theorem laws (A : PathAlphabet) (URI : Text) : Laws A (encodeURI A.legal) URI where
  returns := ⟨_, encodeURI_eq URI, fun _ h => encodeLoop_startOf h⟩
  encoded := by
    intro result hresult
    rw [encodeURI_eq, Option.some_inj] at hresult
    exact ⟨_, hresult.symm, encode_encoded _⟩
  path := uriHead_path
  unchanged := by
    intro hencoded
    have hself : encodeURI A.legal URI = some URI ↔
        encode A.toAlphabet (uriPath URI) = uriPath URI := by
      have hsplit := uriHead_append_uriPath URI
      rw [encodeURI_eq, Option.some_inj]
      exact ⟨fun h => List.append_cancel_left (h.trans hsplit.symm), fun h => h.symm ▸ hsplit⟩
    rw [hself]
    exact hencoded.encode_eq_self_iff
  idempotent := by
    intro result hresult
    rw [encodeURI_eq, Option.some_inj] at hresult
    have hagain := uriHead_encoded (A := A) URI
    rw [hresult] at hagain
    rw [encodeURI_eq, Option.some_inj, hagain.1, hagain.2, ← hresult, List.append_cancel_left_eq]
    exact encode_encode_iff _
  decodes := by
    intro result hresult
    rw [encodeURI_eq, Option.some_inj] at hresult
    have hagain := uriHead_encoded (A := A) URI
    rw [hresult] at hagain
    rw [decode_uri result, hagain.1, hagain.2, decode_uri URI, List.append_cancel_left_eq]
    exact decode_encode_iff _

/-- Both functions keep the laws, each over its own legal characters. -/
theorem encodeURI_laws (URI : Text) :
    Laws HttpInput.alphabet HttpInput.encodeURI URI ∧ Laws Http.alphabet Http.encodeURI URI :=
  ⟨laws HttpInput.alphabet URI, laws Http.alphabet URI⟩

/-- A tilde is encoded twice, and an escaped solidus does not come back. -/
theorem encodeURI_letters :
    (HttpInput.encodeURI (bytes "/~") = some (bytes "/%7e") ∧
      HttpInput.encodeURI (bytes "/%7e") = some (bytes "/%257e") ∧
      HttpInput.encodeURI (bytes "/%2F") = some (bytes "/%252F") ∧
      decode (bytes "/%252F") ≠ decode (bytes "/%2F")) ∧
    Http.encodeURI (bytes "/~") = some (bytes "/%7e") ∧
      Http.encodeURI (bytes "/%7e") = some (bytes "/%257e") ∧
      Http.encodeURI (bytes "/%2F") = some (bytes "/%252F") := by
  decide

end FreeAmp.Io
