/-
  Plm/MbcdCache.lean --- the lookups that `MusicBrainzCD` keeps in its database.

  A record is the lengths of the tracks, each followed by a blank, and the RDF text, whose
  first byte takes the place of the last blank.  `restores_iff` says when a record comes
  back: there has to be a blank, and the lengths have to fit in the buffer of the reader.
-/
import FreeAmp.Base.FileUrl
import FreeAmp.Lib.Scanf

namespace FreeAmp.Plm.Mbcd

open FreeAmp.Base FreeAmp.Lib

/-! ## `WriteToCache` -/

/-- A database, as the value that is stored under each key. -/
abbrev Records : Type := Text → Option Text

/-- `sprintf(data + place, "%s", text)` in a buffer of `size` bytes that begins with the string
`data`. -/
def sprintfAt (size : Nat) (data : Text) (place : Int) (text : Text) : Except BufferFault Text :=
  if 0 ≤ place ∧ place + text.length + 1 ≤ size then .ok (data.take place.toNat ++ text)
  else .error .overflow

/-- What `"%d "` prints. -/
def lengthText (i : Int32) : Text := showInt i.toInt ++ [32]

/-- The loop over the lengths of the tracks. -/
def printLengths (size : Nat) : Text → List Int32 → Except BufferFault Text
  | data, [] => .ok data
  | data, i :: trackLens => do
      let data ← sprintfAt size data data.length (lengthText i)
      printLengths size data trackLens

def writeToCache (db : Records) (diskId : Text) (trackLens : List Int32) (rdf : Text) :
    Except BufferFault Records := do
  let db := if (db diskId).isSome then Function.update db diskId none else db
  let size := diskId.length + rdf.length + 1024
  let data ← printLengths size [] trackLens
  let data ← sprintfAt size data (data.length - 1) rdf
  .ok (Function.update db diskId (some data))

/-! ## `ReadFromCache` -/

/-- The strings that `strtok` finds with a blank for its delimiter. -/
def strtok (s : Text) : List Text := (s.splitOnP (· == 32)).filter (· != [])

/-- `"%[^<]"` -/
def numbersFormat : List Directive := [.set none (· != 60)]

/-- What is returned, and what is left in `trackLens` and `rdf`. -/
def readFromCache (db : Records) (diskId : Text) (trackLens : List Int32) (rdf : Text) :
    Except BufferFault (Bool × List Int32 × Text) :=
  match db diskId with
  | none => .ok (false, trackLens, rdf)
  | some data =>
    match (scanf numbersFormat data 0).fields with
    | [] => .ok (false, trackLens, rdf)
    | temp :: _ =>
      -- `temp` has 1024 bytes
      if temp.length + 1 ≤ 1024 then
        let trackLens := (strtok temp).map fun ptr => Int32.ofInt (atoi ptr)
        match data.dropWhile (· != 60) with
        | [] => .ok (false, trackLens, rdf)
        | ptr => .ok (true, trackLens, ptr)
      else .error .overflow

/-! ## What is written -/

/-- All the lengths, each with a blank behind it. -/
def lengthsText (trackLens : List Int32) : Text := trackLens.flatMap lengthText

@[simp] theorem lengthsText_nil : lengthsText [] = [] := rfl

@[simp] theorem lengthsText_cons (i : Int32) (trackLens : List Int32) :
    lengthsText (i :: trackLens) = lengthText i ++ lengthsText trackLens := rfl

theorem lengthText_pos (i : Int32) : 2 ≤ (lengthText i).length := by
  have hpos := List.length_pos_iff.mpr (showInt_ne_nil i.toInt)
  unfold lengthText
  rw [List.length_append, List.length_singleton]
  omega

theorem printLengths_eq (size : Nat) : ∀ (trackLens : List Int32) (data : Text),
    data.length + 1 ≤ size → printLengths size data trackLens =
      if data.length + (lengthsText trackLens).length + 1 ≤ size then
        .ok (data ++ lengthsText trackLens)
      else .error .overflow := by
  intro trackLens
  induction trackLens with
  | nil =>
    intro data hroom
    rw [printLengths, lengthsText_nil, List.append_nil, List.length_nil, if_pos (by omega)]
  | cons i trackLens ih =>
    intro data hroom
    rw [printLengths, sprintfAt, lengthsText_cons, List.length_append]
    by_cases hfits : data.length + (lengthText i).length + 1 ≤ size
    · rw [if_pos (by omega), ok_bind, Int.toNat_natCast, List.take_length,
        ih _ (by rw [List.length_append]; omega), List.length_append, List.append_assoc,
        Nat.add_assoc data.length]
    · rw [if_neg (by omega), if_neg (by omega)]
      rfl

/-- What is stored, when everything has been written inside the buffer. -/
theorem writeToCache_eq (db : Records) (diskId : Text) {trackLens : List Int32} {rdf : Text}
    (hne : trackLens ≠ []) (hrdf : rdf ≠ []) :
    writeToCache db diskId trackLens rdf =
      if (lengthsText trackLens).length ≤ diskId.length + 1024 then
        .ok (Function.update
          (if (db diskId).isSome then Function.update db diskId none else db) diskId
          (some ((lengthsText trackLens).dropLast ++ rdf)))
      else .error .overflow := by
  have hsome : 2 ≤ (lengthsText trackLens).length := by
    cases trackLens with
    | nil => exact absurd rfl hne
    | cons i trackLens =>
      have hlen := lengthText_pos i
      rw [lengthsText_cons, List.length_append]
      omega
  have hone := List.length_pos_iff.mpr hrdf
  unfold writeToCache
  dsimp only
  rw [printLengths_eq _ _ _ (by rw [List.length_nil]; omega), List.length_nil, List.nil_append,
    Nat.zero_add]
  by_cases hfits : (lengthsText trackLens).length ≤ diskId.length + 1024
  · rw [if_pos (by omega), ok_bind, sprintfAt, if_pos (by omega), ok_bind, if_pos hfits,
      List.dropLast_eq_take]
    congr 5
    omega
  · rw [if_neg hfits]
    split
    · rw [ok_bind, sprintfAt, if_neg (by omega)]
      rfl
    · rfl

/-- Without a track the text is put in front of the buffer. -/
theorem writeToCache_nil (db : Records) (diskId rdf : Text) :
    writeToCache db diskId [] rdf = .error .overflow := rfl

/-! ## What is read -/

theorem mem_showInt {z : Int} {c : UInt8} (h : c ∈ showInt z) : c = 45 ∨ isDigit c = true := by
  unfold showInt at h
  split at h
  · rcases List.mem_cons.mp h with rfl | hmem
    · exact .inl rfl
    · exact .inr (showNat_digits _ c hmem)
  · exact .inr (showNat_digits _ c h)

theorem showInt_free {z : Int} {c d : UInt8} (h : c ∈ showInt z) (hd : d ≠ 45)
    (hdigit : isDigit d = false) : c ≠ d := by
  rintro rfl
  rcases mem_showInt h with rfl | hc
  · exact hd rfl
  · rw [hc] at hdigit
    cases hdigit

theorem lengthsText_free {trackLens : List Int32} {c : UInt8} (h : c ∈ lengthsText trackLens) :
    (c != 60) = true := by
  obtain ⟨i, -, hc⟩ := List.mem_flatMap.mp h
  rw [bne_iff_ne]
  unfold lengthText at hc
  rcases List.mem_append.mp hc with hshow | hblank
  · exact showInt_free hshow (by decide) (by decide)
  · rw [List.mem_singleton.mp hblank]
    decide

theorem atoi_show (i : Int32) : Int32.ofInt (atoi (showInt i.toInt)) = i := by
  have hlow := i.le_toInt
  have hhigh := i.toInt_lt
  have hread := atoi_showInt (z := i.toInt) (by omega) (by omega) noDigit_nil
  rw [List.append_nil] at hread
  rw [hread, Int32.ofInt_toInt]

theorem strtok_show (i : Int32) : strtok (showInt i.toInt) = [showInt i.toInt] := by
  have hfree : ∀ c ∈ showInt i.toInt, (c == 32) = false := fun c hc =>
    beq_eq_false_iff_ne.mpr (showInt_free hc (by decide) (by decide))
  unfold strtok
  rw [List.splitOnP_eq_singleton hfree, List.filter_cons_of_pos]
  · rfl
  · exact bne_iff_ne.mpr (showInt_ne_nil i.toInt)

theorem strtok_lengthText (i : Int32) (rest : Text) :
    strtok (lengthText i ++ rest) = showInt i.toInt :: strtok rest := by
  have hfree : ∀ c ∈ showInt i.toInt, (c == 32) = false := fun c hc =>
    beq_eq_false_iff_ne.mpr (showInt_free hc (by decide) (by decide))
  unfold strtok lengthText
  rw [List.append_assoc, List.singleton_append,
    List.splitOnP_append_cons_of_forall_mem hfree 32 rfl, List.filter_cons_of_pos]
  exact bne_iff_ne.mpr (showInt_ne_nil i.toInt)

theorem strtok_lengthsText {trackLens : List Int32} (hne : trackLens ≠ []) :
    (strtok (lengthsText trackLens).dropLast).map (fun ptr => Int32.ofInt (atoi ptr)) =
      trackLens := by
  induction trackLens with
  | nil => exact absurd rfl hne
  | cons i trackLens ih =>
    cases trackLens with
    | nil =>
      rw [lengthsText_cons, lengthsText_nil, List.append_nil, lengthText, List.dropLast_concat,
        strtok_show, List.map_singleton, atoi_show]
    | cons j trackLens =>
      have hrest : lengthsText (j :: trackLens) ≠ [] := by
        have hpos := lengthText_pos j
        rw [lengthsText_cons, ← List.length_pos_iff, List.length_append]
        omega
      rw [lengthsText_cons, List.dropLast_append_of_ne_nil hrest, strtok_lengthText,
        List.map_cons, atoi_show, ih (List.cons_ne_nil j trackLens)]

theorem lengthsText_dropLast_ne_nil {trackLens : List Int32} (hne : trackLens ≠ []) :
    (lengthsText trackLens).dropLast ≠ [] := by
  cases trackLens with
  | nil => exact absurd rfl hne
  | cons i trackLens =>
    have hpos := lengthText_pos i
    rw [← List.length_pos_iff, List.length_dropLast, lengthsText_cons, List.length_append]
    omega

theorem readFromCache_eq {db : Records} {diskId : Text} {trackLens : List Int32} {more : Text}
    (hne : trackLens ≠ [])
    (hdb : db diskId = some ((lengthsText trackLens).dropLast ++ 60 :: more))
    (trackLens₀ : List Int32) (rdf₀ : Text) :
    readFromCache db diskId trackLens₀ rdf₀ =
      if (lengthsText trackLens).length ≤ 1024 then .ok (true, trackLens, 60 :: more)
      else .error .overflow := by
  have hfree : ∀ c ∈ (lengthsText trackLens).dropLast, (c != 60) = true := fun c hc =>
    lengthsText_free (List.dropLast_subset _ hc)
  have hrest : ∀ c ∈ (60 :: more : Text).head?, (c != 60) = false := by
    intro c hc
    obtain rfl := Option.some.inj hc
    rfl
  have hpos : 0 < (lengthsText trackLens).length := by
    have hlen := List.length_pos_iff.mpr (lengthsText_dropLast_ne_nil hne)
    rw [List.length_dropLast] at hlen
    omega
  have hdrop : ((lengthsText trackLens).dropLast ++ 60 :: more).dropWhile (· != 60) =
      60 :: more := by
    rw [List.dropWhile_append_of_pos hfree]
    rfl
  unfold readFromCache
  rw [hdb]
  dsimp only
  rw [numbersFormat, scanf_set [] 0 (lengthsText_dropLast_ne_nil hne) hfree hrest]
  dsimp only
  rw [hdrop, strtok_lengthsText hne, List.length_dropLast]
  by_cases hfits : (lengthsText trackLens).length ≤ 1024
  · rw [if_pos (by omega), if_pos hfits]
  · rw [if_neg (by omega), if_neg hfits]

/-! ## What comes back -/

/-- A lookup is written inside the buffer, and reading it gives the same lengths and the same
RDF text, whatever stood in their places. -/
def Restores (db : Records) (diskId : Text) (trackLens : List Int32) (rdf : Text) : Prop :=
  ∃ db', writeToCache db diskId trackLens rdf = .ok db' ∧
    ∀ trackLens₀ rdf₀, readFromCache db' diskId trackLens₀ rdf₀ = .ok (true, trackLens, rdf)

/-- There is a track, and the lengths fit in the buffer they are read into. -/
def Kept (trackLens : List Int32) : Prop :=
  trackLens ≠ [] ∧ (lengthsText trackLens).length ≤ 1024

instance (trackLens : List Int32) : Decidable (Kept trackLens) :=
  inferInstanceAs (Decidable (_ ∧ _))

theorem restores_iff (db : Records) (diskId : Text) (trackLens : List Int32) (rdf : Text)
    (hrdf : rdf.head? = some 60) : Restores db diskId trackLens rdf ↔ Kept trackLens := by
  obtain ⟨more, rfl⟩ : ∃ more, rdf = 60 :: more := by
    cases rdf with
    | nil => cases hrdf
    | cons c more =>
      obtain rfl := Option.some.inj hrdf
      exact ⟨more, rfl⟩
  unfold Kept
  constructor
  · rintro ⟨db', hwrite, hread⟩
    have hne : trackLens ≠ [] := by
      rintro rfl
      rw [writeToCache_nil] at hwrite
      cases hwrite
    refine ⟨hne, ?_⟩
    rw [writeToCache_eq db diskId hne (List.cons_ne_nil _ _)] at hwrite
    split at hwrite
    · obtain rfl := Except.ok.inj hwrite
      have hback := hread [] []
      rw [readFromCache_eq hne (Function.update_self diskId _ _)] at hback
      by_contra hlong
      rw [if_neg hlong] at hback
      cases hback
    · cases hwrite
  · rintro ⟨hne, hfits⟩
    have hwrite := writeToCache_eq db diskId hne (List.cons_ne_nil 60 more)
    rw [if_pos (by omega)] at hwrite
    refine ⟨_, hwrite, fun trackLens₀ rdf₀ => ?_⟩
    rw [readFromCache_eq hne (Function.update_self diskId _ _), if_pos hfits]

theorem restores_three : Restores (fun _ => none) (bytes "disc") [180, 7, 241] (bytes "<rdf>") :=
  (restores_iff _ _ _ _ rfl).mpr (by decide)

/-- A disc without a track is written in front of the buffer. -/
theorem restores_fails : ¬ Restores (fun _ => none) (bytes "disc") [] (bytes "<rdf>") := by
  rintro ⟨db', hwrite, -⟩
  rw [writeToCache_nil] at hwrite
  cases hwrite

end FreeAmp.Plm.Mbcd
