/-
  Lib/Index.lean --- an index over records: under every key that some record carries, the
  name of one that does.

  An index is a list of pairs in which the first pair of a key counts, as in a multimap.
  `Indexes` says that it is right for the records as they are.  When one record is
  replaced, it stays right exactly when what is found for the keys that the record no
  longer carries is another record that does, and for those that it carries now some
  record:

      Indexes.append       another pair of a key that is known
      Indexes.replace_iff  another record under a name
-/
import Mathlib.Data.List.Basic

namespace FreeAmp.Lib

variable {κ ν : Type} [BEq κ] [LawfulBEq κ]

/-- What is found for a key carries it, and for a key that is carried something is found. -/
structure Indexes (carries : ν → κ → Prop) (index : List (κ × ν)) : Prop where
  named : ∀ key name, index.lookup key = some name → carries name key
  known : ∀ name key, carries name key → index.lookup key ≠ none

/-- Without the record at `name` the index is right for a key. -/
structure Spares (carries : ν → κ → Prop) (index : List (κ × ν)) (name : ν) (key : κ) :
    Prop where
  named : ∀ other, index.lookup key = some other → other ≠ name ∧ carries other key
  known : index.lookup key = none → ∀ other, other ≠ name → ¬ carries other key

variable {carries carries' : ν → κ → Prop} {index index' : List (κ × ν)} {name : ν} {key : κ}

theorem lookup_append_of_ne {other : κ} (hother : other ≠ key) :
    (index ++ [(key, name)]).lookup other = index.lookup other := by
  rw [List.lookup_append, List.lookup_cons, List.lookup_nil, beq_false_of_ne hother, Option.or_none]

theorem lookup_append_of_known {other : κ} (hknown : index.lookup key ≠ none) :
    (index ++ [(key, name)]).lookup other = index.lookup other := by
  by_cases hother : other = key
  · subst hother
    obtain ⟨found, hfound⟩ := Option.ne_none_iff_exists'.mp hknown
    rw [List.lookup_append, hfound, Option.some_or]
  · exact lookup_append_of_ne hother

theorem lookup_append_of_unknown (hunknown : index.lookup key = none) :
    (index ++ [(key, name)]).lookup key = some name := by
  rw [List.lookup_append, hunknown, Option.none_or, List.lookup_cons_self]

/-- Erasing a pair leaves what is found for the other keys. -/
theorem lookup_erase_of_ne [BEq ν] [LawfulBEq ν] {other : κ} (hother : other ≠ key) :
    (index.erase (key, name)).lookup other = index.lookup other := by
  induction index with
  | nil => rfl
  | cons pair index ih =>
    rw [List.erase_cons]
    split
    · rename_i hpair
      obtain rfl : pair = (key, name) := eq_of_beq hpair
      rw [List.lookup_cons, beq_false_of_ne hother]
    · rw [List.lookup_cons, List.lookup_cons, ih]

theorem Indexes.append (h : Indexes carries index) (hkey : carries name key) :
    Indexes carries (index ++ [(key, name)]) := by
  have hknown := h.known name key hkey
  constructor
  · intro other found hfound
    rw [lookup_append_of_known hknown] at hfound
    exact h.named other found hfound
  · intro found other hcarries
    rw [lookup_append_of_known hknown]
    exact h.known found other hcarries

omit [LawfulBEq κ] in
theorem Indexes.replace_iff (h : Indexes carries index)
    (hothers : ∀ other key, other ≠ name → (carries' other key ↔ carries other key))
    (hsame : ∀ key, ¬ carries name key → ¬ carries' name key →
      index'.lookup key = index.lookup key) :
    Indexes carries' index' ↔
      (∀ key, carries name key → ¬ carries' name key → Spares carries index' name key) ∧
        ∀ key, carries' name key → ∃ other, index'.lookup key = some other ∧ carries' other key := by
  constructor
  · intro h'
    refine ⟨fun key _ hnot => ⟨?_, ?_⟩, ?_⟩
    · intro other hother
      have hcarries := h'.named key other hother
      have hne : other ≠ name := by
        rintro rfl
        exact hnot hcarries
      exact ⟨hne, (hothers other key hne).mp hcarries⟩
    · intro hnone other hne hcarries
      exact h'.known other key ((hothers other key hne).mpr hcarries) hnone
    · intro key hcarries
      obtain ⟨other, hother⟩ := Option.ne_none_iff_exists'.mp (h'.known name key hcarries)
      exact ⟨other, hother, h'.named key other hother⟩
  · rintro ⟨hold, hnew⟩
    constructor
    · intro key found hfound
      by_cases hkey' : carries' name key
      · obtain ⟨other, hother, hcarries⟩ := hnew key hkey'
        obtain rfl := Option.some.inj (hother.symm.trans hfound)
        exact hcarries
      · by_cases hkey : carries name key
        · obtain ⟨hne, hcarries⟩ := (hold key hkey hkey').named found hfound
          exact (hothers found key hne).mpr hcarries
        · rw [hsame key hkey hkey'] at hfound
          have hcarries := h.named key found hfound
          have hne : found ≠ name := by
            rintro rfl
            exact hkey hcarries
          exact (hothers found key hne).mpr hcarries
    · intro found key hcarries hnone
      by_cases hkey' : carries' name key
      · obtain ⟨other, hother, -⟩ := hnew key hkey'
        exact absurd (hnone.symm.trans hother) nofun
      · have hne : found ≠ name := by
          rintro rfl
          exact hkey' hcarries
        have hbefore := (hothers found key hne).mp hcarries
        by_cases hkey : carries name key
        · exact (hold key hkey hkey').known hnone found hne hbefore
        · rw [hsame key hkey hkey'] at hnone
          exact h.known found key hbefore hnone

end FreeAmp.Lib
