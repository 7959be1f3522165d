/-
  Lib/StableSort.lean --- sorting by a strict weak order.

  A comparator says which of two elements comes before the other, and leaves open the
  order of those it does not tell apart.  A stable sort keeps these as they were:

      pairwise_sort     nothing stands before what comes before it
      filter_sort       the elements that are not told apart keep their order
-/
import Mathlib.Data.List.Sort
import Mathlib.Order.RelClasses

namespace FreeAmp.Lib

/-- A strict order that tells different elements apart is a strict weak order. -/
theorem isStrictWeakOrder_of_trichotomy {α : Type} {r : α → α → Prop} (hirrefl : ∀ a, ¬ r a a)
    (htrans : ∀ a b c, r a b → r b c → r a c) (htri : ∀ a b, ¬ r a b → ¬ r b a → a = b) :
    IsStrictWeakOrder α r where
  irrefl := hirrefl
  trans := htrans
  incomp_trans := by
    rintro a b c ⟨hab, hba⟩ ⟨hbc, hcb⟩
    obtain rfl := htri a b hab hba
    obtain rfl := htri a c hbc hcb
    exact ⟨hirrefl a, hirrefl a⟩

section StableSort

variable {α : Type} (less : α → α → Bool)

/-- The elements that are not told apart from `a`. -/
def same (a b : α) : Bool := !less a b && !less b a

/-- A list and what stable sorting has made of it. -/
structure SortedFrom (old new : List α) : Prop where
  perm : new.Perm old
  ordered : new.Pairwise fun a b => less b a = false
  stable : ∀ a, new.filter (same less a) = old.filter (same less a)

variable [horder : IsStrictWeakOrder α fun a b => less a b = true]

theorem not_less_trans {a b c : α} (hab : less b a = false) (hbc : less c b = false) :
    less c a = false := by
  rw [← Bool.not_eq_true] at hab hbc ⊢
  intro hca
  have htrans : ∀ x y z, less x y = true → less y z = true → less x z = true := horder.trans
  -- `b` is not told apart from `a`, nor from `c`
  have hba : ¬ less a b = true := fun h => hbc (htrans c a b hca h)
  have hcb : ¬ less b c = true := fun h => hab (htrans b c a h hca)
  exact (horder.incomp_trans c b a ⟨hbc, hcb⟩ ⟨hab, hba⟩).1 hca

theorem not_less_total (a b : α) : (!less b a || !less a b) = true := by
  cases hab : less a b with
  | false => exact Bool.or_true _
  | true =>
    cases hba : less b a with
    | false => rfl
    | true => exact absurd (horder.trans a b a hab hba) (horder.irrefl a)

/-- A merge that takes from the second half only what comes before the head of the first. -/
theorem sortedFrom_mergeSort (l : List α) :
    SortedFrom less l (l.mergeSort fun a b => !less b a) := by
  have htrans : ∀ a b c : α, (!less b a) = true → (!less c b) = true → (!less c a) = true := by
    intro a b c hab hbc
    rw [Bool.not_eq_true'] at hab hbc ⊢
    exact not_less_trans less hab hbc
  refine ⟨List.mergeSort_perm l _, ?_, fun a => ?_⟩
  · have hpairwise := List.pairwise_mergeSort htrans (fun a b => not_less_total less a b) l
    exact hpairwise.imp fun h => by rwa [Bool.not_eq_true'] at h
  · -- those that are not told apart from `a` are in order already
    have hsame : (l.filter (same less a)).Pairwise fun b c => (!less c b) = true := by
      rw [List.pairwise_filter]
      refine List.pairwise_of_forall fun b c hb hc => ?_
      unfold same at hb hc
      rw [Bool.and_eq_true, Bool.not_eq_true', Bool.not_eq_true'] at hb hc
      rw [Bool.not_eq_true']
      exact not_less_trans less hb.1 hc.2
    have hsub := List.sublist_mergeSort htrans (fun a b => not_less_total less a b) hsame
      List.filter_sublist
    have hfilter := hsub.filter (same less a)
    rw [List.filter_filter] at hfilter
    simp only [Bool.and_self] at hfilter
    refine (hfilter.eq_of_length ?_).symm
    exact ((List.mergeSort_perm l _).filter _).length_eq.symm

end StableSort

end FreeAmp.Lib
