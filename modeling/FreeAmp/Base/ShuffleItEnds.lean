/-
  Base/ShuffleItEnds.lean --- `PlaylistManager::ShuffleIt` cannot get stuck.

  While more than 50 items are left the loop wants an index that is not used and not
  closer than 10 to the one before.  At most 19 indices are that close, so there is
  always one left that it accepts; with 50 items or fewer any unused index will do.
  Random numbers among which every index comes up again and again therefore end the
  function.
-/
import FreeAmp.Base.PlaylistLists
import Mathlib.Data.Finset.Card
import Mathlib.Order.Interval.Finset.Nat

namespace FreeAmp.Base

open FreeAmp.Lib

/-! ## Random numbers and indices -/

theorem exists_drawIndex {max index : Nat} (hmax : max ≤ randMax + 1) (hindex : index < max) :
    ∃ rand : Rand, drawIndex max rand = index := by
  -- the least number that scales to `index` or more
  have hpos : 0 < max := Nat.lt_of_le_of_lt (Nat.zero_le _) hindex
  have hup := Nat.div_add_mod (index * (randMax + 1) + (max - 1)) max
  have hmod := Nat.mod_lt (index * (randMax + 1) + (max - 1)) hpos
  generalize hr : (index * (randMax + 1) + (max - 1)) / max = r at hup
  have hlow : index * (randMax + 1) ≤ r * max := by
    rw [Nat.mul_comm r]
    omega
  have hhigh : r * max < (index + 1) * (randMax + 1) := by
    rw [Nat.mul_comm r, Nat.add_mul]
    omega
  have hlt : r < randMax + 1 := by
    refine Nat.lt_of_mul_lt_mul_right (a := max) (Nat.lt_of_lt_of_le hhigh ?_)
    rw [Nat.mul_comm (randMax + 1)]
    exact Nat.mul_le_mul_right _ hindex
  refine ⟨⟨r, hlt⟩, ?_⟩
  unfold drawIndex
  exact Nat.div_eq_of_lt_le hlow hhigh

/-! ## An index that is accepted -/

/-- The indices that are too close to `lastindex`. -/
def closeTo (lastindex : Nat) : Finset Nat := Finset.Ico (lastindex - 9) (lastindex + 10)

theorem card_closeTo_le (lastindex : Nat) : (closeTo lastindex).card ≤ 19 := by
  rw [closeTo, Nat.card_Ico]
  omega

theorem distance_of_not_mem_closeTo {index lastindex : Nat} (h : index ∉ closeTo lastindex) :
    10 ≤ distance index lastindex := by
  rw [closeTo, Finset.mem_Ico] at h
  unfold distance
  omega

namespace Drawn

variable {list : List Ptr} {usedList : List Bool} {tempShuffled : List Ptr}
  {indices : List Nat}

/-- An index that has not been drawn is marked as not used. -/
theorem used_false (h : Drawn list usedList tempShuffled indices) {index : Nat}
    (hindex : index < list.length) (hnew : index ∉ indices) :
    usedList[index]? = some false := by
  have hlt : index < usedList.length := by
    rw [h.used_length]
    exact hindex
  have hused := h.used_iff index hindex
  rw [List.getElem?_eq_getElem hlt] at hused ⊢
  cases hmark : usedList[index] with
  | false => rfl
  | true =>
    rw [hmark] at hused
    exact absurd (hused.mp rfl) hnew

theorem card_unused (h : Drawn list usedList tempShuffled indices) :
    (Finset.range list.length \ indices.toFinset).card =
      list.length - tempShuffled.length := by
  have hsub : indices.toFinset ⊆ Finset.range list.length := by
    intro i hi
    exact Finset.mem_range.mpr (h.inRange i (List.mem_toFinset.mp hi))
  rw [Finset.card_sdiff_of_subset hsub, Finset.card_range,
    List.toFinset_card_of_nodup h.distinct, h.length_eq]

/-- While items are left there is an index that the loop accepts. -/
theorem exists_acceptIndex (h : Drawn list usedList tempShuffled indices)
    (hmore : tempShuffled.length < list.length) (lastindex : Nat) :
    ∃ index, index < list.length ∧
      acceptIndex usedList (list.length - tempShuffled.length) lastindex index = true := by
  have hcard := h.card_unused
  -- what keeps an index from being accepted although it is not used
  have hexists : ∃ index ∈ Finset.range list.length \ indices.toFinset,
      50 < list.length - tempShuffled.length → index ∉ closeTo lastindex := by
    by_cases hmany : 50 < list.length - tempShuffled.length
    · have hclose := card_closeTo_le lastindex
      obtain ⟨index, hindex, hfar⟩ := Finset.exists_mem_notMem_of_card_lt_card
        (s := closeTo lastindex) (t := Finset.range list.length \ indices.toFinset) (by omega)
      exact ⟨index, hindex, fun _ => hfar⟩
    · have hpos : 0 < (Finset.range list.length \ indices.toFinset).card := by omega
      obtain ⟨index, hindex⟩ := Finset.card_pos.mp hpos
      exact ⟨index, hindex, fun hfew => absurd hfew hmany⟩
  obtain ⟨index, hindex, hfar⟩ := hexists
  rw [Finset.mem_sdiff, Finset.mem_range, List.mem_toFinset] at hindex
  refine ⟨index, hindex.1, ?_⟩
  have hok : ¬ (50 < list.length - tempShuffled.length ∧ distance index lastindex < 10) := by
    intro hboth
    have hten := distance_of_not_mem_closeTo (hfar hboth.1)
    omega
  unfold acceptIndex
  rw [h.used_false hindex.1 hindex.2, Bool.and_eq_true, Bool.not_eq_true', ← Bool.decide_and,
    decide_eq_false_iff_not]
  exact ⟨rfl, hok⟩

end Drawn

/-! ## One round of the loop -/

theorem free_of_acceptIndex {usedList : List Bool} {left lastindex index : Nat}
    (h : acceptIndex usedList left lastindex index = true) : usedList[index]? = some false := by
  unfold acceptIndex at h
  simp only [Bool.and_eq_true, beq_iff_eq] at h
  exact h.1

section Rounds

variable {list : List Ptr} {rand : Rand} {draws : List Rand} {usedList : List Bool}
  {lastindex : Nat} {tempShuffled : List Ptr}

theorem shuffleLoop_accept (hmore : tempShuffled.length < list.length) {dupe : Ptr}
    (haccept : acceptIndex usedList (list.length - tempShuffled.length) lastindex
      (drawIndex list.length rand) = true)
    (hitem : list[drawIndex list.length rand]? = some dupe) :
    shuffleLoop list (rand :: draws) usedList lastindex tempShuffled =
      shuffleLoop list draws (usedList.set (drawIndex list.length rand) true)
        (drawIndex list.length rand) (tempShuffled ++ [dupe]) := by
  rw [shuffleLoop, if_pos hmore]
  simp only [haccept, if_true, hitem]

theorem shuffleLoop_reject (hmore : tempShuffled.length < list.length)
    (hreject : acceptIndex usedList (list.length - tempShuffled.length) lastindex
      (drawIndex list.length rand) = false) :
    shuffleLoop list (rand :: draws) usedList lastindex tempShuffled =
      shuffleLoop list draws usedList lastindex tempShuffled := by
  rw [shuffleLoop, if_pos hmore]
  simp only [hreject, Bool.false_eq_true, if_false]

/-- With all the items it is done, whatever is still drawn. -/
theorem shuffleLoop_done (hdone : ¬ tempShuffled.length < list.length) :
    shuffleLoop list draws usedList lastindex tempShuffled = .ok tempShuffled := by
  cases draws with
  | nil => rw [shuffleLoop, if_neg hdone]
  | cons rand draws => rw [shuffleLoop, if_neg hdone]

end Rounds

/-- Whatever is drawn, the loop goes on from a state in which the indices so far are
distinct and in range. -/
theorem shuffleLoop_append {list : List Ptr} : ∀ (draws : List Rand) {usedList : List Bool}
    (lastindex : Nat) {tempShuffled : List Ptr} {indices : List Nat},
    Drawn list usedList tempShuffled indices →
    ∃ usedList' lastindex' tempShuffled' indices',
      Drawn list usedList' tempShuffled' indices' ∧
      ∀ more, shuffleLoop list (draws ++ more) usedList lastindex tempShuffled =
        shuffleLoop list more usedList' lastindex' tempShuffled' := by
  intro draws
  induction draws with
  | nil =>
    intro usedList lastindex tempShuffled indices h
    exact ⟨usedList, lastindex, tempShuffled, indices, h, fun _ => rfl⟩
  | cons rand draws ih =>
    intro usedList lastindex tempShuffled indices h
    by_cases hmore : tempShuffled.length < list.length
    · have hlt := drawIndex_lt (Nat.lt_of_le_of_lt (Nat.zero_le _) hmore) rand
      have hitem := List.getElem?_eq_getElem hlt
      cases haccept : acceptIndex usedList (list.length - tempShuffled.length) lastindex
          (drawIndex list.length rand) with
      | true =>
        obtain ⟨usedList', lastindex', tempShuffled', indices', h', hrest⟩ :=
          ih (drawIndex list.length rand) (h.push (free_of_acceptIndex haccept) hitem)
        refine ⟨usedList', lastindex', tempShuffled', indices', h', fun more => ?_⟩
        rw [← hrest more, List.cons_append, shuffleLoop_accept hmore haccept hitem]
      | false =>
        obtain ⟨usedList', lastindex', tempShuffled', indices', h', hrest⟩ := ih lastindex h
        refine ⟨usedList', lastindex', tempShuffled', indices', h', fun more => ?_⟩
        rw [← hrest more, List.cons_append, shuffleLoop_reject hmore haccept]
    · refine ⟨usedList, lastindex, tempShuffled, indices, h, fun more => ?_⟩
      rw [shuffleLoop_done hmore, shuffleLoop_done hmore]

/-! ## The end of the loop -/

/-- The random numbers from the time `t` on, `n` of them. -/
def drawsFrom (draws : Nat → Rand) (t n : Nat) : List Rand := (List.range' t n).map draws

theorem drawsFrom_succ (draws : Nat → Rand) (t n : Nat) :
    drawsFrom draws t (n + 1) = draws t :: drawsFrom draws (t + 1) n := rfl

/-- Every index is drawn again and again. -/
def DrawsAll (max : Nat) (draws : Nat → Rand) : Prop :=
  ∀ index, index < max → ∀ t, ∃ k, t ≤ k ∧ drawIndex max (draws k) = index

/-- The loop ends from this state on, with the random numbers from the time `t` on. -/
def EndsFrom (list : List Ptr) (draws : Nat → Rand) (usedList : List Bool) (lastindex : Nat)
    (tempShuffled : List Ptr) (t : Nat) : Prop :=
  ∃ n shuffled,
    shuffleLoop list (drawsFrom draws t n) usedList lastindex tempShuffled = .ok shuffled

section Ends

variable {list : List Ptr} {draws : Nat → Rand} {usedList : List Bool} {lastindex : Nat}
  {tempShuffled : List Ptr} {t : Nat}

theorem EndsFrom.of_accept (hmore : tempShuffled.length < list.length) {dupe : Ptr}
    (haccept : acceptIndex usedList (list.length - tempShuffled.length) lastindex
      (drawIndex list.length (draws t)) = true)
    (hitem : list[drawIndex list.length (draws t)]? = some dupe)
    (h : EndsFrom list draws (usedList.set (drawIndex list.length (draws t)) true)
      (drawIndex list.length (draws t)) (tempShuffled ++ [dupe]) (t + 1)) :
    EndsFrom list draws usedList lastindex tempShuffled t := by
  obtain ⟨n, shuffled, hend⟩ := h
  refine ⟨n + 1, shuffled, ?_⟩
  rw [drawsFrom_succ, shuffleLoop_accept hmore haccept hitem, hend]

theorem EndsFrom.of_reject (hmore : tempShuffled.length < list.length)
    (hreject : acceptIndex usedList (list.length - tempShuffled.length) lastindex
      (drawIndex list.length (draws t)) = false)
    (h : EndsFrom list draws usedList lastindex tempShuffled (t + 1)) :
    EndsFrom list draws usedList lastindex tempShuffled t := by
  obtain ⟨n, shuffled, hend⟩ := h
  refine ⟨n + 1, shuffled, ?_⟩
  rw [drawsFrom_succ, shuffleLoop_reject hmore hreject, hend]

/-- A loop that is to accept an index ends, if it ends once it has accepted one. -/
theorem EndsFrom.wait (hmore : tempShuffled.length < list.length) {good : Nat}
    (hgood : acceptIndex usedList (list.length - tempShuffled.length) lastindex good = true)
    (hend : ∀ t dupe, list[drawIndex list.length (draws t)]? = some dupe →
      acceptIndex usedList (list.length - tempShuffled.length) lastindex
        (drawIndex list.length (draws t)) = true →
      EndsFrom list draws (usedList.set (drawIndex list.length (draws t)) true)
        (drawIndex list.length (draws t)) (tempShuffled ++ [dupe]) (t + 1)) :
    ∀ (rounds t : Nat), drawIndex list.length (draws (t + rounds)) = good →
      EndsFrom list draws usedList lastindex tempShuffled t := by
  intro rounds
  induction rounds with
  | zero =>
    intro t hdraw
    rw [Nat.add_zero] at hdraw
    rw [← hdraw] at hgood
    have hlt := drawIndex_lt (Nat.lt_of_le_of_lt (Nat.zero_le _) hmore) (draws t)
    have hitem := List.getElem?_eq_getElem hlt
    exact .of_accept hmore hgood hitem (hend t _ hitem hgood)
  | succ rounds ih =>
    intro t hdraw
    cases haccept : acceptIndex usedList (list.length - tempShuffled.length) lastindex
        (drawIndex list.length (draws t)) with
    | true =>
      have hlt := drawIndex_lt (Nat.lt_of_le_of_lt (Nat.zero_le _) hmore) (draws t)
      have hitem := List.getElem?_eq_getElem hlt
      exact .of_accept hmore haccept hitem (hend t _ hitem haccept)
    | false =>
      refine .of_reject hmore haccept (ih (t + 1) ?_)
      rw [Nat.add_assoc, Nat.add_comm 1]
      exact hdraw

end Ends

theorem shuffleLoop_ends {list : List Ptr} {draws : Nat → Rand}
    (hall : DrawsAll list.length draws) : ∀ {left : Nat} {usedList : List Bool}
    {tempShuffled : List Ptr} {indices : List Nat} (lastindex t : Nat),
    Drawn list usedList tempShuffled indices → list.length - tempShuffled.length = left →
    EndsFrom list draws usedList lastindex tempShuffled t := by
  intro left
  induction left with
  | zero =>
    intro usedList tempShuffled indices lastindex t _ hleft
    exact ⟨0, tempShuffled, shuffleLoop_done (by omega)⟩
  | succ left ih =>
    intro usedList tempShuffled indices lastindex t h hleft
    have hmore : tempShuffled.length < list.length := by omega
    obtain ⟨good, hgood, hok⟩ := h.exists_acceptIndex hmore lastindex
    obtain ⟨k, hk, hdraw⟩ := hall good hgood t
    refine EndsFrom.wait hmore hok (fun t dupe hitem haccept => ?_) (k - t) t ?_
    · refine ih _ _ (h.push (free_of_acceptIndex haccept) hitem) ?_
      rw [List.length_append, List.length_singleton]
      omega
    · rw [Nat.add_sub_cancel' hk, hdraw]

end FreeAmp.Base
