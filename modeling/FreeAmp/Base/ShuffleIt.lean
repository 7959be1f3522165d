/-
  Base/ShuffleIt.lean --- `PlaylistManager::ShuffleIt`.

  The function draws an index, again and again, until it gets one that it has not
  used; while many items are left it also wants the index not to be close to the
  one before.  The random numbers are an argument.  Whatever they are, when the
  loop ends the result is a permutation of the list.

  The invariant of the loop is `Drawn`: the indices drawn so far are distinct and
  in range, `usedList` marks exactly them, and `tempShuffled` is what stands there.
-/
import FreeAmp.Base.Playlist
import Mathlib.Data.List.Perm.Basic
import Mathlib.Data.List.Nodup
import Mathlib.Data.List.Range
import Mathlib.Tactic.Cases

namespace FreeAmp.Base

open FreeAmp.Lib

def randMax : Nat := 0x7FFFFFFF

/-- What `rand()` returns. -/
abbrev Rand : Type := Fin (randMax + 1)

/-- `(int)((double)rand() / (RAND_MAX + 1.0) * max)` -/
def drawIndex (max : Nat) (rand : Rand) : Nat := rand.val * max / (randMax + 1)

/-- `abs(index - lastindex)` -/
def distance (index lastindex : Nat) : Nat := (index - lastindex) + (lastindex - index)

/-- Whether the inner loop of `ShuffleIt` is done with the index it has drawn; `left` is
`max - i`. -/
def acceptIndex (usedList : List Bool) (left lastindex index : Nat) : Bool :=
  usedList[index]? == some false && !(decide (50 < left) && decide (distance index lastindex < 10))

def shuffleLoop (list : List Ptr) :
    List Rand → List Bool → Nat → List Ptr → Checked (List Ptr)
  | [], _, _, tempShuffled =>
    if tempShuffled.length < list.length then .error .drawing else .ok tempShuffled
  | rand :: draws, usedList, lastindex, tempShuffled =>
    if tempShuffled.length < list.length then
      let index := drawIndex list.length rand
      if acceptIndex usedList (list.length - tempShuffled.length) lastindex index then
        match list[index]? with
        | some dupe =>
          shuffleLoop list draws (usedList.set index true) index (tempShuffled ++ [dupe])
        | none => .error .badIndex
      else shuffleLoop list draws usedList lastindex tempShuffled
    else .ok tempShuffled

def shuffleIt (list : List Ptr) (draws : List Rand) : Checked (List Ptr) :=
  shuffleLoop list draws (List.replicate list.length false) 0 []

/-! ## The result is a permutation -/

theorem drawIndex_lt {max : Nat} (hmax : 0 < max) (rand : Rand) : drawIndex max rand < max := by
  unfold drawIndex
  rw [Nat.div_lt_iff_lt_mul (Nat.succ_pos _), Nat.mul_comm max]
  exact Nat.mul_lt_mul_of_pos_right rand.isLt hmax

/-- What the loop has done so far, in terms of the indices it has drawn. -/
structure Drawn (list : List Ptr) (usedList : List Bool) (tempShuffled : List Ptr)
    (indices : List Nat) : Prop where
  distinct : indices.Nodup
  inRange : ∀ i ∈ indices, i < list.length
  used_length : usedList.length = list.length
  used_iff : ∀ i, i < list.length → (usedList[i]? = some true ↔ i ∈ indices)
  shuffled : tempShuffled.map some = indices.map fun i => list[i]?

namespace Drawn

variable {list : List Ptr} {usedList : List Bool} {tempShuffled : List Ptr}
  {indices : List Nat}

theorem init (list : List Ptr) : Drawn list (List.replicate list.length false) [] [] where
  distinct := .nil
  inRange i hi := by simp at hi
  used_length := by simp
  used_iff i hi := by simp [hi]
  shuffled := rfl

theorem length_eq (h : Drawn list usedList tempShuffled indices) :
    tempShuffled.length = indices.length := by
  have hlen := congrArg List.length h.shuffled
  simpa using hlen

/-- An index that is accepted has not been drawn before. -/
theorem push (h : Drawn list usedList tempShuffled indices) {index : Nat} {dupe : Ptr}
    (hfree : usedList[index]? = some false) (hdupe : list[index]? = some dupe) :
    Drawn list (usedList.set index true) (tempShuffled ++ [dupe]) (indices ++ [index]) := by
  have hlt : index < list.length := (List.getElem?_eq_some_iff.mp hdupe).1
  have hnew : index ∉ indices := by
    intro hmem
    have hused := (h.used_iff index hlt).mpr hmem
    rw [hfree] at hused
    simp at hused
  refine
    { distinct := ?_
      inRange := ?_
      used_length := by simp [h.used_length]
      used_iff := ?_
      shuffled := by simp [h.shuffled, hdupe] }
  · refine List.nodup_append.mpr ⟨h.distinct, List.nodup_singleton _, ?_⟩
    rintro i hi j hj rfl
    obtain rfl := List.mem_singleton.mp hj
    exact hnew hi
  · intro i hi
    rcases List.mem_append.mp hi with hold | hlast
    · exact h.inRange i hold
    · obtain rfl := List.mem_singleton.mp hlast
      exact hlt
  · intro i hi
    rw [List.getElem?_set, List.mem_append, List.mem_singleton]
    rcases eq_or_ne index i with rfl | hne
    · simp [h.used_length, hi]
    · rw [if_neg hne, h.used_iff i hi]
      simp [hne.symm]

/-- When as many indices as items are drawn, every item has been. -/
theorem perm (h : Drawn list usedList tempShuffled indices)
    (hfull : list.length ≤ tempShuffled.length) : tempShuffled.Perm list := by
  have hsub : indices ⊆ List.range list.length := fun i hi =>
    List.mem_range.mpr (h.inRange i hi)
  have hall : indices.Perm (List.range list.length) := by
    refine (List.subperm_of_subset h.distinct hsub).perm_of_length_le ?_
    rw [List.length_range, ← h.length_eq]
    exact hfull
  have hmap : (tempShuffled.map some).Perm (list.map some) := by
    rw [h.shuffled]
    refine (hall.map _).trans ?_
    refine List.Perm.of_eq (List.ext_getElem? fun i => ?_)
    by_cases hi : i < list.length
    · simp [hi]
    · simp [Nat.not_lt.mp hi]
  have hback := hmap.filterMap id
  simpa [List.filterMap_map] using hback

end Drawn

theorem shuffleLoop_perm {E : Fault → Prop} (hE : E .drawing) {list : List Ptr} :
    ∀ {draws : List Rand} {usedList : List Bool} {lastindex : Nat} {tempShuffled : List Ptr}
      {indices : List Nat}, Drawn list usedList tempShuffled indices →
      Meets (shuffleLoop list draws usedList lastindex tempShuffled) E
        fun shuffled => shuffled.Perm list := by
  intro draws
  induction draws with
  | nil =>
    intro usedList lastindex tempShuffled indices h
    unfold shuffleLoop
    split
    · exact hE
    · rename_i hdone
      exact h.perm (Nat.not_lt.mp hdone)
  | cons rand draws ih =>
    intro usedList lastindex tempShuffled indices h
    unfold shuffleLoop
    split
    · rename_i hmore
      have hlt := drawIndex_lt (Nat.lt_of_le_of_lt (Nat.zero_le _) hmore) rand
      simp only
      split
      · rename_i haccept
        have hfree : usedList[drawIndex list.length rand]? = some false := by
          unfold acceptIndex at haccept
          simp only [Bool.and_eq_true, beq_iff_eq] at haccept
          exact haccept.1
        rw [List.getElem?_eq_getElem hlt]
        exact ih (h.push hfree (List.getElem?_eq_getElem hlt))
      · exact ih h
    · rename_i hdone
      exact h.perm (Nat.not_lt.mp hdone)

theorem shuffleIt_perm {E : Fault → Prop} (hE : E .drawing) (list : List Ptr)
    (draws : List Rand) : Meets (shuffleIt list draws) E fun shuffled => shuffled.Perm list :=
  shuffleLoop_perm hE (Drawn.init list)

end FreeAmp.Base
