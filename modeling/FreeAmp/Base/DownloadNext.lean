/-
  Base/DownloadNext.lean --- `DownloadManager::GetNextQueuedItem`, from
  `base/src/downloadmanager.cpp`.

      getNextQueuedItem_spec   one call, for any list and any `m_downloadIndex`
      serve_spec               call after call, every queued item comes once

  The list is shorter than an `int` can count.
-/
import FreeAmp.Base.DownloadItem
import Mathlib.Data.List.Nodup
import Mathlib.Data.List.Perm.Subperm

namespace FreeAmp.Base

open FreeAmp.Lib

/-- What of a `DownloadManager` the function reads and changes. -/
structure DownloadList where
  itemList : List DownloadItem
  downloadIndex : Int
  deriving DecidableEq

namespace DownloadList

/-- How a call fails to return. -/
inductive ScanFault where
  | moduloByZero
  /-- the rounds that are allowed have been made -/
  | rounds
  deriving DecidableEq, Repr

/-- `m_itemList[i]->GetState() == kDownloadItemState_Queued` -/
def isQueued (itemList : List DownloadItem) (i : Nat) : Bool :=
  (itemList[i]?.map DownloadItem.state) == some .queued

/-- The loop: where it stops. -/
def scanFrom (itemList : List DownloadItem) : Nat → Nat → Nat → Except ScanFault (Option Nat)
  | 0, _, _ => .error .rounds
  | rounds + 1, i, total =>
    if i < itemList.length then
      if itemList.length ≤ total then .ok none
      else if isQueued itemList i then .ok (some i)
      else if itemList.length = 0 then .error .moduloByZero
      else scanFrom itemList rounds ((i + 1) % itemList.length) (total + 1)
    else .ok none

/-- `m_downloadIndex` at the beginning of the loop. -/
def startIndex (m : DownloadList) : Int :=
  if m.downloadIndex < 0 ∨ (m.itemList.length : Int) ≤ m.downloadIndex then 0
  else m.downloadIndex

/-- `GetNextQueuedItem`: the position of the item that is returned. -/
def getNextQueuedItem (rounds : Nat) (m : DownloadList) :
    Except ScanFault (Option Nat × DownloadList) :=
  (scanFrom m.itemList rounds m.startIndex.toNat 0).map fun found =>
    (found,
      { m with downloadIndex := if found.isSome then m.startIndex + 1 else m.startIndex })

/-! ## The loop -/

/-- Some item is queued. -/
def HasQueued (itemList : List DownloadItem) : Prop := ∃ i, isQueued itemList i = true

theorem isQueued_lt {itemList : List DownloadItem} {i : Nat} (h : isQueued itemList i = true) :
    i < itemList.length := by
  unfold isQueued at h
  by_contra hge
  rw [List.getElem?_eq_none (Nat.le_of_not_lt hge)] at h
  exact absurd h nofun

/-- The loop comes to its end, and what it stops at is queued; where it stops at nothing, none of
the items that it was still to look at is queued. -/
theorem scanFrom_spec {itemList : List DownloadItem} {rounds i total : Nat}
    (hi : i < itemList.length) (htotal : total ≤ itemList.length)
    (hrounds : itemList.length - total < rounds) :
    ∃ found, scanFrom itemList rounds i total = .ok found ∧
      (∀ k, found = some k → isQueued itemList k = true) ∧
      (found = none → ∀ d, d < itemList.length - total →
        isQueued itemList ((i + d) % itemList.length) = false) := by
  induction rounds generalizing i total with
  | zero => exact absurd hrounds (Nat.not_lt_zero _)
  | succ rounds ih =>
    have hpos : 0 < itemList.length := Nat.zero_lt_of_lt hi
    rw [scanFrom, if_pos hi]
    by_cases hend : itemList.length ≤ total
    · rw [if_pos hend]
      refine ⟨none, rfl, nofun, fun _ d hd => ?_⟩
      omega
    · rw [if_neg hend]
      cases hqueued : isQueued itemList i with
      | true =>
        rw [if_pos rfl]
        refine ⟨some i, rfl, fun k hk => ?_, nofun⟩
        rw [← Option.some.inj hk]
        exact hqueued
      | false =>
        rw [if_neg Bool.false_ne_true, if_neg hpos.ne']
        obtain ⟨found, hfound, hsome, hnone⟩ :=
          @ih ((i + 1) % itemList.length) (total + 1) (Nat.mod_lt _ hpos) (by omega) (by omega)
        refine ⟨found, hfound, hsome, fun hnot d hd => ?_⟩
        cases d with
        | zero =>
          rw [Nat.add_zero, Nat.mod_eq_of_lt hi]
          exact hqueued
        | succ d =>
          have hrest := hnone hnot d (by omega)
          rw [Nat.mod_add_mod] at hrest
          rw [← hrest]
          congr 2
          omega

/-- A call comes to its end within as many rounds as there are items, and one more. -/
theorem getNextQueuedItem_spec (m : DownloadList) (more : Nat) :
    ∃ found m', getNextQueuedItem (m.itemList.length + 1 + more) m = .ok (found, m') ∧
      m'.itemList = m.itemList ∧ (∀ i, found = some i → isQueued m.itemList i = true) ∧
      (found = none ↔ ¬ HasQueued m.itemList) := by
  by_cases hpos : m.itemList.length = 0
  · have hloop : scanFrom m.itemList (m.itemList.length + 1 + more) m.startIndex.toNat 0 =
        .ok none := by
      rw [show m.itemList.length + 1 + more = (m.itemList.length + more) + 1 by omega, scanFrom,
        if_neg (by omega)]
    refine ⟨none, { m with downloadIndex := m.startIndex },
      by rw [getNextQueuedItem, hloop]; rfl, rfl, nofun, iff_of_true rfl ?_⟩
    rintro ⟨i, hi⟩
    have hlt := isQueued_lt hi
    omega
  · have hstart : m.startIndex.toNat < m.itemList.length := by
      unfold startIndex
      split <;> omega
    obtain ⟨found, hfound, hsome, hnone⟩ := @scanFrom_spec m.itemList
      (m.itemList.length + 1 + more) m.startIndex.toNat 0 hstart (Nat.zero_le _) (by omega)
    refine ⟨found,
      { m with downloadIndex := if found.isSome then m.startIndex + 1 else m.startIndex },
      by rw [getNextQueuedItem, hfound]; rfl, rfl, hsome, ?_⟩
    constructor
    · rintro hnot ⟨i, hi⟩
      have hlt := isQueued_lt hi
      -- every position is as far from the first one as one of the rounds
      have hround := hnone hnot ((i + (m.itemList.length - m.startIndex.toNat)) % m.itemList.length)
        (Nat.mod_lt _ (by omega))
      rw [Nat.add_mod_mod, show m.startIndex.toNat + (i + (m.itemList.length - m.startIndex.toNat)) =
        i + m.itemList.length by omega, Nat.add_mod_right, Nat.mod_eq_of_lt hlt, hi] at hround
      exact absurd hround nofun
    · intro hno
      cases found with
      | none => rfl
      | some i => exact absurd ⟨i, hsome i rfl⟩ hno

/-! ## Call after call -/

/-- A state that is not `kDownloadItemState_Queued`. -/
abbrev Left := { state : DownloadItemState // state ≠ .queued }

/-- The item is left in a state. -/
def leave (m : DownloadList) (i : Nat) (state : Left) : DownloadList :=
  { m with itemList := m.itemList.modify i fun item => { item with state := state.1 } }

/-- Calls, each followed by the item that it returned leaving its state. -/
def serve (more : Nat) (m : DownloadList) :
    List Left → Except ScanFault (List (Option Nat) × DownloadList)
  | [] => .ok ([], m)
  | state :: states => do
      let (found, m) ← getNextQueuedItem (m.itemList.length + 1 + more) m
      let (rest, m) ← serve more
        (match found with
          | none => m
          | some i => m.leave i state) states
      .ok (found :: rest, m)

def queuedPositions (itemList : List DownloadItem) : List Nat :=
  (List.range itemList.length).filter (isQueued itemList)

theorem mem_queuedPositions {itemList : List DownloadItem} {i : Nat} :
    i ∈ queuedPositions itemList ↔ isQueued itemList i = true := by
  unfold queuedPositions
  rw [List.mem_filter, List.mem_range]
  exact ⟨fun h => h.2, fun h => ⟨isQueued_lt h, h⟩⟩

/-- An item that has left its state is no longer looked for, and the others are as they were. -/
theorem isQueued_leave (m : DownloadList) (i k : Nat) (state : Left) :
    isQueued (m.leave i state).itemList k = (isQueued m.itemList k && decide (k ≠ i)) := by
  unfold isQueued leave
  simp only [List.getElem?_modify]
  by_cases hik : i = k
  · subst hik
    rw [decide_eq_false (not_not_intro rfl), Bool.and_false]
    cases m.itemList[i]? with
    | none => rfl
    | some item => simpa using state.2
  · rw [decide_eq_true (Ne.symm hik), Bool.and_true]
    cases m.itemList[k]? with
    | none => simp
    | some item => simp [hik]

theorem queuedPositions_leave (m : DownloadList) (i : Nat) (state : Left) :
    queuedPositions (m.leave i state).itemList =
      (queuedPositions m.itemList).filter fun k => decide (k ≠ i) := by
  have hlength : (m.leave i state).itemList.length = m.itemList.length := by
    unfold leave
    exact List.length_modify _ _ _
  unfold queuedPositions
  rw [hlength, List.filter_filter]
  refine List.filter_congr fun k _ => ?_
  rw [isQueued_leave, Bool.and_comm]

theorem nodup_queuedPositions (itemList : List DownloadItem) :
    (queuedPositions itemList).Nodup :=
  List.nodup_range.filter _

/-- As long as items are queued, each call returns another one of them. -/
theorem serve_spec (more : Nat) (states : List Left) (m : DownloadList) :
    ∃ (served : List Nat) (m' : DownloadList), serve more m states =
        .ok (served.map some ++ List.replicate (states.length - served.length) none, m') ∧
      served.Nodup ∧ (∀ i ∈ served, i ∈ queuedPositions m.itemList) ∧
      served.length = min states.length (queuedPositions m.itemList).length := by
  induction states generalizing m with
  | nil => exact ⟨[], m, rfl, List.nodup_nil, nofun, (Nat.zero_min _).symm⟩
  | cons state states ih =>
    obtain ⟨found, m₁, hcall, hitems, hsome, hnone⟩ := getNextQueuedItem_spec m more
    unfold serve
    rw [hcall, ok_bind]
    cases found with
    | none =>
      have hempty : queuedPositions m.itemList = [] := by
        rw [List.eq_nil_iff_forall_not_mem]
        intro i hi
        exact hnone.mp rfl ⟨i, mem_queuedPositions.mp hi⟩
      obtain ⟨served, m', hrest, hnodup, hmem, hlength⟩ := ih m₁
      rw [hitems, hempty, List.length_nil, Nat.min_zero] at hlength
      obtain rfl := List.eq_nil_of_length_eq_zero hlength
      refine ⟨[], m', ?_, List.nodup_nil, nofun, by rw [hempty]; rfl⟩
      simp only [hrest]
      rfl
    | some i =>
      have hi := mem_queuedPositions.mpr (hsome i rfl)
      obtain ⟨served, m', hrest, hnodup, hmem, hlength⟩ := ih (m₁.leave i state)
      rw [queuedPositions_leave, hitems] at hmem hlength
      have hcount : ((queuedPositions m.itemList).filter fun k => decide (k ≠ i)).length + 1 =
          (queuedPositions m.itemList).length := by
        have hfilter : ((queuedPositions m.itemList).filter fun k => decide (k ≠ i)) =
            (queuedPositions m.itemList).erase i := by
          rw [(nodup_queuedPositions m.itemList).erase_eq_filter i]
          refine List.filter_congr fun k _ => ?_
          by_cases hk : k = i <;> simp [hk]
        rw [hfilter, List.length_erase_add_one hi]
      refine ⟨i :: served, m', ?_, ?_, ?_, ?_⟩
      · simp only [hrest, ok_bind, List.map_cons, List.length_cons, List.cons_append,
          Nat.add_sub_add_right]
      · refine List.nodup_cons.mpr ⟨fun hin => ?_, hnodup⟩
        have hne := (List.mem_filter.mp (hmem i hin)).2
        exact absurd rfl (of_decide_eq_true hne)
      · rw [List.forall_mem_cons]
        exact ⟨hi, fun k hk => (List.mem_filter.mp (hmem k hk)).1⟩
      · rw [List.length_cons, List.length_cons, hlength]
        omega

/-- A call returns a queued item if there is one and nothing otherwise, and calls after each of
which the item leaves its state return every queued item once. -/
theorem getNextQueuedItem_serves (m : DownloadList) (more : Nat) (states : List Left) :
    (∃ found m', getNextQueuedItem (m.itemList.length + 1 + more) m = .ok (found, m') ∧
      m'.itemList = m.itemList ∧ (∀ i, found = some i → isQueued m.itemList i = true) ∧
      (found = none ↔ ¬ HasQueued m.itemList)) ∧
    ∃ (served : List Nat) (m' : DownloadList), serve more m states =
        .ok (served.map some ++ List.replicate (states.length - served.length) none, m') ∧
      served.Subperm (queuedPositions m.itemList) ∧
      ((queuedPositions m.itemList).length ≤ states.length →
        served.Perm (queuedPositions m.itemList)) := by
  refine ⟨getNextQueuedItem_spec m more, ?_⟩
  obtain ⟨served, m', hserve, hnodup, hmem, hlength⟩ := serve_spec more states m
  have hsub := hnodup.subperm hmem
  refine ⟨served, m', hserve, hsub, fun hlong => hsub.perm_of_length_le ?_⟩
  rw [hlength, Nat.min_eq_right hlong]

end DownloadList

end FreeAmp.Base
