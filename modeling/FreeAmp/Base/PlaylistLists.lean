/-
  Base/PlaylistLists.lean --- the lists of the playlist manager and the index into
  them.

  `Sound` is what holds of the lists in every state the manager can get into: the
  shuffle list is a permutation of the master list, whose items are distinct and
  not NULL.  `CurrentOk` is what is meant to hold of `m_current` besides.  The two
  are apart because the second can be lost while the external playlist is active.
-/
import FreeAmp.Base.PlaylistManager
import FreeAmp.Lib.Transition

namespace FreeAmp.Base

open FreeAmp.Lib

theorem kInvalidIndex_eq : kInvalidIndex = 4294967295 := rfl

theorem vecMaxSize_eq : vecMaxSize = 1073741823 := rfl

theorem toUint32_of_lt {n : Nat} (h : n < 4294967296) : toUint32 n = n :=
  Nat.mod_eq_of_lt h

theorem predUint32_zero : predUint32 0 = kInvalidIndex := rfl

theorem predUint32_of_pos {n : Nat} (hpos : 0 < n) (h : n < 4294967296) :
    predUint32 n = n - 1 := by
  unfold predUint32 toUint32
  omega

theorem toUint32_le (n : Nat) : toUint32 n ≤ kInvalidIndex :=
  Nat.le_of_lt_succ (Nat.mod_lt n (Nat.succ_pos _))

theorem predUint32_le (n : Nat) : predUint32 n ≤ kInvalidIndex := toUint32_le _

/-! ## Looking an item up -/

theorem internalIndexOf_of_mem {list : List Ptr} {item : Ptr}
    (hsize : list.length ≤ vecMaxSize) (hnull : item ≠ null) (hmem : item ∈ list) :
    internalIndexOf list item = list.idxOf item := by
  have hlt := List.idxOf_lt_length_iff.mpr hmem
  unfold internalIndexOf
  rw [if_pos ⟨hnull, hmem⟩, toUint32_of_lt (by rw [vecMaxSize_eq] at hsize; omega)]

theorem internalIndexOf_of_not_mem {list : List Ptr} {item : Ptr} (hmem : item ∉ list) :
    internalIndexOf list item = kInvalidIndex := by
  unfold internalIndexOf
  rw [if_neg fun h => hmem h.2]

theorem internalIndexOf_le (list : List Ptr) (item : Ptr) :
    internalIndexOf list item ≤ kInvalidIndex := by
  unfold internalIndexOf
  split
  · exact toUint32_le _
  · exact Nat.le_refl _

theorem internalIndexOf_null (list : List Ptr) : internalIndexOf list null = kInvalidIndex := by
  unfold internalIndexOf
  rw [if_neg fun h => h.1 rfl]

theorem getElem?_internalIndexOf {list : List Ptr} {item : Ptr}
    (hsize : list.length ≤ vecMaxSize) (hnull : item ≠ null) (hmem : item ∈ list) :
    list[internalIndexOf list item]? = some item := by
  rw [internalIndexOf_of_mem hsize hnull hmem]
  exact List.getElem?_idxOf hmem

/-- In a list of distinct items an item is found where it stands. -/
theorem internalIndexOf_getElem? {list : List Ptr} {item : Ptr} {i : Nat}
    (hsize : list.length ≤ vecMaxSize) (hnodup : list.Nodup) (hnull : item ≠ null)
    (hi : list[i]? = some item) : internalIndexOf list item = i := by
  obtain ⟨hlt, rfl⟩ := List.getElem?_eq_some_iff.mp hi
  rw [internalIndexOf_of_mem hsize hnull (List.getElem_mem hlt)]
  exact hnodup.idxOf_getElem i hlt

theorem internalIndexOf_lt_iff {list : List Ptr} {item : Ptr}
    (hsize : list.length ≤ vecMaxSize) :
    internalIndexOf list item < list.length ↔ item ≠ null ∧ item ∈ list := by
  constructor
  · intro hlt
    by_contra hnot
    unfold internalIndexOf at hlt
    rw [if_neg hnot, kInvalidIndex_eq] at hlt
    rw [vecMaxSize_eq] at hsize
    omega
  · rintro ⟨hnull, hmem⟩
    rw [internalIndexOf_of_mem hsize hnull hmem]
    exact List.idxOf_lt_length_iff.mpr hmem

namespace Playlists

/-! ## The invariant -/

/-- What holds of the lists of the manager in every state. -/
structure Sound (p : Playlists) : Prop where
  /-- the shuffle list is a permutation of the master list -/
  perm : p.shuffleList.Perm p.masterList
  nodup : p.masterList.Nodup
  nonnull : null ∉ p.masterList
  size : p.masterList.length ≤ vecMaxSize
  external_size : p.externalList.length ≤ vecMaxSize
  active_iff : p.activeList = .master ↔ p.playlistKey = .master

/-- `m_current` is an index into the list being played, if there is one. -/
def CurrentValid (p : Playlists) : Prop :=
  p.masterList ≠ [] → p.current < p.masterList.length

instance (p : Playlists) : Decidable p.CurrentValid := inferInstanceAs (Decidable (_ → _))

/-- `m_current` is the invalid index exactly when there is nothing to play, and an index
into the list being played otherwise. -/
def CurrentOk (p : Playlists) : Prop :=
  (p.masterList = [] → p.current = kInvalidIndex) ∧
    (p.masterList ≠ [] → p.current < p.masterList.length)

instance (p : Playlists) : Decidable p.CurrentOk := inferInstanceAs (Decidable (_ ∧ _))

variable {p : Playlists}

namespace Sound

theorem playing_perm (hs : Sound p) : p.playing.Perm p.masterList := by
  unfold playing
  split
  · exact hs.perm
  · exact List.Perm.refl _

theorem playing_length (hs : Sound p) : p.playing.length = p.masterList.length :=
  hs.playing_perm.length_eq

theorem playing_nodup (hs : Sound p) : p.playing.Nodup :=
  hs.playing_perm.nodup_iff.mpr hs.nodup

theorem playing_nonnull (hs : Sound p) {i : Nat} {x : Ptr} (hx : p.playing[i]? = some x) :
    x ≠ null := by
  rintro rfl
  exact hs.nonnull (hs.playing_perm.mem_iff.mp (List.mem_of_getElem? hx))

theorem shuffle_size (hs : Sound p) : p.shuffleList.length ≤ vecMaxSize := by
  rw [hs.perm.length_eq]
  exact hs.size

theorem active_size (hs : Sound p) : p.active.length ≤ vecMaxSize := by
  unfold active
  split
  · exact hs.size
  · exact hs.external_size

theorem activeList_master (hs : Sound p) (hm : p.onMaster = true) : p.activeList = .master := by
  have hkey : p.playlistKey = .master := by simpa [onMaster] using hm
  exact hs.active_iff.mpr hkey

theorem activeList_external (hs : Sound p) (hm : p.onMaster = false) :
    p.activeList = .external := by
  have hkey : p.playlistKey ≠ .master := by simpa [onMaster] using hm
  cases hact : p.activeList with
  | master => exact absurd (hs.active_iff.mp hact) hkey
  | external => rfl

theorem active_eq (hs : Sound p) (hm : p.onMaster = true) : p.active = p.masterList := by
  unfold active
  rw [hs.activeList_master hm]

theorem active_external (hs : Sound p) (hm : p.onMaster = false) :
    p.active = p.externalList := by
  unfold active
  rw [hs.activeList_external hm]

/-- A master list of the manager has fewer items than there are indices. -/
theorem length_lt (hs : Sound p) : p.masterList.length < kInvalidIndex := by
  have hsize := hs.size
  rw [vecMaxSize_eq] at hsize
  rw [kInvalidIndex_eq]
  omega

theorem index_le (hs : Sound p) {i : Nat} (hi : i < p.playing.length) : i ≤ kInvalidIndex := by
  rw [hs.playing_length] at hi
  exact Nat.le_of_lt (Nat.lt_trans hi hs.length_lt)

theorem current_mem (hs : Sound p) {x : Ptr} (hx : p.playing[p.current]? = some x) :
    x ∈ p.masterList :=
  hs.playing_perm.mem_iff.mp (List.mem_of_getElem? hx)

end Sound

/-! ## The checks -/

theorem checkIndex_of_lt (hsize : p.active.length ≤ vecMaxSize) {i : Nat}
    (hi : i < p.active.length) : p.checkIndex i = i := by
  rw [vecMaxSize_eq] at hsize
  unfold checkIndex countItems
  rw [toUint32_of_lt (by omega), if_neg (by omega)]

theorem checkIndex_of_ge (hsize : p.active.length ≤ vecMaxSize) {i : Nat}
    (hi : p.active.length ≤ i) : p.checkIndex i = kInvalidIndex := by
  rw [vecMaxSize_eq] at hsize
  unfold checkIndex countItems
  rw [toUint32_of_lt (by omega), if_pos hi]

theorem checkIndex_ne_iff (hsize : p.active.length ≤ vecMaxSize) {i : Nat} :
    p.checkIndex i ≠ kInvalidIndex ↔ i < p.active.length := by
  constructor
  · intro hne
    by_contra hge
    exact hne (checkIndex_of_ge hsize (Nat.not_lt.mp hge))
  · intro hlt
    rw [checkIndex_of_lt hsize hlt]
    rw [vecMaxSize_eq] at hsize
    rw [kInvalidIndex_eq]
    omega

theorem checkIndex_le (p : Playlists) (i : Nat) : p.checkIndex i ≤ kInvalidIndex := by
  unfold checkIndex
  split
  · exact Nat.le_refl _
  · rename_i hlt
    exact Nat.le_trans (Nat.le_of_lt (Nat.not_le.mp hlt)) (toUint32_le _)

theorem itemAt_of_getElem? (hsize : p.active.length ≤ vecMaxSize) {i : Nat} {x : Ptr}
    (hx : p.active[i]? = some x) : p.itemAt i = x := by
  have hlt := (List.getElem?_eq_some_iff.mp hx).1
  unfold itemAt
  rw [if_pos ((checkIndex_ne_iff hsize).mpr hlt), checkIndex_of_lt hsize hlt,
    List.getD_eq_getElem?_getD, hx]
  rfl

theorem itemAt_invalid (hsize : p.active.length ≤ vecMaxSize) {i : Nat}
    (hi : p.active.length ≤ i) : p.itemAt i = null := by
  unfold itemAt
  rw [if_neg fun hne => absurd ((checkIndex_ne_iff hsize).mp hne) (Nat.not_lt.mpr hi)]

/-! ## The current item -/

theorem getCurrentItem_empty (h : p.masterList = []) : p.getCurrentItem = .ok null := by
  simp [getCurrentItem, h]

theorem getCurrentItem_of_getElem? (hs : Sound p) {x : Ptr}
    (hx : p.playing[p.current]? = some x) : p.getCurrentItem = .ok x := by
  have hmem := hs.current_mem hx
  have hne : p.masterList.length ≠ 0 := Nat.ne_of_gt (List.length_pos_of_mem hmem)
  unfold getCurrentItem
  rw [if_pos hne, hx]

/-- With a valid `m_current` the current item is what stands there, or NULL. -/
theorem getCurrentItem_ok (hs : Sound p) (hc : p.CurrentValid) :
    (p.masterList = [] ∧ p.getCurrentItem = .ok null) ∨
      ∃ x, x ≠ null ∧ p.playing[p.current]? = some x ∧ x ∈ p.masterList ∧
        p.getCurrentItem = .ok x := by
  rcases eq_or_ne p.masterList [] with hnil | hne
  · exact .inl ⟨hnil, getCurrentItem_empty hnil⟩
  · have hlt : p.current < p.playing.length := by
      rw [hs.playing_length]
      exact hc hne
    have hx := List.getElem?_eq_getElem hlt
    exact .inr ⟨_, hs.playing_nonnull hx, hx, hs.current_mem hx,
      getCurrentItem_of_getElem? hs hx⟩

/-- Of a non-empty list the current item can be had exactly when `m_current` is valid. -/
theorem getCurrentItem_ok_iff (hs : Sound p) (hne : p.masterList ≠ []) :
    (∃ x, p.getCurrentItem = .ok x) ↔ p.CurrentOk := by
  constructor
  · rintro ⟨x, hx⟩
    refine ⟨fun hnil => absurd hnil hne, fun _ => ?_⟩
    unfold getCurrentItem at hx
    rw [if_pos (by simpa using hne)] at hx
    split at hx
    · rename_i y hy
      rw [← hs.playing_length]
      exact (List.getElem?_eq_some_iff.mp hy).1
    · simp at hx
  · intro hc
    rcases getCurrentItem_ok hs hc.2 with ⟨hnil, -⟩ | ⟨x, -, -, -, hx⟩
    · exact absurd hnil hne
    · exact ⟨x, hx⟩

/-- An item stands at one place of the list being played. -/
theorem getCurrentItem_eq_iff (hs : Sound p) (hne : p.masterList ≠ []) {x : Ptr} :
    p.getCurrentItem = .ok x ↔ p.playing[p.current]? = some x := by
  constructor
  · intro hx
    unfold getCurrentItem at hx
    rw [if_pos (by simpa using hne)] at hx
    split at hx
    · rename_i y hy
      obtain rfl : y = x := by simpa using hx
      exact hy
    · simp at hx
  · exact getCurrentItem_of_getElem? hs

/-- `GetCurrentItem` and `GetCurrentIndex` do not index out of range. -/
theorem getCurrentIndex_ok (hs : Sound p) (hc : p.CurrentOk) :
    ∃ i, p.getCurrentIndex = .ok i := by
  unfold getCurrentIndex
  split
  · rename_i hne
    split
    · have hlt : p.current < p.shuffleList.length := by
        rw [hs.perm.length_eq]
        exact hc.2 (by simpa using hne)
      rw [List.getElem?_eq_getElem hlt]
      exact ⟨_, rfl⟩
    · exact ⟨_, rfl⟩
  · exact ⟨_, rfl⟩

end Playlists

end FreeAmp.Base
