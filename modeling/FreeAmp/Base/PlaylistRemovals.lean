/-
  Base/PlaylistRemovals.lean --- what the removing functions do.

  Three of them first drop items from the lists and from memory, by different
  routes, and then look for the current item again.  `Dropped` is where the three
  routes meet.
-/
import FreeAmp.Base.PlaylistEdits
import Mathlib.Data.List.Perm.Subperm

namespace FreeAmp.Base

open FreeAmp.Lib

namespace PlaylistManager

variable {E : Fault → Prop} {R : ItemHeap → Prop} {m m' m₂ : PlaylistManager}
  {list shuffled : List Ptr} {keeps : Prop}

/-! ## Dropping from the lists -/

/-- Items have been dropped from the lists and the current index is not yet repaired. -/
structure Dropped (m : PlaylistManager) (list shuffled : List Ptr) (m₂ : PlaylistManager) :
    Prop where
  master : m.onMaster = true → m₂.toPlaylists = { m.toPlaylists with
    masterList := list
    shuffleList := shuffled
    current := m₂.current }
  current : m.onMaster = true → list ≠ [] → m₂.current = m.current
  external : m.onMaster = false → m₂.toPlaylists = { m.toPlaylists with externalList := list }
  sub : list.Sublist m.active
  perm : m.onMaster = true → shuffled.Perm list
  fits : m₂.current = m.current ∨ m₂.current ≤ kInvalidIndex

namespace Dropped

theorem sound (h : Dropped m list shuffled m₂) (hs : m.Sound) : m₂.Sound := by
  have hsize := Nat.le_trans h.sub.length_le hs.active_size
  cases hm : m.onMaster with
  | true =>
    have hsub := h.sub
    rw [hs.active_eq hm] at hsub
    have hlists := h.master hm
    refine sound_of_lists hs ?_ (h.perm hm) (hs.nodup.sublist hsub)
      (fun hmem => hs.nonnull (hsub.subset hmem)) hsize
    rw [hlists]
  | false =>
    rw [h.external hm]
    exact { hs with external_size := hsize }

theorem onMaster (h : Dropped m list shuffled m₂) : m₂.onMaster = m.onMaster := by
  cases hm : m.onMaster with
  | true =>
    rw [h.master hm]
    exact hm
  | false =>
    rw [h.external hm]
    exact hm

theorem active (h : Dropped m list shuffled m₂) (hs : m.Sound) : m₂.active = list := by
  have hm₂ := h.onMaster
  cases hm : m.onMaster with
  | true =>
    rw [hm] at hm₂
    rw [(h.sound hs).active_eq hm₂, h.master hm]
  | false =>
    rw [hm] at hm₂
    rw [(h.sound hs).active_external hm₂, h.external hm]

theorem nothing (hs : m.Sound) : Dropped m m.active m.shuffleList m where
  master hm := by
    rw [hs.active_eq hm]
  current _ _ := rfl
  external hm := by
    rw [hs.active_external hm]
  sub := List.Sublist.refl _
  perm hm := by
    rw [hs.active_eq hm]
    exact hs.perm
  fits := .inl rfl

theorem trans {list' shuffled' : List Ptr} (h : Dropped m list shuffled m₂) (hs : m.Sound)
    (h' : Dropped m₂ list' shuffled' m') : Dropped m list' shuffled' m' := by
  have hm₂ := h.onMaster
  have hsub := h'.sub
  rw [h.active hs] at hsub
  refine
    { master := fun hm => ?_
      current := fun hm hne => ?_
      external := fun hm => ?_
      sub := hsub.trans h.sub
      perm := fun hm => h'.perm (hm₂.trans hm)
      fits := ?_ }
  · rw [h'.master (hm₂.trans hm), h.master hm]
  · have hne₂ : list ≠ [] := by
      rintro rfl
      exact hne (List.sublist_nil.mp hsub)
    rw [h'.current (hm₂.trans hm) hne, h.current hm hne₂]
  · rw [h'.external (hm₂.trans hm), h.external hm]
  · rcases h'.fits with hsame | hle
    · rw [hsame]
      exact h.fits
    · exact .inr hle

theorem onItems (h : Dropped m list shuffled m₂) (hlists : m'.toPlaylists = m₂.toPlaylists) :
    Dropped m list shuffled m' where
  master hm := by
    rw [hlists]
    exact h.master hm
  current hm hne := by
    rw [hlists]
    exact h.current hm hne
  external hm := by
    rw [hlists]
    exact h.external hm
  sub := h.sub
  perm := h.perm
  fits := by
    rw [hlists]
    exact h.fits

/-- The shuffle list matters only for the master playlist. -/
theorem reshuffle {shuffled' : List Ptr} (h : Dropped m list shuffled m₂)
    (heq : m.onMaster = true → shuffled = shuffled') : Dropped m list shuffled' m₂ where
  master hm := by
    rw [← heq hm]
    exact h.master hm
  current := h.current
  external := h.external
  sub := h.sub
  perm hm := by
    rw [← heq hm]
    exact h.perm hm
  fits := h.fits

/-- What is left of a current index in front of the items of `list`, when the item at it is not
one of them. -/
def Replaced (m : PlaylistManager) (list : List Ptr) (m' : PlaylistManager) : Prop :=
  m.onMaster = true → ∀ x, m.getCurrentItem = .ok x → x ∉ list →
    m'.getCurrentItem = .ok (itemAtOrLast list m.current)

theorem replaced_onItems {m'' : PlaylistManager} (h : Replaced m list m')
    (hlists : m''.toPlaylists = m'.toPlaylists) : Replaced m list m'' := by
  intro hm x hx hgone
  rw [hlists]
  exact h hm x hx hgone

/-- The last step of the removing functions: the current item stays current if it has not
been removed, otherwise its index stays or goes to the last item, and the current index is valid
in any case. -/
theorem repair_meets (h : Dropped m list shuffled m₂) (hs : m.Sound) {x : Ptr}
    (hx : m.getCurrentItem = .ok x) (hR : R m₂.toItemHeap) :
    Meets (m₂.whenMaster fun m => m.repairCurrent x) E fun m' =>
      Replaced m list m' ∧ Outcome m list shuffled (x ∈ list) R m' := by
  unfold whenMaster
  rw [h.onMaster]
  cases hm : m.onMaster with
  | false =>
    simp only [Bool.false_eq_true, if_false, Meets.pure_iff]
    refine ⟨fun hmaster => absurd (hm.symm.trans hmaster) Bool.false_ne_true, ?_⟩
    refine .ofExternal hs hm (Nat.le_trans h.sub.length_le hs.active_size) ?_ hR
    rw [h.external hm]
  | true =>
    simp only [if_true]
    have hs₂ := h.sound hs
    have hm₂ := h.onMaster.trans hm
    have hmaster₂ : m₂.masterList = list := by rw [h.master hm]
    refine (repairCurrent_meets hs₂ hm₂ x).mono ?_
    rintro m' ⟨honly, hvalid, hfound, hreplaced⟩
    rw [hmaster₂] at hvalid hfound hreplaced
    refine ⟨?_, .ofMaster hm ?_ h.fits hs₂ honly ?_ ?_ ?_⟩
    · intro _ y hy hgone
      obtain rfl := Except.ok.inj (hx.symm.trans hy)
      rcases eq_or_ne list [] with hnil | hne
      · rw [hreplaced hgone (.inl hnil), hnil]
        rfl
      · have hcur := h.current hm hne
        rcases current_cases hs hx with ⟨hnil, -⟩ | ⟨-, -, -, -, hvalid⟩
        · have hsub := h.sub
          rw [hs.active_eq hm, hnil] at hsub
          exact absurd (List.sublist_nil.mp hsub) hne
        · rw [← hcur] at hvalid ⊢
          exact hreplaced hgone (.inr hvalid)
    · rw [h.master hm]
    · intro hok
      refine hvalid ?_
      rcases eq_or_ne list [] with hnil | hne
      · exact .inl hnil
      · have hne' : m.masterList ≠ [] := by
          intro hnil
          have hsub := h.sub
          rw [hs.active_eq hm, hnil] at hsub
          exact hne (List.sublist_nil.mp hsub)
        refine .inr ?_
        rw [h.current hm hne]
        exact Nat.ne_of_lt (Nat.lt_trans (hok.2 hne') hs.length_lt)
    · intro _ hne hmem
      rw [hx]
      rcases current_cases hs hx with ⟨hnil, -⟩ | ⟨-, hnull, -⟩
      · exact absurd hnil hne
      · exact (hfound hnull hmem).2
    · rw [honly.heap]
      exact hR

end Dropped

/-! ## One item -/

theorem elementAt_meets {l : List Ptr} {i : Nat} (hi : i < l.length ∨ E .badIndex) :
    Meets (elementAt l i) E fun x => l[i]? = some x := by
  unfold elementAt
  split
  · rename_i x hx
    exact hx
  · rename_i hnone
    rcases hi with hlt | hE
    · exact absurd (List.getElem?_eq_none_iff.mp hnone) (Nat.not_le.mpr hlt)
    · exact hE

theorem eraseAt_meets {l : List Ptr} {i : Nat} (hi : i < l.length ∨ E .badIndex) :
    Meets (eraseAt l i) E fun l' => i < l.length ∧ l' = l.eraseIdx i := by
  unfold eraseAt
  split
  · rename_i hlt
    exact ⟨hlt, rfl⟩
  · rename_i hge
    exact hi.resolve_left hge

theorem eraseItem_meets {l : List Ptr} {x : Ptr} (hsize : l.length ≤ vecMaxSize)
    (hx : x ≠ null ∧ x ∈ l ∨ E .badIndex) :
    Meets (eraseAt l (internalIndexOf l x)) E fun l' =>
      x ≠ null ∧ x ∈ l ∧ l' = l.erase x := by
  refine (eraseAt_meets (hx.imp_left (internalIndexOf_lt_iff hsize).mpr)).mono ?_
  rintro l' ⟨hlt, rfl⟩
  obtain ⟨hnull, hmem⟩ := (internalIndexOf_lt_iff hsize).mp hlt
  refine ⟨hnull, hmem, ?_⟩
  rw [internalIndexOf_of_mem hsize hnull hmem, List.eraseIdx_idxOf_eq_erase]

theorem eraseFromShuffleList_meets (hsize : m.shuffleList.length ≤ vecMaxSize) {x : Ptr}
    (hnull : x ≠ null) (hmem : x ∈ m.shuffleList) :
    Meets (m.eraseFromShuffleList x) E fun m' =>
      m' = { m with shuffleList := m.shuffleList.erase x } := by
  unfold eraseFromShuffleList
  rw [Meets.bind_iff]
  refine (eraseItem_meets hsize (.inl ⟨hnull, hmem⟩)).mono ?_
  rintro l ⟨-, -, rfl⟩
  rfl

/-- In a list of distinct items erasing a place erases the item. -/
theorem eraseIdx_eq_erase {l : List Ptr} (hnodup : l.Nodup) {i : Nat} {x : Ptr}
    (hx : l[i]? = some x) : l.eraseIdx i = l.erase x := by
  obtain ⟨hlt, rfl⟩ := List.getElem?_eq_some_iff.mp hx
  rw [← List.eraseIdx_idxOf_eq_erase, hnodup.idxOf_getElem i hlt]

theorem removeItem_invalid (hs : m.Sound) {index : Nat} (hi : m.active.length ≤ index) :
    m.removeItem index = .ok (.invalidParam, m) := by
  unfold removeItem
  rw [Playlists.checkIndex_of_ge hs.active_size hi]
  rfl

/-- What happens to the lists when the item at `index` is removed. -/
theorem dropItem_meets (hs : m.Sound) {index : Nat} {item : Ptr}
    (hitem : m.active[index]? = some item) :
    Meets ((m.setActiveList (m.active.eraseIdx index)).whenMaster fun m => do
        let m ← m.eraseFromShuffleList item
        pure (if m.active.length = 0 then { m with current := kInvalidIndex } else m)) E
      fun m₂ => m₂.toItemHeap = m.toItemHeap ∧
        Dropped m (m.active.eraseIdx index) (m.shuffleList.erase item) m₂ := by
  unfold whenMaster
  rw [onMaster_setActiveList]
  cases hm : m.onMaster with
  | false =>
    simp only [Bool.false_eq_true, if_false, Meets.pure_iff]
    rw [setActiveList_external (hs.activeList_external hm)]
    refine ⟨rfl, ?_⟩
    exact
      { master := fun h => absurd (hm.symm.trans h) Bool.false_ne_true
        current := fun _ _ => rfl
        external := fun _ => rfl
        sub := List.eraseIdx_sublist _ _
        perm := fun h => absurd (hm.symm.trans h) Bool.false_ne_true
        fits := .inl rfl }
  | true =>
    simp only [if_true, Meets.bind_iff]
    rw [setActiveList_master (hs.activeList_master hm)]
    have hmaster := hs.active_eq hm
    have hmem : item ∈ m.masterList := by
      rw [← hmaster]
      exact List.mem_of_getElem? hitem
    have hnull : item ≠ null := fun h => hs.nonnull (h ▸ hmem)
    refine (eraseFromShuffleList_meets
      (m := { m with masterList := m.active.eraseIdx index }) hs.shuffle_size hnull
      (hs.perm.mem_iff.mpr hmem)).mono ?_
    rintro m₂ rfl
    have hactive : ({ m with
        masterList := m.active.eraseIdx index
        shuffleList := m.shuffleList.erase item } : PlaylistManager).active =
          m.active.eraseIdx index := by
      unfold Playlists.active
      simp only [hs.activeList_master hm]
    have hperm : (m.shuffleList.erase item).Perm (m.active.eraseIdx index) := by
      rw [hmaster] at hitem ⊢
      rw [eraseIdx_eq_erase hs.nodup hitem]
      exact hs.perm.erase item
    simp only [hactive, Meets.pure_iff]
    refine ⟨by split <;> rfl, ?_⟩
    exact
      { master := fun _ => by split <;> rfl
        current := fun _ hne => by
          rw [if_neg fun hlen => hne (List.length_eq_zero_iff.mp hlen)]
        external := fun h => absurd (hm.symm.trans h) (by simp)
        sub := List.eraseIdx_sublist _ _
        perm := fun _ => hperm
        fits := by
          split
          · exact .inr (Nat.le_refl _)
          · exact .inl rfl }

theorem removeItem_meets (hs : m.Sound) (hcur : m.CurrentValid ∨ E .badCurrent) {index : Nat}
    {item : Ptr} (hitem : m.active[index]? = some item)
    (hR : Meets (m.toItemHeap.releaseItem item) E R) :
    Meets (m.removeItem index) E fun r => r.1 = .noErr ∧
      Dropped.Replaced m (m.active.eraseIdx index) r.2 ∧
      Outcome m (m.active.eraseIdx index) (m.shuffleList.erase item)
        (m.getCurrentItem ≠ .ok item) R r.2 := by
  have hlt := (List.getElem?_eq_some_iff.mp hitem).1
  have hne := (Playlists.checkIndex_ne_iff hs.active_size).mpr hlt
  unfold removeItem
  simp only [if_pos hne, Meets.bind_iff]
  rw [Playlists.checkIndex_of_lt hs.active_size hlt]
  refine (getCurrentItem_meets hs hcur).mono ?_
  intro currentItem hcurrent
  refine (elementAt_meets (.inl hlt)).mono ?_
  intro item' hitem'
  obtain rfl : item' = item := Option.some.inj (hitem'.symm.trans hitem)
  refine (eraseAt_meets (.inl hlt)).mono ?_
  rintro list ⟨-, rfl⟩
  refine (dropItem_meets hs hitem).mono ?_
  rintro m₂ ⟨hheap, hdropped⟩
  rw [onHeap_iff, hheap]
  refine hR.mono fun heap hheap' => ?_
  have hdropped' : Dropped m (m.active.eraseIdx index) (m.shuffleList.erase item')
      { m₂ with toItemHeap := heap } := hdropped.onItems rfl
  refine (hdropped'.repair_meets hs hcurrent hheap').mono ?_
  rintro m' ⟨hreplaced, h⟩
  refine ⟨rfl, Dropped.replaced_onItems hreplaced rfl, ?_⟩
  refine Outcome.weaken (h.onItems rfl h.heap) fun hm hne hother => ?_
  rcases current_cases hs hcurrent with ⟨hnil, -⟩ | ⟨-, -, -, hmem, -⟩
  · exact absurd hnil hne
  · rw [hs.active_eq hm] at hitem ⊢
    rw [eraseIdx_eq_erase hs.nodup hitem]
    refine (List.mem_erase_of_ne ?_).mpr hmem
    rintro rfl
    exact hother hcurrent

/-! ## A range of items -/

theorem erase_subperm_of_cons {x : Ptr} {xs l : List Ptr} (h : (x :: xs).Subperm l) :
    x ∈ l ∧ xs.Subperm (l.erase x) := by
  have herase := h.erase x
  rw [List.erase_cons_head] at herase
  exact ⟨h.subset List.mem_cons_self, herase⟩

/-- A round takes one item off the shuffle list and out of memory, and leaves the active list
alone. -/
theorem removeRangeRound_meets (hs : m.Sound) {index : Nat} {s : List Ptr} {heap : ItemHeap}
    {item : Ptr} (hitem : m.active[index]? = some item)
    (hshuffled : m.onMaster = true → s.length ≤ vecMaxSize ∧ item ∈ s)
    (hR : Meets (heap.releaseItem item) E R) :
    Meets (({ m with shuffleList := s, toItemHeap := heap } : PlaylistManager).removeRangeRound
        index) E fun m' => ∃ heap', R heap' ∧
      m' = { m with
        shuffleList := if m.onMaster then s.erase item else s
        toItemHeap := heap' } := by
  unfold removeRangeRound
  rw [Meets.bind_iff]
  have hlt := (List.getElem?_eq_some_iff.mp hitem).1
  refine (elementAt_meets (l := m.active) (.inl hlt)).mono ?_
  intro item' hitem'
  obtain rfl : item' = item := Option.some.inj (hitem'.symm.trans hitem)
  unfold whenMaster
  have honM : ({ m with shuffleList := s, toItemHeap := heap } : PlaylistManager).onMaster =
      m.onMaster := rfl
  rw [honM]
  cases hm : m.onMaster with
  | false =>
    simp only [Bool.false_eq_true, if_false, Meets.bind_iff, Meets.pure_iff, onHeap_iff]
    exact hR.mono fun heap' hR' => ⟨heap', hR', rfl⟩
  | true =>
    simp only [if_true, Meets.bind_iff]
    obtain ⟨hsize, hmem⟩ := hshuffled hm
    have hnull : item' ≠ null := by
      rintro rfl
      refine hs.nonnull ?_
      rw [← hs.active_eq hm]
      exact List.mem_of_getElem? hitem
    refine (eraseFromShuffleList_meets
      (m := { m with shuffleList := s, toItemHeap := heap }) hsize hnull hmem).mono ?_
    rintro m₂ rfl
    have hlen : ({ m with
        shuffleList := s.erase item', toItemHeap := heap } : PlaylistManager).active.length ≠
        0 :=
      Nat.ne_of_gt (Nat.lt_of_le_of_lt (Nat.zero_le index) hlt)
    simp only [if_neg hlen, Meets.pure_iff, onHeap_iff]
    exact hR.mono fun heap' hR' => ⟨heap', hR', rfl⟩

theorem removeRangeLoop_meets (hs : m.Sound) :
    ∀ (count : Nat) {index : Nat} {s : List Ptr} {heap : ItemHeap},
      (index + count ≤ m.active.length ∨ E .badIndex) →
      (m.onMaster = true → s.length ≤ vecMaxSize ∧
        ((m.active.drop index).take count).Subperm s) →
      Meets (((m.active.drop index).take count).foldlM ItemHeap.releaseItem heap) E R →
      Meets ((List.range' index count).foldlM removeRangeRound
          { m with shuffleList := s, toItemHeap := heap }) E fun m' => ∃ heap', R heap' ∧
        m' = { m with
          shuffleList :=
            if m.onMaster then s.diff ((m.active.drop index).take count) else s
          toItemHeap := heap' } := by
  intro count
  induction count with
  | zero =>
    intro index s heap _ _ hR
    exact ⟨heap, hR, by simp⟩
  | succ count ih =>
    intro index s heap hin hsub hR
    rw [List.range'_succ, List.foldlM_cons, Meets.bind_iff]
    rcases Nat.lt_or_ge index m.active.length with hlt | hge
    · have hitem := List.getElem?_eq_getElem hlt
      have hfirst : (m.active.drop index).take (count + 1) =
          m.active[index] :: (m.active.drop (index + 1)).take count := by
        rw [List.drop_eq_getElem_cons hlt, List.take_succ_cons]
      rw [hfirst] at hsub ⊢
      rw [hfirst, List.foldlM_cons, Meets.bind_iff] at hR
      have hfront : m.onMaster = true → s.length ≤ vecMaxSize ∧ m.active[index] ∈ s :=
        fun hm => ⟨(hsub hm).1, (hsub hm).2.subset List.mem_cons_self⟩
      refine (removeRangeRound_meets hs hitem hfront hR).mono ?_
      rintro m₂ ⟨heap', hR', rfl⟩
      have hrest : m.onMaster = true →
          (if m.onMaster then s.erase m.active[index] else s).length ≤ vecMaxSize ∧
          ((m.active.drop (index + 1)).take count).Subperm
            (if m.onMaster then s.erase m.active[index] else s) := by
        intro hm
        rw [if_pos hm]
        obtain ⟨hsize, hsub⟩ := hsub hm
        exact ⟨Nat.le_trans List.length_erase_le hsize, (erase_subperm_of_cons hsub).2⟩
      refine (ih (hin.imp_left fun h => by omega) hrest hR').mono ?_
      rintro m' ⟨heap'', hR'', rfl⟩
      refine ⟨heap'', hR'', ?_⟩
      cases m.onMaster with
      | true => simp only [if_true, List.diff_cons]
      | false => simp only [Bool.false_eq_true, if_false]
    · -- the loop runs past the end of the list
      have hE : E .badIndex := hin.resolve_left fun h => by omega
      unfold removeRangeRound
      rw [Meets.bind_iff]
      refine (elementAt_meets (l := m.active) (.inr hE)).mono ?_
      intro item hitem
      exact absurd (List.getElem?_eq_some_iff.mp hitem).1 (Nat.not_lt.mpr hge)

theorem removeRange_invalid (hs : m.Sound) {index count : Nat}
    (hi : m.active.length ≤ index) : m.removeRange index count = .ok (.invalidParam, m) := by
  unfold removeRange
  rw [Playlists.checkIndex_of_ge hs.active_size hi]
  rfl

theorem range_perm (l : List Ptr) (index count : Nat) :
    ((l.drop index).take count ++ (l.take index ++ l.drop (index + count))).Perm l := by
  have hsplit : l.take index ++ ((l.drop index).take count ++ l.drop (index + count)) = l := by
    rw [← List.drop_drop, List.take_append_drop, List.take_append_drop]
  have hperm := List.perm_append_comm_assoc ((l.drop index).take count) (l.take index)
    (l.drop (index + count))
  rwa [hsplit] at hperm

theorem diff_of_append_perm {l removed kept : List Ptr} (h : (removed ++ kept).Perm l) :
    (l.diff removed).Perm kept := by
  have hfront : ∀ removed : List Ptr, (removed ++ kept).diff removed = kept := by
    intro removed
    induction removed with
    | nil => simp
    | cons x xs ih => rw [List.cons_append, List.diff_cons, List.erase_cons_head, ih]
  have hdiff := h.symm.diff_right removed
  rwa [hfront] at hdiff

theorem eraseRange_meets {l : List Ptr} {index count : Nat}
    (hin : index + count ≤ l.length ∨ E .badIndex) :
    Meets (eraseRange l index count) E fun l' =>
      index + count ≤ l.length ∧ l' = l.take index ++ l.drop (index + count) := by
  unfold eraseRange
  split
  · rename_i hle
    exact ⟨hle, rfl⟩
  · rename_i hout
    exact hin.resolve_left hout

/-- The lists after `RemoveItems(index, count)` has dropped the range. -/
theorem dropRange (hs : m.Sound) (index count : Nat) {m₂ : PlaylistManager}
    (hlists : m₂.toPlaylists = { m.toPlaylists with
      shuffleList :=
        if m.onMaster then m.shuffleList.diff ((m.active.drop index).take count)
        else m.shuffleList }) :
    Dropped m (m.active.take index ++ m.active.drop (index + count))
      (m.shuffleList.diff ((m.active.drop index).take count))
      (m₂.setActiveList (m.active.take index ++ m.active.drop (index + count))) where
  master hm := by
    rw [setActiveList_master (by rw [hlists]; exact hs.activeList_master hm), hlists, if_pos hm]
  current hm _ := by
    rw [setActiveList_master (by rw [hlists]; exact hs.activeList_master hm), hlists]
  external hm := by
    rw [setActiveList_external (by rw [hlists]; exact hs.activeList_external hm), hlists, if_neg]
    rw [hm]
    exact Bool.false_ne_true
  sub := by
    have hkept := (List.Sublist.refl (m.active.take index)).append
      (List.drop_sublist count (m.active.drop index))
    rwa [List.take_append_drop, List.drop_drop] at hkept
  perm hm := by
    have hperm := range_perm m.active index count
    refine (hs.perm.diff_right _).trans ?_
    rw [← hs.active_eq hm]
    exact diff_of_append_perm hperm
  fits := by
    have hlists' : (m₂.setActiveList
        (m.active.take index ++ m.active.drop (index + count))).current = m₂.current := by
      unfold setActiveList Playlists.setActive
      cases m₂.activeList <;> rfl
    rw [hlists', hlists]
    exact .inl rfl

theorem removeRange_meets (hs : m.Sound) (hcur : m.CurrentValid ∨ E .badCurrent)
    {index count : Nat} (hlt : index < m.active.length)
    (hin : index + count ≤ m.active.length ∨ E .badIndex)
    (hR : Meets (((m.active.drop index).take count).foldlM ItemHeap.releaseItem m.toItemHeap)
      E R) :
    Meets (m.removeRange index count) E fun r => r.1 = .noErr ∧
      index + count ≤ m.active.length ∧
      Dropped.Replaced m (m.active.take index ++ m.active.drop (index + count)) r.2 ∧
      Outcome m (m.active.take index ++ m.active.drop (index + count))
        (m.shuffleList.diff ((m.active.drop index).take count))
        (∀ x, m.getCurrentItem = .ok x → x ∉ (m.active.drop index).take count) R r.2 := by
  have hne := (Playlists.checkIndex_ne_iff hs.active_size).mpr hlt
  unfold removeRange
  simp only [if_pos hne, Meets.bind_iff]
  rw [Playlists.checkIndex_of_lt hs.active_size hlt, ← List.range'_eq_map_range]
  refine (getCurrentItem_meets hs hcur).mono ?_
  intro currentItem hcurrent
  have hsub : m.onMaster = true → m.shuffleList.length ≤ vecMaxSize ∧
      ((m.active.drop index).take count).Subperm m.shuffleList := by
    intro hm
    refine ⟨hs.shuffle_size, ?_⟩
    have hrange : ((m.active.drop index).take count).Sublist m.active :=
      (List.take_sublist _ _).trans (List.drop_sublist _ _)
    rw [hs.active_eq hm] at hrange ⊢
    exact hrange.subperm.trans hs.perm.symm.subperm
  refine (removeRangeLoop_meets hs count hin hsub hR).mono ?_
  rintro m₂ ⟨heap, hR', hm₂⟩
  have hlists : m₂.toPlaylists = { m.toPlaylists with
      shuffleList :=
        if m.onMaster then m.shuffleList.diff ((m.active.drop index).take count)
        else m.shuffleList } := by
    rw [hm₂]
  have hactive : m₂.active = m.active := by
    rw [hlists]
    rfl
  refine (eraseRange_meets (l := m₂.active) ?_).mono ?_
  · rw [hactive]
    exact hin
  rintro list ⟨hrange, rfl⟩
  rw [hactive] at hrange ⊢
  have hdropped : Dropped m (m.active.take index ++ m.active.drop (index + count))
      (m.shuffleList.diff ((m.active.drop index).take count))
      ((m₂.acceptEvent
        (.itemRemoved ((m.active.drop index).take count) (List.range' index count))).setActiveList
        (m.active.take index ++ m.active.drop (index + count))) :=
    dropRange hs index count hlists
  have hheap : R m₂.toItemHeap := by
    rw [hm₂]
    exact hR'
  refine (hdropped.repair_meets hs hcurrent hheap).mono ?_
  rintro m' ⟨hreplaced, h⟩
  refine ⟨rfl, hrange, hreplaced, h.weaken fun hm hne hother => ?_⟩
  rcases current_cases hs hcurrent with ⟨hnil, -⟩ | ⟨-, -, -, hmem, -⟩
  · exact absurd hnil hne
  · rw [← hs.active_eq hm, ← (range_perm m.active index count).mem_iff] at hmem
    rcases List.mem_append.mp hmem with hgone | hkept
    · exact absurd hgone (hother currentItem hcurrent)
    · exact hkept

/-! ## A vector of items -/

/-- The items of the vector that `RemoveItems(&items)` looks at. -/
def nonNull (items : List Ptr) : List Ptr := items.filter (· ≠ null)

theorem removeItemsLoop_nonNull (items : List Ptr) :
    ∀ s : Removing, items.foldlM removeItemsRound s = (nonNull items).foldlM removeItemsRound s := by
  induction items with
  | nil => exact fun _ => rfl
  | cons item items ih =>
    intro s
    unfold nonNull at ih ⊢
    rcases eq_or_ne item null with rfl | hne
    · rw [List.foldlM_cons, List.filter_cons_of_neg (by simp)]
      have hpass : removeItemsRound s null = pure s := by
        unfold removeItemsRound
        rw [if_neg (not_not.mpr rfl)]
      rw [hpass, pure_bind]
      exact ih s
    · rw [List.filter_cons_of_pos (by simpa using hne), List.foldlM_cons, List.foldlM_cons]
      exact bind_congr fun s' => ih s'

theorem removeItemsRound_meets {s : Removing} (hs : s.manager.Sound) {item : Ptr}
    (hnull : item ≠ null) (hin : item ∈ s.manager.active ∨ E .badIndex)
    (hR : Meets (s.manager.toItemHeap.releaseItem item) E R) :
    Meets (removeItemsRound s item) E fun s' => s'.result = .noErr ∧ R s'.manager.toItemHeap ∧
      item ∈ s.manager.active ∧ Dropped s.manager (s.manager.active.erase item) (s.manager.shuffleList.erase item)
        s'.manager := by
  unfold removeItemsRound
  simp only [if_pos hnull, Meets.bind_iff]
  refine (eraseItem_meets hs.active_size (hin.imp_left fun h => ⟨hnull, h⟩)).mono ?_
  rintro list ⟨-, hmem, rfl⟩
  unfold whenMaster
  rw [onMaster_setActiveList]
  cases hm : s.manager.onMaster with
  | false =>
    simp only [Bool.false_eq_true, if_false, Meets.pure_iff, onHeap_iff]
    rw [setActiveList_external (hs.activeList_external hm)]
    refine hR.mono fun heap hR' => ⟨trivial, hR', hmem, ?_⟩
    exact
      { master := fun h => absurd (hm.symm.trans h) Bool.false_ne_true
        current := fun _ _ => rfl
        external := fun _ => rfl
        sub := List.erase_sublist
        perm := fun h => absurd (hm.symm.trans h) Bool.false_ne_true
        fits := .inl rfl }
  | true =>
    simp only [if_true]
    rw [setActiveList_master (hs.activeList_master hm)]
    have hmaster := hs.active_eq hm
    rw [hmaster] at hmem ⊢
    refine (eraseFromShuffleList_meets
      (m := { s.manager with masterList := s.manager.masterList.erase item })
      hs.shuffle_size hnull (hs.perm.mem_iff.mpr hmem)).mono ?_
    rintro m₂ rfl
    simp only [onHeap_iff, Meets.pure_iff]
    refine hR.mono fun heap hR' => ⟨trivial, hR', hmem, ?_⟩
    exact
      { master := fun _ => rfl
        current := fun _ _ => rfl
        external := fun h => absurd (hm.symm.trans h) (by simp)
        sub := by
          rw [hmaster]
          exact List.erase_sublist
        perm := fun _ => hs.perm.erase item
        fits := .inl rfl }

theorem removeItemsLoop_meets :
    ∀ (gone : List Ptr) {s : Removing}, s.manager.Sound → (∀ x ∈ gone, x ≠ null) →
      (gone.Subperm s.manager.active ∨ E .badIndex) →
      Meets (gone.foldlM ItemHeap.releaseItem s.manager.toItemHeap) E R →
      Meets (gone.foldlM removeItemsRound s) E fun s' =>
        (s'.result = if gone = [] then s.result else .noErr) ∧ R s'.manager.toItemHeap ∧
        gone.Subperm s.manager.active ∧
        Dropped s.manager (s.manager.active.diff gone) (s.manager.shuffleList.diff gone)
          s'.manager := by
  intro gone
  induction gone with
  | nil =>
    intro s hs _ _ hR
    simp only [List.foldlM_nil, Meets.pure_iff, List.diff_nil, if_true, true_and]
    exact ⟨hR, List.nil_subperm, Dropped.nothing hs⟩
  | cons item gone ih =>
    intro s hs hnull hin hR
    rw [List.foldlM_cons, Meets.bind_iff] at hR ⊢
    have hitem : item ∈ s.manager.active ∨ E .badIndex :=
      hin.imp_left fun h => (erase_subperm_of_cons h).1
    refine (removeItemsRound_meets hs (hnull item List.mem_cons_self) hitem hR).mono ?_
    rintro s₂ ⟨hresult, hR₂, hmem, hdropped⟩
    have hactive := hdropped.active hs
    have hin₂ : gone.Subperm s₂.manager.active ∨ E .badIndex := by
      rw [hactive]
      exact hin.imp_left fun h => (erase_subperm_of_cons h).2
    refine (ih (hdropped.sound hs) (fun x hx => hnull x (List.mem_cons_of_mem _ hx)) hin₂
      hR₂).mono ?_
    rintro s' ⟨hresult', hR', hsub, hdropped'⟩
    refine ⟨?_, hR', ?_, ?_⟩
    · rw [hresult', hresult, if_neg (List.cons_ne_nil _ _), ite_self]
    · rw [hactive] at hsub
      exact ((List.subperm_cons item).mpr hsub).trans (List.perm_cons_erase hmem).symm.subperm
    · have htrans := hdropped.trans hs hdropped'
      rw [hactive] at htrans
      rw [List.diff_cons, List.diff_cons]
      refine htrans.reshuffle fun hm => ?_
      rw [hdropped.master hm]

theorem removeItems_meets (hs : m.Sound) (hcur : m.CurrentValid ∨ E .badCurrent)
    {items : List Ptr} (hin : (nonNull items).Subperm m.active ∨ E .badIndex)
    (hR : Meets ((nonNull items).foldlM ItemHeap.releaseItem m.toItemHeap) E R) :
    Meets (m.removeItems items) E fun r =>
      (r.1 = if nonNull items = [] then .invalidParam else .noErr) ∧
      (nonNull items).Subperm m.active ∧
      Dropped.Replaced m (m.active.diff (nonNull items)) r.2 ∧
      Outcome m (m.active.diff (nonNull items)) (m.shuffleList.diff (nonNull items))
        (∀ x, m.getCurrentItem = .ok x → x ∉ items) R r.2 := by
  unfold removeItems
  simp only [Meets.bind_iff]
  refine (getCurrentItem_meets hs hcur).mono ?_
  intro currentItem hcurrent
  rw [removeItemsLoop_nonNull]
  have hnull : ∀ x ∈ nonNull items, x ≠ null := by
    intro x hx
    simpa using (List.mem_filter.mp hx).2
  refine (removeItemsLoop_meets (nonNull items) (s := ⟨m, [], [], .invalidParam⟩) hs hnull hin
    hR).mono ?_
  rintro s ⟨hresult, hR', hsub, hdropped⟩
  have hdropped' : Dropped m (m.active.diff (nonNull items)) (m.shuffleList.diff (nonNull items))
      (s.manager.acceptEvent (.itemRemoved s.itemList s.indexList)) := hdropped.onItems rfl
  refine (hdropped'.repair_meets hs hcurrent hR').mono ?_
  rintro m' ⟨hreplaced, h⟩
  refine ⟨hresult, hsub, hreplaced, h.weaken fun hm hne hother => ?_⟩
  rcases current_cases hs hcurrent with ⟨hnil, -⟩ | ⟨-, -, -, hmem, -⟩
  · exact absurd hnil hne
  · rw [hs.active_eq hm]
    refine List.mem_diff_of_mem hmem fun hgone => ?_
    exact hother currentItem hcurrent (List.mem_filter.mp hgone).1

/-! ## Everything -/

theorem clearList (hs : m.Sound) (hlists : m₂.toPlaylists = m.toPlaylists)
    (hR : R m₂.toItemHeap) :
    Meets (if (m₂.setActiveList []).onMaster = true then
        pure { m₂.setActiveList [] with shuffleList := [], current := kInvalidIndex }
      else pure (m₂.setActiveList [])) E (Outcome m [] [] False R) := by
  rw [onMaster_setActiveList, hlists]
  cases hm : m.onMaster with
  | false =>
    simp only [Bool.false_eq_true, if_false, Meets.pure_iff]
    rw [setActiveList_external (by rw [hlists]; exact hs.activeList_external hm)]
    refine .ofExternal hs hm (Nat.zero_le _) ?_ hR
    rw [hlists]
  | true =>
    simp only [if_true, Meets.pure_iff]
    rw [setActiveList_master (by rw [hlists]; exact hs.activeList_master hm)]
    refine
      { master := fun _ => ?_
        external := fun h => absurd (hm.symm.trans h) (by simp)
        sound := ?_
        currentOk := fun _ => ⟨fun _ => rfl, fun hne => absurd rfl hne⟩
        item := fun _ _ h => h.elim
        heap := hR
        fits := .inr (Nat.le_refl _) }
    · rw [hlists]
    · rw [hlists]
      exact { hs with
        perm := .refl _
        nodup := .nil
        nonnull := List.not_mem_nil
        size := Nat.zero_le _ }

theorem removeAll_meets (hs : m.Sound)
    (hR : Meets (m.toItemHeap.releaseItems m.active.reverse) E R) :
    Meets m.removeAll E (Outcome m [] [] False R) := by
  unfold removeAll
  simp only [Meets.bind_iff, onHeap_iff]
  refine hR.mono fun heap hR' => ?_
  exact clearList hs rfl hR'

end PlaylistManager

end FreeAmp.Base
