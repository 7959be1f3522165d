/-
  Base/PlaylistArguments.lean --- the editing functions on arguments of any kind.

  A call is to return an error and leave the lists and `m_current` alone, or to perform a
  valid edit.  An index that is out of range is turned away by `CheckIndex`; the count of
  a range is not looked at, an item that is not in the list gives an index that is used
  without a look, a NULL in the vector of `MoveItems` is inserted, and `SetCurrentIndex`
  takes an index out of range for one that says that nothing is current.
-/
import FreeAmp.Base.PlaylistSuccessor
import FreeAmp.Base.PlaylistSort

namespace FreeAmp.Base

open FreeAmp.Lib

/-! ## Items that can be released -/

/-- The items can be followed, and none comes again after it has been deleted: an item whose
metadata is being retrieved is only marked the first time. -/
def Releasable (h : ItemHeap) (items : List Ptr) : Prop :=
  ∀ p ∈ items, h.live p ∧
    items.count p ≤ if (h.items p).state = .retrievingMetaData then 2 else 1

theorem releaseItem_ok {h h' : ItemHeap} {p : Ptr} (hrelease : h.releaseItem p = .ok h') :
    h.live p ∧ h' = if (h.items p).state = .retrievingMetaData then h.setState p .delete
      else h.delete p := by
  unfold ItemHeap.releaseItem ItemHeap.getState at hrelease
  obtain ⟨state, hstate, hrelease⟩ := bind_eq_ok.mp hrelease
  split at hstate
  · rename_i hlive
    refine ⟨hlive, ?_⟩
    obtain rfl := Except.ok.inj hstate
    split at hrelease
    · rename_i hretrieving
      rw [if_pos hretrieving]
      exact (Except.ok.inj hrelease).symm
    · rename_i hother
      rw [if_neg hother]
      exact (Except.ok.inj hrelease).symm
  · exact absurd hstate nofun

theorem releaseItem_returns {h : ItemHeap} {p : Ptr} (hlive : h.live p) :
    ∃ h', h.releaseItem p = .ok h' := by
  unfold ItemHeap.releaseItem ItemHeap.getState
  rw [if_pos hlive, ok_bind]
  split
  · exact ⟨_, rfl⟩
  · exact ⟨_, rfl⟩

theorem releasable_cons {h h' : ItemHeap} {p : Ptr} {items : List Ptr}
    (hrelease : h.releaseItem p = .ok h') :
    Releasable h (p :: items) ↔ Releasable h' items := by
  obtain ⟨hlive, hh'⟩ := releaseItem_ok hrelease
  have hother : ∀ q, q ≠ p → (h'.live q ↔ h.live q) ∧ (h'.items q).state = (h.items q).state := by
    intro q hq
    rw [hh']
    split
    · refine ⟨Iff.rfl, ?_⟩
      unfold ItemHeap.setState
      simp only
      rw [Function.update_of_ne hq]
    · refine ⟨?_, rfl⟩
      unfold ItemHeap.live ItemHeap.delete
      simp [hq]
  have hcount : ∀ q, q ≠ p → (p :: items).count q = items.count q :=
    fun q hq => List.count_cons_of_ne (Ne.symm hq)
  have hself : (h.live p ∧ (p :: items).count p ≤
      if (h.items p).state = .retrievingMetaData then 2 else 1) ↔
      (p ∈ items → h'.live p ∧ items.count p ≤
        if (h'.items p).state = .retrievingMetaData then 2 else 1) := by
    rw [List.count_cons_self, hh']
    by_cases hretrieving : (h.items p).state = .retrievingMetaData
    · have hmarked : ((h.setState p .delete).items p).state = .delete := by
        unfold ItemHeap.setState
        simp only
        rw [Function.update_self]
      have hlive' : (h.setState p .delete).live p := hlive
      have hnot : (PlaylistItemState.delete) ≠ .retrievingMetaData := by decide
      rw [if_pos hretrieving, if_pos hretrieving, hmarked, if_neg hnot]
      constructor
      · exact fun hle _ => ⟨hlive', by omega⟩
      · intro hle
        refine ⟨hlive, ?_⟩
        by_cases hmem : p ∈ items
        · have hone := (hle hmem).2
          omega
        · rw [List.count_eq_zero_of_not_mem hmem]
          omega
    · have hdead : ¬ (h.delete p).live p := by
        unfold ItemHeap.live ItemHeap.delete
        simp
      rw [if_neg hretrieving, if_neg hretrieving]
      constructor
      · intro hle hmem
        have hpos := List.count_pos_iff.mpr hmem
        omega
      · intro hnone
        have hmem : p ∉ items := fun hmem => hdead (hnone hmem).1
        rw [List.count_eq_zero_of_not_mem hmem]
        exact ⟨hlive, Nat.le_refl _⟩
  constructor
  · intro hall q hq
    by_cases hqp : q = p
    · rw [hqp] at hq ⊢
      exact hself.mp (hall p List.mem_cons_self) hq
    · obtain ⟨hqlive, hqcount⟩ := hall q (List.mem_cons_of_mem _ hq)
      rw [hcount q hqp] at hqcount
      rw [(hother q hqp).2]
      exact ⟨(hother q hqp).1.mpr hqlive, hqcount⟩
  · intro hall q hq
    by_cases hqp : q = p
    · rw [hqp]
      exact hself.mpr fun hmem => hall p hmem
    · have hmem : q ∈ items := (List.mem_cons.mp hq).resolve_left hqp
      obtain ⟨hqlive, hqcount⟩ := hall q hmem
      rw [(hother q hqp).2] at hqcount
      rw [hcount q hqp]
      exact ⟨(hother q hqp).1.mp hqlive, hqcount⟩

/-- The items of a vector can be released one after the other exactly then. -/
theorem releasable_iff : ∀ {items : List Ptr} {h : ItemHeap},
    (∃ h', items.foldlM ItemHeap.releaseItem h = .ok h') ↔ Releasable h items := by
  intro items
  induction items with
  | nil => exact fun {h} => ⟨fun _ p hp => absurd hp List.not_mem_nil, fun _ => ⟨h, rfl⟩⟩
  | cons p items ih =>
    intro h
    rw [List.foldlM_cons]
    constructor
    · rintro ⟨h₂, hrest⟩
      obtain ⟨h₁, hfirst, hrest⟩ := bind_eq_ok.mp hrest
      exact (releasable_cons hfirst).mpr (ih.mp ⟨h₂, hrest⟩)
    · intro hall
      obtain ⟨h₁, hfirst⟩ := releaseItem_returns (hall p List.mem_cons_self).1
      obtain ⟨h₂, hrest⟩ := ih.mpr ((releasable_cons hfirst).mp hall)
      exact ⟨h₂, bind_eq_ok.mpr ⟨h₁, hfirst, hrest⟩⟩

/-- The calls with their arguments. -/
inductive ListCommand where
  | removeItem (index : Nat)
  | removeThis (item : Ptr)
  | removeRange (index count : Nat)
  | removeItems (items : List Ptr)
  | moveItem (oldIndex newIndex : Nat)
  | moveThis (item : Ptr) (index : Nat)
  | moveItems (items : List Ptr) (index : Nat)
  /-- `MoveItems` of a vector of indices -/
  | moveIndices (indices : List Nat) (index : Nat)
  | swapItems (index1 index2 : Nat)
  | swapThese (item1 item2 : Ptr)
  | setCurrentIndex (index : Nat)
  | setCurrentItem (item : Ptr)
  deriving DecidableEq, Repr

namespace PlaylistManager

variable {E : Fault → Prop} {R : ItemHeap → Prop} {m m' : PlaylistManager} {c : ListCommand}
  {list shuffled : List Ptr} {keeps : Prop} {r : Error × PlaylistManager}

/-- The error that a call returns, and the manager. -/
def perform (m : PlaylistManager) : ListCommand → Checked (Error × PlaylistManager)
  | .removeItem index => m.removeItem index
  | .removeThis item =>
    if item ≠ null then m.removeItem (m.indexOf item) else pure (.invalidParam, m)
  | .removeRange index count => m.removeRange index count
  | .removeItems items => m.removeItems items
  | .moveItem oldIndex newIndex => m.moveItem oldIndex newIndex
  | .moveThis item index => m.moveItem (m.indexOf item) index
  | .moveItems items index => (Error.noErr, ·) <$> m.moveItems items index
  | .moveIndices indices index => (Error.noErr, ·) <$> m.moveItems (indices.map m.itemAt) index
  | .swapItems index1 index2 => m.swapItems index1 index2
  | .swapThese item1 item2 => m.swapItems (m.indexOf item1) (m.indexOf item2)
  | .setCurrentIndex index => (Error.noErr, ·) <$> m.setCurrentIndex index
  | .setCurrentItem item => (Error.noErr, ·) <$> m.setCurrentIndex (m.indexOf item)

/-- The call by index that an overload comes down to. -/
def byIndex (m : PlaylistManager) : ListCommand → ListCommand
  | .removeThis item => .removeItem (m.indexOf item)
  | .moveThis item index => .moveItem (m.indexOf item) index
  | .moveIndices indices index => .moveItems (indices.map m.itemAt) index
  | .swapThese item1 item2 => .swapItems (m.indexOf item1) (m.indexOf item2)
  | .setCurrentItem item => .setCurrentIndex (m.indexOf item)
  | c => c

theorem checkIndex_kInvalidIndex (p : Playlists) : p.checkIndex kInvalidIndex = kInvalidIndex := by
  unfold Playlists.checkIndex
  rw [ite_self]

theorem perform_byIndex (m : PlaylistManager) (c : ListCommand) :
    m.perform c = m.perform (m.byIndex c) := by
  cases c with
  | removeThis item =>
    show (if item ≠ null then m.removeItem (m.indexOf item) else pure (.invalidParam, m)) =
      m.removeItem (m.indexOf item)
    split
    · rfl
    · rename_i hnull
      rw [not_not.mp hnull, Playlists.indexOf, internalIndexOf_null]
      unfold removeItem
      rw [checkIndex_kInvalidIndex]
      rfl
  | _ => rfl

/-! ## What is asked of a call -/

/-- What a valid edit makes of the active list. -/
def ValidEdit (m : PlaylistManager) : ListCommand → List Ptr → Prop
  | .removeItem index, list => index < m.active.length ∧ list = m.active.eraseIdx index
  | .removeRange index count, list => index + count ≤ m.active.length ∧
      list = m.active.take index ++ m.active.drop (index + count)
  | .removeItems items, list =>
    (nonNull items).Subperm m.active ∧ list = m.active.diff (nonNull items)
  | .moveItem oldIndex newIndex, list => ∃ item, m.active[oldIndex]? = some item ∧
      newIndex < m.active.length ∧ list = (m.active.eraseIdx oldIndex).take newIndex ++ [item] ++
        (m.active.eraseIdx oldIndex).drop newIndex
  | .moveItems items _, list =>
    items.Subperm m.active ∧ ∃ place, list = blockAt m.active items place
  | .swapItems index1 index2, list => ∃ item1 item2, m.active[index1]? = some item1 ∧
      m.active[index2]? = some item2 ∧ list = (m.active.set index1 item2).set index2 item1
  | .setCurrentIndex index, list => index < m.active.length ∧ list = m.active
  | _, _ => False

/-- A call that has performed a valid edit: the shuffle list is a permutation of the master
list, `m_current` is valid, and an edit of the external list leaves the master list alone. -/
structure Edited (m : PlaylistManager) (c : ListCommand) (m' : PlaylistManager) : Prop where
  edit : ValidEdit m c m'.active
  perm : m'.shuffleList.Perm m'.masterList
  current : m'.CurrentOk
  frame : m.onMaster = false → m'.masterList = m.masterList

/-- The call returns an error and leaves the lists and `m_current` alone, or it performs a valid
edit. -/
def Settles (m : PlaylistManager) (c : ListCommand) : Prop :=
  ∃ r, m.perform c = .ok r ∧
    ((r.1 ≠ .noErr ∧ r.2.toPlaylists = m.toPlaylists) ∨
      (r.1 = .noErr ∧ Edited m (m.byIndex c) r.2))

/-- When a call by index does that. -/
def Handles (m : PlaylistManager) : ListCommand → Prop
  | .removeItem index => ∀ item ∈ m.active[index]?, m.CurrentOk ∧ m.toItemHeap.live item
  | .removeRange index count => index < m.active.length →
      m.CurrentOk ∧ index + count ≤ m.active.length ∧
        Releasable m.toItemHeap ((m.active.drop index).take count)
  | .removeItems items =>
    if nonNull items = [] then if m.onMaster = true then m.CurrentOk else m.CurrentValid
    else m.CurrentOk ∧ (nonNull items).Subperm m.active ∧
      Releasable m.toItemHeap (nonNull items)
  | .moveItem oldIndex newIndex =>
    oldIndex < m.active.length → newIndex < m.active.length → m.CurrentOk
  | .moveItems items _ => (if m.onMaster = true then m.CurrentValid else m.CurrentOk) ∧
      null ∉ items ∧ items.Subperm m.active
  | .swapItems index1 index2 =>
    index1 < m.active.length → index2 < m.active.length → m.CurrentOk
  | .setCurrentIndex index => index < m.active.length ∧
      if m.masterList = [] then m.shuffle = true else SetsValid m.toPlaylists index
  | _ => False

/-! ## Common to the calls -/

theorem settles_of_rejected (hc : m.perform c = .ok (.invalidParam, m)) : Settles m c :=
  ⟨_, hc, .inl ⟨nofun, rfl⟩⟩

theorem edited_of_outcome (hout : Outcome m list shuffled keeps R m') (hok : m'.CurrentOk)
    (hedit : ValidEdit m c list) : Edited m c m' := by
  refine ⟨?_, hout.sound.perm, hok, fun hm => ?_⟩
  · rw [hout.active]
    exact hedit
  · rw [hout.external hm]

/-- A current index that is valid after an edit was valid before, when there was a current
item. -/
theorem currentOk_of_outcome (hs : m.Sound) (hout : Outcome m list shuffled keeps R m')
    (hitem : m.onMaster = true → m.masterList ≠ [] ∧ ∃ x, m.getCurrentItem = .ok x)
    (hok : m'.CurrentOk) : m.CurrentOk := by
  cases hm : m.onMaster with
  | true =>
    obtain ⟨hne, hx⟩ := hitem hm
    exact (Playlists.getCurrentItem_ok_iff hs hne).mp hx
  | false =>
    rw [hout.external hm] at hok
    exact hok

theorem meets_ok {φ α : Type} (x : Except φ α) : Meets x (fun _ => True) fun a => x = .ok a := by
  cases x with
  | ok a => exact rfl
  | error f => trivial

theorem Settles.edited (h : Settles m c) (hr : m.perform c = .ok r) (hnoErr : r.1 = .noErr) :
    Edited m (m.byIndex c) r.2 := by
  obtain ⟨r', hr', hcases⟩ := h
  obtain rfl := Except.ok.inj (hr.symm.trans hr')
  rcases hcases with ⟨herror, -⟩ | ⟨-, hedited⟩
  · exact absurd hnoErr herror
  · exact hedited

theorem masterList_ne_nil (hs : m.Sound) (hm : m.onMaster = true) (hne : m.active ≠ []) :
    m.masterList ≠ [] := by
  rwa [hs.active_eq hm] at hne

theorem settles_of_meets (h : Meets (m.perform c) (fun _ => False) fun r =>
    r.1 = .noErr ∧ Edited m (m.byIndex c) r.2) : Settles m c := by
  cases hr : m.perform c with
  | error f => exact (h.of_error hr).elim
  | ok r => exact ⟨r, hr, .inr (h.of_ok hr)⟩

/-! ## Removing -/

theorem settles_removeItem (hs : m.Sound) (index : Nat) :
    Settles m (.removeItem index) ↔ Handles m (.removeItem index) := by
  rcases Nat.lt_or_ge index m.active.length with hlt | hge
  · have hitem := List.getElem?_eq_getElem hlt
    constructor
    · rintro h item' hitem'
      obtain rfl := Option.some.inj (hitem.symm.trans hitem')
      obtain ⟨r, hr, -⟩ := id h
      obtain ⟨hnoErr, -, hout⟩ := (removeItem_meets hs (.inr trivial) hitem
        (meets_ok (m.toItemHeap.releaseItem m.active[index]))).of_ok hr
      have hgot : ∃ x, m.getCurrentItem = .ok x := by
        have hrun : m.removeItem index = .ok r := hr
        unfold removeItem at hrun
        simp only [if_pos ((Playlists.checkIndex_ne_iff hs.active_size).mpr hlt)] at hrun
        obtain ⟨x, hx, -⟩ := bind_eq_ok.mp hrun
        exact ⟨x, hx⟩
      refine ⟨currentOk_of_outcome hs hout (fun hm => ?_) (h.edited hr hnoErr).current,
        (releaseItem_ok hout.heap).1⟩
      exact ⟨masterList_ne_nil hs hm (List.ne_nil_of_length_pos (by omega)), hgot⟩
    · intro h
      obtain ⟨hok, hlive⟩ := h _ hitem
      obtain ⟨heap, hrelease⟩ := releaseItem_returns hlive
      have hR : Meets (m.toItemHeap.releaseItem m.active[index]) (fun _ => False)
          fun _ => True := by
        rw [hrelease]
        trivial
      refine settles_of_meets ((removeItem_meets hs (.inl hok.2) hitem hR).mono ?_)
      rintro r ⟨hnoErr, -, hout⟩
      exact ⟨hnoErr, edited_of_outcome hout (hout.currentOk hok) ⟨hlt, rfl⟩⟩
  · refine iff_of_true (settles_of_rejected (removeItem_invalid hs hge)) ?_
    intro item hitem
    rw [List.getElem?_eq_none hge] at hitem
    exact absurd hitem nofun

theorem settles_removeRange (hs : m.Sound) (index count : Nat) :
    Settles m (.removeRange index count) ↔ Handles m (.removeRange index count) := by
  rcases Nat.lt_or_ge index m.active.length with hlt | hge
  · constructor
    · intro h _
      obtain ⟨r, hr, -⟩ := id h
      obtain ⟨hnoErr, hin, -, hout⟩ := (removeRange_meets hs (.inr trivial) hlt (.inr trivial)
        (meets_ok (((m.active.drop index).take count).foldlM ItemHeap.releaseItem
          m.toItemHeap))).of_ok hr
      have hgot : ∃ x, m.getCurrentItem = .ok x := by
        have hrun : m.removeRange index count = .ok r := hr
        unfold removeRange at hrun
        simp only [if_pos ((Playlists.checkIndex_ne_iff hs.active_size).mpr hlt)] at hrun
        obtain ⟨x, hx, -⟩ := bind_eq_ok.mp hrun
        exact ⟨x, hx⟩
      refine ⟨currentOk_of_outcome hs hout (fun hm => ?_) (h.edited hr hnoErr).current, hin,
        releasable_iff.mp ⟨_, hout.heap⟩⟩
      exact ⟨masterList_ne_nil hs hm (List.ne_nil_of_length_pos (by omega)), hgot⟩
    · intro h
      obtain ⟨hok, hin, hrelease⟩ := h hlt
      obtain ⟨heap, hrelease⟩ := releasable_iff.mpr hrelease
      have hR : Meets (((m.active.drop index).take count).foldlM ItemHeap.releaseItem
          m.toItemHeap) (fun _ => False) fun _ => True := by
        rw [hrelease]
        trivial
      refine settles_of_meets ((removeRange_meets hs (.inl hok.2) hlt (.inl hin) hR).mono ?_)
      rintro r ⟨hnoErr, -, -, hout⟩
      exact ⟨hnoErr, edited_of_outcome hout (hout.currentOk hok) ⟨hin, rfl⟩⟩
  · exact iff_of_true (settles_of_rejected (removeRange_invalid hs hge))
      fun hlt => absurd hlt (Nat.not_lt.mpr hge)

/-- A vector of NULL pointers: `m_current` is set again, and nothing is removed. -/
theorem removeItems_nothing {items : List Ptr} (hnone : nonNull items = []) :
    m.removeItems items = (do
      let currentItem ← m.getCurrentItem
      let m' ← (m.acceptEvent (.itemRemoved [] [])).whenMaster fun m => m.repairCurrent currentItem
      pure (.invalidParam, m')) := by
  unfold removeItems
  simp only [removeItemsLoop_nonNull, hnone, List.foldlM_nil, pure_bind]

theorem repairCurrent_same (hs : m.Sound) (hm : m.onMaster = true) (hok : m.CurrentOk) {x : Ptr}
    (hx : m.getCurrentItem = .ok x) :
    Meets (m.repairCurrent x) E fun m' => m'.toPlaylists = m.toPlaylists := by
  refine (repairCurrent_meets hs hm x).mono ?_
  rintro m' ⟨honly, hempty, hfound, -⟩
  have hcur : m'.current = m.current := by
    rcases current_cases hs hx with ⟨hnil, -⟩ | ⟨hne, hnull, hplay, hmem, -⟩
    · have hnil' : m'.masterList = [] := by rw [honly.masterList, hnil]
      exact ((hempty (.inl hnil)).1 hnil').trans (hok.1 hnil).symm
    · have hne' : m'.masterList ≠ [] := by rwa [honly.masterList]
      have hplay' := (Playlists.getCurrentItem_eq_iff (honly.sound hs) hne').mp (hfound hnull hmem).2
      rw [honly.playing] at hplay'
      have hlt := (List.getElem?_eq_some_iff.mp hplay').1
      exact (List.getElem?_inj hlt hs.playing_nodup).mp (hplay'.trans hplay.symm)
  rw [honly.lists, hcur]

theorem settles_removeNothing (hs : m.Sound) {items : List Ptr} (hnone : nonNull items = []) :
    Settles m (.removeItems items) ↔ if m.onMaster = true then m.CurrentOk else m.CurrentValid := by
  have hrun : m.perform (.removeItems items) = m.removeItems items := rfl
  unfold Settles
  rw [hrun, removeItems_nothing hnone]
  unfold whenMaster
  have honM : (m.acceptEvent (.itemRemoved [] [])).onMaster = m.onMaster := rfl
  rw [honM]
  have hvalid : (∃ x, m.getCurrentItem = .ok x) → m.masterList ≠ [] → m.CurrentOk :=
    fun hx hne => (Playlists.getCurrentItem_ok_iff hs hne).mp hx
  constructor
  · rintro ⟨r, hr, hcases⟩
    obtain ⟨x, hx, hr⟩ := bind_eq_ok.mp hr
    obtain ⟨m', hm', hr⟩ := bind_eq_ok.mp hr
    obtain rfl := Except.ok.inj hr
    have hsame : m'.toPlaylists = m.toPlaylists := by
      rcases hcases with ⟨-, hsame⟩ | ⟨hnoErr, -⟩
      · exact hsame
      · exact absurd hnoErr nofun
    split
    · rename_i hm
      rcases eq_or_ne m.masterList [] with hnil | hne
      · rw [if_pos hm] at hm'
        obtain ⟨-, hempty, -⟩ := (repairCurrent_meets (E := fun _ => True)
          (m := m.acceptEvent (.itemRemoved [] [])) hs hm x).of_ok hm'
        have hok := hempty (.inl hnil)
        rwa [hsame] at hok
      · exact hvalid ⟨x, hx⟩ hne
    · exact fun hne => (hvalid ⟨x, hx⟩ hne).2 hne
  · intro hcur
    have hcur' : m.CurrentValid := by
      split at hcur
      · exact hcur.2
      · exact hcur
    cases hx : m.getCurrentItem with
    | error f => exact ((getCurrentItem_meets (E := fun _ => False) hs (.inl hcur')).of_error hx).elim
    | ok x =>
      rw [ok_bind]
      split
      · rename_i hm
        rw [if_pos hm] at hcur
        have hrepair := repairCurrent_same (E := fun _ => False)
          (m := m.acceptEvent (.itemRemoved [] [])) hs hm hcur hx
        cases hm' : (m.acceptEvent (.itemRemoved [] [])).repairCurrent x with
        | error f => exact (hrepair.of_error hm').elim
        | ok m' =>
          have hrun : (m.acceptEvent (.itemRemoved [] [])).repairCurrent x >>=
              (fun m' => pure (Error.invalidParam, m')) = .ok (Error.invalidParam, m') := by
            rw [hm']
            rfl
          exact ⟨_, hrun, .inl ⟨nofun, hrepair.of_ok hm'⟩⟩
      · exact ⟨_, rfl, .inl ⟨nofun, rfl⟩⟩

theorem settles_removeItems (hs : m.Sound) (items : List Ptr) :
    Settles m (.removeItems items) ↔ Handles m (.removeItems items) := by
  show _ ↔ if nonNull items = [] then if m.onMaster = true then m.CurrentOk else m.CurrentValid
    else m.CurrentOk ∧ (nonNull items).Subperm m.active ∧
      Releasable m.toItemHeap (nonNull items)
  split
  · rename_i hnone
    exact settles_removeNothing hs hnone
  · rename_i hsome
    constructor
    · intro h
      obtain ⟨r, hr, -⟩ := id h
      obtain ⟨hnoErr, hsub, -, hout⟩ := (removeItems_meets hs (.inr trivial) (.inr trivial)
        (meets_ok ((nonNull items).foldlM ItemHeap.releaseItem m.toItemHeap))).of_ok hr
      rw [if_neg hsome] at hnoErr
      have hgot : ∃ x, m.getCurrentItem = .ok x := by
        have hrun : m.removeItems items = .ok r := hr
        unfold removeItems at hrun
        obtain ⟨x, hx, -⟩ := bind_eq_ok.mp hrun
        exact ⟨x, hx⟩
      refine ⟨currentOk_of_outcome hs hout (fun hm => ?_) (h.edited hr hnoErr).current, hsub,
        releasable_iff.mp ⟨_, hout.heap⟩⟩
      refine ⟨masterList_ne_nil hs hm fun hnil => hsome ?_, hgot⟩
      rw [hnil] at hsub
      exact List.subperm_nil.mp hsub
    · rintro ⟨hok, hsub, hrelease⟩
      obtain ⟨heap, hrelease⟩ := releasable_iff.mpr hrelease
      have hR : Meets ((nonNull items).foldlM ItemHeap.releaseItem m.toItemHeap)
          (fun _ => False) fun _ => True := by
        rw [hrelease]
        trivial
      refine settles_of_meets ((removeItems_meets hs (.inl hok.2) (.inl hsub) hR).mono ?_)
      rintro r ⟨hnoErr, -, -, hout⟩
      rw [if_neg hsome] at hnoErr
      exact ⟨hnoErr, edited_of_outcome hout (hout.currentOk hok) ⟨hsub, rfl⟩⟩

/-! ## Moving -/

/-- A rearrangement that has a valid current index afterwards had one before. -/
theorem currentOk_of_rearranged (hout : Outcome m list shuffled keeps R m')
    (hback : m.onMaster = true → m'.CurrentOk → m.CurrentOk) (hok : m'.CurrentOk) :
    m.CurrentOk := by
  cases hm : m.onMaster with
  | true => exact hback hm hok
  | false =>
    rw [hout.external hm] at hok
    exact hok

theorem settles_swapItems (hs : m.Sound) (index1 index2 : Nat) :
    Settles m (.swapItems index1 index2) ↔ Handles m (.swapItems index1 index2) := by
  by_cases hin : index1 < m.active.length ∧ index2 < m.active.length
  · have h1 := List.getElem?_eq_getElem hin.1
    have h2 := List.getElem?_eq_getElem hin.2
    constructor
    · intro h _ _
      obtain ⟨r, hr, -⟩ := id h
      have hmeets : Meets (m.swapItems index1 index2) (fun _ => True) _ :=
        swapItems_meets (R := fun _ => True) hs h1 h2 trivial
      obtain ⟨hnoErr, hout, hback, -⟩ := hmeets.of_ok hr
      exact currentOk_of_rearranged hout hback (h.edited hr hnoErr).current
    · intro h
      refine settles_of_meets ((swapItems_meets (R := fun _ => True) hs h1 h2 trivial).mono ?_)
      rintro r ⟨hnoErr, hout, -⟩
      exact ⟨hnoErr, edited_of_outcome hout (hout.currentOk (h hin.1 hin.2)) ⟨_, _, h1, h2, rfl⟩⟩
  · refine iff_of_true (settles_of_rejected (swapItems_invalid hs ?_))
      fun h1 h2 => absurd ⟨h1, h2⟩ hin
    omega

theorem settles_moveItem (hs : m.Sound) (oldIndex newIndex : Nat) :
    Settles m (.moveItem oldIndex newIndex) ↔ Handles m (.moveItem oldIndex newIndex) := by
  by_cases hin : oldIndex < m.active.length ∧ newIndex < m.active.length
  · have hitem := List.getElem?_eq_getElem hin.1
    constructor
    · intro h _ _
      obtain ⟨r, hr, -⟩ := id h
      have hmeets : Meets (m.moveItem oldIndex newIndex) (fun _ => True) _ :=
        moveItem_meets (R := fun _ => True) hs hitem hin.2 trivial
      obtain ⟨hnoErr, hout, hback, -⟩ := hmeets.of_ok hr
      exact currentOk_of_rearranged hout hback (h.edited hr hnoErr).current
    · intro h
      refine settles_of_meets ((moveItem_meets (R := fun _ => True) hs hitem hin.2 trivial).mono ?_)
      rintro r ⟨hnoErr, hout, -⟩
      exact ⟨hnoErr,
        edited_of_outcome hout (hout.currentOk (h hin.1 hin.2)) ⟨_, hitem, hin.2, rfl⟩⟩
  · refine iff_of_true (settles_of_rejected (moveItem_invalid hs ?_))
      fun h1 h2 => absurd ⟨h1, h2⟩ hin
    omega

/-- A call that returns no error value has returned the manager. -/
theorem map_noErr_eq_ok {x : Checked PlaylistManager} (h : (Error.noErr, ·) <$> x = .ok r) :
    x = .ok r.2 ∧ r.1 = .noErr := by
  cases x with
  | error f => exact absurd h nofun
  | ok m' =>
    obtain rfl := Except.ok.inj h
    exact ⟨rfl, rfl⟩

theorem settles_of_map {x : Checked PlaylistManager} (hx : m.perform c = (Error.noErr, ·) <$> x)
    (h : Meets x (fun _ => False) (Edited m (m.byIndex c))) : Settles m c := by
  cases hm' : x with
  | error f => exact (h.of_error hm').elim
  | ok m' =>
    rw [hm'] at hx
    exact ⟨_, hx, .inr ⟨rfl, h.of_ok hm'⟩⟩

theorem settles_moveItems (hs : m.Sound) (items : List Ptr) (index : Nat) :
    Settles m (.moveItems items index) ↔ Handles m (.moveItems items index) := by
  constructor
  · intro h
    obtain ⟨r, hr, -⟩ := id h
    obtain ⟨hmove, hnoErr⟩ := map_noErr_eq_ok hr
    have hedited : Edited m (.moveItems items index) r.2 := h.edited hr hnoErr
    obtain ⟨hsub, place, hplace⟩ := hedited.edit
    refine ⟨?_, ?_, hsub⟩
    · cases hm : m.onMaster with
      | true => exact currentValid_of_moveItems hs hmove
      | false =>
        have hmeets : Meets (m.moveItems items index) (fun _ => True) _ :=
          moveItems_meets (R := fun _ => True) hs trivial (.inr trivial) (.inr ⟨hm, trivial⟩)
            (.inr trivial) trivial
        obtain ⟨list, hout, -⟩ := hmeets.of_ok hmove
        have hok := hedited.current
        rw [hout.external hm] at hok
        rw [if_neg Bool.false_ne_true]
        exact hok
    · intro hmem
      cases hm : m.onMaster with
      | true =>
        have hnull := hsub.subset hmem
        rw [hs.active_eq hm] at hnull
        exact hs.nonnull hnull
      | false =>
        -- the NULL pointer is inserted, and none is erased for it
        have hmeets : Meets (m.moveItems items index) (fun _ => True) _ :=
          moveItems_meets (R := fun _ => True) hs trivial (.inr trivial) (.inr ⟨hm, trivial⟩)
            (.inr trivial) trivial
        obtain ⟨list, hout, -, hlength⟩ := hmeets.of_ok hmove
        rw [hout.active] at hplace
        have hblock : list.length = (m.active.diff items ++ items).length := by
          rw [hplace, blockAt, (insert_perm _ _ _).length_eq]
        have hdiff :=
          (List.subperm_append_diff_self_of_count_le fun x _ => hsub.count_le x).length_eq
        have hfewer : (nonNull items).length < items.length := by
          refine List.length_filter_lt_length_iff_exists.mpr ⟨null, hmem, ?_⟩
          simp
        rw [List.length_append] at hblock hdiff
        omega
  · rintro ⟨hcur, hnull, hsub⟩
    have hcur' : m.CurrentValid := by
      split at hcur
      · exact hcur
      · exact hcur.2
    refine settles_of_map rfl ((moveItems_outcome hs hcur' hnull hsub index).mono ?_)
    rintro m' ⟨hout, hok⟩
    refine edited_of_outcome hout ?_ ⟨hsub, _, rfl⟩
    cases hm : m.onMaster with
    | true => exact hok hm
    | false =>
      rw [hm, if_neg Bool.false_ne_true] at hcur
      exact hout.currentOk hcur

/-! ## Setting the current index -/

/-- Without a master list there is no index that says which item is current. -/
theorem setIndex_invalid_iff (hs : m.Sound) (hnil : m.masterList = []) {index : Nat}
    (hlt : index < m.active.length) :
    setIndex m.toPlaylists index = kInvalidIndex ↔ m.shuffle = true := by
  have hshuffle : m.shuffleList = [] := List.length_eq_zero_iff.mp (by
    rw [hs.perm.length_eq, hnil]
    rfl)
  unfold setIndex
  rw [hshuffle, internalIndexOf_of_not_mem List.not_mem_nil]
  cases m.shuffle with
  | true => exact iff_of_true rfl rfl
  | false =>
    refine iff_of_false ?_ Bool.false_ne_true
    rw [if_neg Bool.false_ne_true]
    exact (Playlists.checkIndex_ne_iff hs.active_size).mpr hlt

theorem settles_setCurrentIndex (hs : m.Sound) (index : Nat) :
    Settles m (.setCurrentIndex index) ↔ Handles m (.setCurrentIndex index) := by
  -- whether `m_current` is valid afterwards
  have hcurrent : ∀ {m'}, OnlyCurrent m m' → m'.current = setIndex m.toPlaylists index →
      index < m.active.length → (m'.CurrentOk ↔
        if m.masterList = [] then m.shuffle = true else SetsValid m.toPlaylists index) := by
    intro m' honly hcur hlt
    unfold Playlists.CurrentOk
    rw [honly.masterList, hcur, setIndex_lt_iff hs]
    split
    · rename_i hnil
      rw [setIndex_invalid_iff hs hnil hlt]
      exact ⟨fun h => h.1 hnil, fun h => ⟨fun _ => h, fun hne => absurd hnil hne⟩⟩
    · rename_i hne
      exact ⟨fun h => h.2 hne, fun h => ⟨fun hnil => absurd hnil hne, fun _ => h⟩⟩
  constructor
  · intro h
    obtain ⟨r, hr, -⟩ := id h
    obtain ⟨hset, hnoErr⟩ := map_noErr_eq_ok hr
    have hedited : Edited m (.setCurrentIndex index) r.2 := h.edited hr hnoErr
    have hmeets : Meets (m.setCurrentIndex index) (fun _ => True) _ :=
      setCurrentIndex_sets hs (.inr (.inr trivial))
    obtain ⟨honly, hcur⟩ := hmeets.of_ok hset
    exact ⟨hedited.edit.1, (hcurrent honly hcur hedited.edit.1).mp hedited.current⟩
  · rintro ⟨hlt, hok⟩
    have hvalid : SetsValid m.toPlaylists index ∨ m.masterList = [] := by
      split at hok
      · rename_i hnil
        exact .inr hnil
      · exact .inl hok
    refine settles_of_map rfl ((setCurrentIndex_sets hs (hvalid.imp_right .inl)).mono ?_)
    rintro m' ⟨honly, hcur⟩
    refine ⟨⟨hlt, ?_⟩, (honly.sound hs).perm, (hcurrent honly hcur hlt).mpr hok,
      fun _ => honly.masterList⟩
    rw [honly.lists]
    rfl

/-! ## Any call -/

theorem settles_byIndex (m : PlaylistManager) (c : ListCommand) :
    Settles m c ↔ Settles m (m.byIndex c) := by
  have hidem : m.byIndex (m.byIndex c) = m.byIndex c := by cases c <;> rfl
  unfold Settles
  rw [perform_byIndex, hidem]

theorem settles_byIndex_iff (hs : m.Sound) (c : ListCommand) :
    Settles m (m.byIndex c) ↔ Handles m (m.byIndex c) := by
  cases c with
  | removeItem index => exact settles_removeItem hs index
  | removeThis item => exact settles_removeItem hs _
  | removeRange index count => exact settles_removeRange hs index count
  | removeItems items => exact settles_removeItems hs items
  | moveItem oldIndex newIndex => exact settles_moveItem hs oldIndex newIndex
  | moveThis item index => exact settles_moveItem hs _ index
  | moveItems items index => exact settles_moveItems hs items index
  | moveIndices indices index => exact settles_moveItems hs _ index
  | swapItems index1 index2 => exact settles_swapItems hs index1 index2
  | swapThese item1 item2 => exact settles_swapItems hs _ _
  | setCurrentIndex index => exact settles_setCurrentIndex hs index
  | setCurrentItem item => exact settles_setCurrentIndex hs _

/-- A call returns an error and changes nothing, or performs a valid edit, exactly when it
handles its arguments. -/
theorem perform_settles_iff (hs : m.Sound) (c : ListCommand) :
    Settles m c ↔ Handles m (m.byIndex c) :=
  (settles_byIndex m c).trans (settles_byIndex_iff hs c)

/-- Of five items the third and the fourth are removed. -/
theorem perform_settles_third : ∃ m : PlaylistManager,
    Run (Guarded Proper (Steps next)) (init false .repeatNone fun _ => default) thirdCurrent m ∧
      Settles m (.removeRange 2 2) := by
  obtain ⟨m, hrun, hm, -, hlist, hcur, hfreed, -⟩ := thirdCurrent_run
  have hs : m.Sound := Reachable.sound ⟨_, _, _, _, hrun⟩
  have hactive : m.active = [1, 2, 3, 4, 5] := by rw [hs.active_eq hm, hlist]
  refine ⟨m, hrun, (perform_settles_iff hs (.removeRange 2 2)).mpr ?_⟩
  show 2 < m.active.length → m.CurrentOk ∧ 2 + 2 ≤ m.active.length ∧
    Releasable m.toItemHeap ((m.active.drop 2).take 2)
  rw [hactive]
  refine fun _ => ⟨⟨fun hnil => ?_, fun _ => ?_⟩, by decide, fun p hp => ?_⟩
  · rw [hlist] at hnil
    exact absurd hnil (by decide)
  · rw [hcur, hlist]
    decide
  · have hne : p ≠ null := by
      rintro rfl
      exact absurd hp (by decide)
    have hcount : ((m.active.drop 2).take 2).count p ≤ 1 := by
      rw [hactive]
      exact List.nodup_iff_count_le_one.mp (by decide) p
    rw [hactive] at hcount
    refine ⟨live_of_ne hfreed hne, Nat.le_trans hcount ?_⟩
    split <;> omega

/-- Five items: a range that runs past the end, an item that is not in the list, a NULL pointer
to be moved and an index that is out of range are not turned away. -/
theorem perform_misses_arguments : ∃ m : PlaylistManager,
    Run (Guarded Proper (Steps next)) (init false .repeatNone fun _ => default) thirdCurrent m ∧
      ¬ Settles m (.removeRange 1 5) ∧ ¬ Settles m (.removeItems [9]) ∧
      ¬ Settles m (.moveItems [null] 0) ∧ ¬ Settles m (.setCurrentIndex 7) := by
  obtain ⟨m, hrun, hm, -, hlist, -⟩ := thirdCurrent_run
  have hs : m.Sound := Reachable.sound ⟨_, _, _, _, hrun⟩
  have hactive : m.active = [1, 2, 3, 4, 5] := by rw [hs.active_eq hm, hlist]
  have hlen : m.active.length = 5 := congrArg List.length hactive
  refine ⟨m, hrun, fun h => ?_, fun h => ?_, fun h => ?_, fun h => ?_⟩
  · have hin := ((settles_removeRange hs 1 5).mp h (by omega)).2.1
    omega
  · obtain ⟨-, hsub, -⟩ := (settles_removeItems hs [9]).mp h
    have hmem := hsub.subset (List.mem_singleton_self 9)
    rw [hactive] at hmem
    exact absurd hmem (by decide)
  · exact ((settles_moveItems hs [null] 0).mp h).2.1 (List.mem_singleton_self null)
  · have hlt := ((settles_setCurrentIndex hs 7).mp h).1
    omega

end PlaylistManager

end FreeAmp.Base
