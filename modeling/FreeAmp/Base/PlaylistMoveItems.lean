/-
  Base/PlaylistMoveItems.lean --- where `MoveItems` puts the items.

  The items are to stand as a block in front of the item that was at the target index.
  `MoveItems` counts the target index down by one for each item that stands in front of
  it, and compares the place of an item with the index that it has counted down already.
  An item close in front of the target may so be missed, and the block comes one place
  too late.
-/
import FreeAmp.Base.PlaylistInvariant

namespace FreeAmp.Base

open FreeAmp.Lib

namespace PlaylistManager

variable {m m' : PlaylistManager} {items : List Ptr} {index : Nat}

/-! ## The target index -/

/-- How many of the items stand in front of the index. -/
def countFront (p : Playlists) (items : List Ptr) (index : Nat) : Nat :=
  items.countP fun item => decide (p.indexOf item < index)

/-- Each item in front of the index is also in front of what is left of the index after
one for each earlier item in front of it. -/
def KeepsUp (p : Playlists) (items : List Ptr) (index : Nat) : Prop :=
  ∀ before item after, items = before ++ item :: after → p.indexOf item < index →
    p.indexOf item + countFront p before index < index

theorem countFront_append_singleton (p : Playlists) (items : List Ptr) (item : Ptr)
    (index : Nat) : countFront p (items ++ [item]) index =
      countFront p items index + if p.indexOf item < index then 1 else 0 := by
  unfold countFront
  rw [List.countP_append, List.countP_singleton]
  simp only [decide_eq_true_eq]

theorem keepsUp_append_singleton {p : Playlists} {items : List Ptr} {item : Ptr} {index : Nat} :
    KeepsUp p (items ++ [item]) index ↔ KeepsUp p items index ∧
      (p.indexOf item < index → p.indexOf item + countFront p items index < index) := by
  constructor
  · intro h
    refine ⟨fun before x after heq hfront => ?_, h items item [] rfl⟩
    refine h before x (after ++ [item]) ?_ hfront
    rw [heq, List.append_assoc, List.cons_append]
  · rintro ⟨h, hlast⟩ before x after heq hfront
    rcases List.eq_nil_or_concat after with rfl | ⟨after', y, rfl⟩
    · obtain ⟨rfl, hx⟩ := List.append_inj' heq rfl
      obtain rfl : item = x := by simpa using hx
      exact hlast hfront
    · have heq' : items ++ [item] = (before ++ x :: after') ++ [y] := by
        rw [heq, List.append_assoc, List.cons_append, List.concat_eq_append]
      obtain ⟨rfl, -⟩ := List.append_inj' heq' rfl
      exact h before x after' rfl hfront

theorem moveTarget_append_singleton (p : Playlists) (items : List Ptr) {item : Ptr}
    (hne : item ≠ null) (index : Nat) : (moveTarget p (items ++ [item]) index).1 =
      if p.indexOf item < (moveTarget p items index).1 then (moveTarget p items index).1 - 1
      else (moveTarget p items index).1 := by
  unfold moveTarget
  rw [List.foldl_append, List.foldl_cons, List.foldl_nil, if_pos hne]

/-- The target index is not counted down too far, and far enough exactly when the items keep
up with it. -/
theorem moveTarget_spec (p : Playlists) {items : List Ptr} (hnull : null ∉ items)
    (index : Nat) : index ≤ (moveTarget p items index).1 + countFront p items index ∧
      (moveTarget p items index).1 ≤ index ∧
      ((moveTarget p items index).1 + countFront p items index = index ↔
        KeepsUp p items index) := by
  induction items using List.reverseRecOn with
  | nil =>
    refine ⟨Nat.le_add_right _ _, Nat.le_refl _, fun _ => ?_, fun _ => rfl⟩
    intro before item after heq
    exact absurd heq (by simp)
  | append_singleton items item ih =>
    have hne : item ≠ null := fun h => hnull (by rw [h]; simp)
    obtain ⟨hlow, hhigh, hiff⟩ := ih fun h => hnull (List.mem_append_left _ h)
    rw [moveTarget_append_singleton p items hne, countFront_append_singleton,
      keepsUp_append_singleton, ← hiff]
    by_cases hfront : p.indexOf item < index
    · rw [if_pos hfront]
      split
      · omega
      · omega
    · rw [if_neg hfront, if_neg (by omega)]
      omega

/-! ## The block -/

/-- The items as a block in front of the item that stood at the index, or of the next one that
is not itself moved, and the others in their order. -/
def blockBefore (list items : List Ptr) (index : Nat) : List Ptr :=
  (list.take index).filter (· ∉ items) ++ items ++ (list.drop index).filter (· ∉ items)

/-- The items as a block at a place among the others. -/
def blockAt (list items : List Ptr) (place : Nat) : List Ptr :=
  (list.diff items).take place ++ items ++ (list.diff items).drop place

theorem diff_eq_front_append_back {list : List Ptr} (hnodup : list.Nodup) (items : List Ptr)
    (index : Nat) : list.diff items = (list.take index).filter (· ∉ items) ++
      (list.drop index).filter (· ∉ items) := by
  rw [← List.filter_append, List.take_append_drop, hnodup.sdiff_eq_filter]

theorem blockBefore_eq {list : List Ptr} (hnodup : list.Nodup) (items : List Ptr)
    (index : Nat) : blockBefore list items index =
      blockAt list items ((list.take index).filter (· ∉ items)).length := by
  rw [blockAt, diff_eq_front_append_back hnodup items index, List.take_left, List.drop_left]
  rfl

theorem place_eq_of_blockAt_eq {list items : List Ptr} {i j : Nat} (hne : items ≠ [])
    (hi : i ≤ (list.diff items).length) (hj : j ≤ (list.diff items).length)
    (hnew : ∀ x ∈ items, x ∉ list.diff items) (h : blockAt list items i = blockAt list items j) :
    i = j := by
  obtain ⟨x, hx⟩ := List.exists_mem_of_ne_nil items hne
  have hplace : ∀ k, k ≤ (list.diff items).length →
      (blockAt list items k).idxOf x = k + items.idxOf x := by
    intro k hk
    have hfront : x ∉ (list.diff items).take k := fun hmem => hnew x hx (List.mem_of_mem_take hmem)
    rw [blockAt, List.append_assoc, List.idxOf_append_of_notMem hfront,
      List.idxOf_append_of_mem hx, List.length_take, Nat.min_eq_left hk]
  have heq := congrArg (List.idxOf x) h
  rw [hplace i hi, hplace j hj] at heq
  exact Nat.add_right_cancel heq

/-- In front of the index stand the items that are counted and the others. -/
theorem length_front_add_countFront {p : Playlists} {items : List Ptr} {index : Nat}
    (hsize : p.active.length ≤ vecMaxSize) (hnodup : p.active.Nodup) (hitems : items.Nodup)
    (hnull : null ∉ items) (hsub : ∀ x ∈ items, x ∈ p.active) (hindex : index ≤ p.active.length) :
    ((p.active.take index).filter (· ∉ items)).length + countFront p items index = index := by
  have hperm : ((p.active.take index).filter (· ∈ items)).Perm
      (items.filter fun x => decide (p.indexOf x < index)) := by
    refine (List.perm_ext_iff_of_nodup ((hnodup.sublist (List.take_sublist index _)).filter _)
      (hitems.filter _)).mpr fun x => ?_
    rw [List.mem_filter, List.mem_filter, decide_eq_true_eq, decide_eq_true_eq]
    constructor
    · rintro ⟨htake, hmem⟩
      have hne : x ≠ null := fun h => hnull (h ▸ hmem)
      refine ⟨hmem, ?_⟩
      unfold Playlists.indexOf
      rw [internalIndexOf_of_mem hsize hne (hsub x hmem)]
      exact (List.mem_take_iff_idxOf_lt (hsub x hmem)).mp htake
    · rintro ⟨hmem, hfront⟩
      have hne : x ≠ null := fun h => hnull (h ▸ hmem)
      unfold Playlists.indexOf at hfront
      rw [internalIndexOf_of_mem hsize hne (hsub x hmem)] at hfront
      exact ⟨(List.mem_take_iff_idxOf_lt (hsub x hmem)).mpr hfront, hmem⟩
  have hcount : countFront p items index = ((p.active.take index).filter (· ∈ items)).length := by
    rw [hperm.length_eq, countFront, List.countP_eq_length_filter]
  have hsplit := List.length_eq_length_filter_add (l := p.active.take index)
    fun x => decide (x ∈ items)
  rw [List.length_take, Nat.min_eq_left hindex] at hsplit
  rw [hcount]
  simp only [← decide_not] at hsplit
  omega

/-! ## What `MoveItems` does -/

/-- The place at which `MoveItems` puts the items. -/
def movePlace (m : PlaylistManager) (items : List Ptr) (index : Nat) : Nat :=
  min (m.active.diff items).length (moveTarget m.toPlaylists items (m.checkIndex index)).1

theorem nonNull_eq_self (h : null ∉ items) : nonNull items = items := by
  refine List.filter_eq_self.mpr fun x hx => ?_
  have hne : x ≠ null := fun heq => h (heq ▸ hx)
  simpa using hne

/-- With items of the list `MoveItems` returns, with the block at that place. -/
theorem moveItems_outcome (hs : m.Sound) (hcur : m.CurrentValid) (hnull : null ∉ items)
    (hsub : items.Subperm m.active) (index : Nat) :
    Meets (m.moveItems items index) (fun _ => False) fun m' =>
      Outcome m (blockAt m.active items (m.movePlace items index)) m.shuffleList True
        (fun _ => True) m' ∧ (m.onMaster = true → m'.CurrentOk) := by
  unfold moveItems
  simp only [Meets.bind_iff]
  refine (getCurrentItem_meets hs (.inl hcur)).mono fun currentItem hcurrent => ?_
  refine (eraseItems_meets items hs.active_size (.inl ?_)).mono ?_
  · rw [nonNull_eq_self hnull]
    exact hsub
  rintro l ⟨rfl, -⟩
  rw [nonNull_eq_self hnull]
  have hperm : (items ++ m.active.diff items).Perm m.active :=
    List.subperm_append_diff_self_of_count_le fun x _ => hsub.count_le x
  have hroom : (m.active.diff items).length + items.length ≤ vecMaxSize := by
    have hlen := hperm.length_eq
    rw [List.length_append] at hlen
    have hsize := hs.active_size
    omega
  refine (insertItems_meets (.inl hroom) (by split <;> omega)).mono ?_
  rintro list ⟨hlist, hsize⟩
  have hplace : (if (m.active.diff items).length ≤
      (moveTarget m.toPlaylists items (m.checkIndex index)).1 then (m.active.diff items).length
      else (moveTarget m.toPlaylists items (m.checkIndex index)).1) = m.movePlace items index := by
    rw [movePlace]
    exact (Nat.min_def).symm
  rw [hplace] at hlist
  have hlistPerm : m.onMaster = true → list.Perm m.masterList := by
    intro hm
    rw [hlist, ← hs.active_eq hm]
    exact (insert_perm _ _ _).trans (List.perm_append_comm.trans hperm)
  refine (refind_meets (R := fun _ => True) hs hcurrent hsize hlistPerm rfl
    trivial).mono ?_
  rintro m₂ ⟨hout, hok⟩
  refine (movedEvents_meets (.inl (moveTarget_length _ hnull _))).mono ?_
  rintro m₃ ⟨hlists, -⟩
  rw [hlist] at hout
  refine ⟨hout.onItems hlists trivial, fun hm => ?_⟩
  rw [hlists]
  exact hok hm

theorem Members.subperm_active (h : Members m items) : items.Subperm m.active := by
  have hsub := h.subperm
  rwa [nonNull_eq_self h.nonnull] at hsub

theorem moveItems_returns (hs : m.Sound) (hm : m.onMaster = true) (hcur : m.CurrentValid)
    (hitems : Members m items) (index : Nat) :
    Meets (m.moveItems items index) (fun _ => False) fun m' =>
      m'.masterList = blockAt m.masterList items (m.movePlace items index) := by
  refine (moveItems_outcome hs hcur hitems.nonnull hitems.subperm_active index).mono ?_
  rintro m' ⟨hout, -⟩
  rw [hout.master hm, hs.active_eq hm]

/-- Without a valid current index it reads out of range at its head. -/
theorem currentValid_of_moveItems (hs : m.Sound) (h : m.moveItems items index = .ok m') :
    m.CurrentValid := by
  intro hne
  unfold moveItems at h
  obtain ⟨x, hx, -⟩ := bind_eq_ok.mp h
  exact ((Playlists.getCurrentItem_ok_iff hs hne).mp ⟨x, hx⟩).2 hne

/-- The place is the right one when the items keep up with the target, or no other item
stands behind it. -/
theorem movePlace_eq_iff (hs : m.Sound) (hm : m.onMaster = true) (hitems : Members m items)
    (index : Nat) :
    m.movePlace items index = ((m.masterList.take index).filter (· ∉ items)).length ↔
      (∀ x ∈ m.masterList.drop index, x ∈ items) ∨ KeepsUp m.toPlaylists items index := by
  have hact := hs.active_eq hm
  have hlen := congrArg List.length (diff_eq_front_append_back hs.nodup items index)
  rw [List.length_append] at hlen
  have hback : (∀ x ∈ m.masterList.drop index, x ∈ items) ↔
      ((m.masterList.drop index).filter (· ∉ items)).length = 0 := by
    rw [List.length_eq_zero_iff, List.filter_eq_nil_iff]
    simp
  have hnodup := hs.nodup
  rw [← hact] at hnodup
  rcases Nat.lt_or_ge index m.masterList.length with hlt | hge
  · obtain ⟨hlow, -, hiff⟩ := moveTarget_spec m.toPlaylists hitems.nonnull index
    have hle : index ≤ m.active.length := by
      rw [hact]
      exact Nat.le_of_lt hlt
    have hfront := length_front_add_countFront hs.active_size hnodup hitems.nodup
      hitems.nonnull hitems.sub hle
    rw [hact] at hfront
    rw [hback, movePlace, Playlists.checkIndex_of_lt hs.active_size (hact ▸ hlt), ← hiff, hact]
    omega
  · -- past the end the index is far beyond the items
    have hnone : m.masterList.drop index = [] := List.drop_eq_nil_of_le hge
    obtain ⟨hlow, -, -⟩ := moveTarget_spec m.toPlaylists hitems.nonnull kInvalidIndex
    have hcount : countFront m.toPlaylists items kInvalidIndex ≤ items.length :=
      List.countP_le_length
    have hfew := hitems.subperm.length_le
    rw [nonNull_eq_self hitems.nonnull, hact] at hfew
    have hsize := hs.size
    have hrest : (m.masterList.diff items).length ≤ m.masterList.length :=
      (List.diff_sublist _ _).length_le
    rw [movePlace, Playlists.checkIndex_of_ge hs.active_size (hact ▸ hge), hact]
    rw [hnone] at hlen ⊢
    rw [vecMaxSize_eq] at hsize
    rw [kInvalidIndex_eq] at hlow hcount ⊢
    simp only [List.filter_nil, List.length_nil, Nat.add_zero] at hlen
    constructor
    · intro _
      exact .inl fun x hx => absurd hx List.not_mem_nil
    · intro _
      omega

/-- `MoveItems` puts the items where they are to stand exactly when `m_current` is valid and
the items keep up with the target, or no other item stands behind it. -/
theorem moveItems_blockBefore_iff (hs : m.Sound) (hm : m.onMaster = true)
    (hitems : Members m items) (index : Nat) :
    (∃ m', m.moveItems items index = .ok m' ∧
        m'.masterList = blockBefore m.masterList items index) ↔
      m.CurrentValid ∧
        ((∀ x ∈ m.masterList.drop index, x ∈ items) ∨ KeepsUp m.toPlaylists items index) := by
  rw [blockBefore_eq hs.nodup, ← movePlace_eq_iff hs hm hitems index]
  constructor
  · rintro ⟨m', hmove, hlist⟩
    have hcur := currentValid_of_moveItems hs hmove
    refine ⟨hcur, ?_⟩
    rw [(moveItems_returns hs hm hcur hitems index).of_ok hmove] at hlist
    have hlen := congrArg List.length (diff_eq_front_append_back hs.nodup items index)
    rw [List.length_append] at hlen
    rcases eq_or_ne items [] with hnil | hne
    · refine (movePlace_eq_iff hs hm hitems index).mpr (.inr ?_)
      intro before item after heq
      rw [hnil] at heq
      exact absurd heq (by simp)
    · have hmin : m.movePlace items index ≤ (m.masterList.diff items).length := by
        rw [movePlace, hs.active_eq hm]
        exact Nat.min_le_left _ _
      refine place_eq_of_blockAt_eq hne hmin (by omega) ?_ hlist
      intro x hx hmem
      rw [hs.nodup.sdiff_eq_filter, List.mem_filter] at hmem
      simp [hx] at hmem
  · rintro ⟨hcur, hplace⟩
    have hmeets := moveItems_returns hs hm hcur hitems index
    cases hmove : m.moveItems items index with
    | error f => exact (hmeets.of_error hmove).elim
    | ok m' =>
      refine ⟨m', rfl, ?_⟩
      rw [hmeets.of_ok hmove, hplace]

/-- Five items to move about. -/
def fiveItems : List Call :=
  [.addItem 1 false, .addItem 2 false, .addItem 3 false, .addItem 4 false, .addItem 5 false]

theorem fiveItems_run : ∃ m : PlaylistManager,
    Run (Guarded Proper (Steps next)) (init false .repeatNone fun _ => default) fiveItems m ∧
      m.onMaster = true ∧ m.masterList = [1, 2, 3, 4, 5] ∧ m.active = m.masterList ∧
      m.current = 0 ∧
      ∃ m', m.moveItems [1, 3] 3 = .ok m' ∧ m'.masterList = [2, 4, 1, 3, 5] :=
  ⟨_, .cons ⟨by decide, rfl⟩ <| .cons ⟨by decide, rfl⟩ <| .cons ⟨by decide, rfl⟩ <|
    .cons ⟨by decide, rfl⟩ <| .cons ⟨by decide, rfl⟩ <| .refl _, rfl, rfl, rfl, rfl, _, rfl, rfl⟩

/-- The third item and the first are moved in front of the fourth. -/
theorem moveItems_blockBefore_fiveItems : ∃ m : PlaylistManager,
    Run (Guarded Proper (Steps next)) (init false .repeatNone fun _ => default) fiveItems m ∧
      ∃ m', m.moveItems [3, 1] 3 = .ok m' ∧
        m'.masterList = blockBefore m.masterList [3, 1] 3 := by
  obtain ⟨m, hrun, hm, hlist, hactive, hcur, -⟩ := fiveItems_run
  have hs : m.Sound := Reachable.sound ⟨_, _, _, _, hrun⟩
  have hitems : Members m [3, 1] := by
    refine ⟨by decide, by decide, ?_⟩
    rw [hactive, hlist]
    decide
  refine ⟨m, hrun, (moveItems_blockBefore_iff hs hm hitems 3).mpr ⟨?_, .inr ?_⟩⟩
  · intro _
    rw [hcur, hlist]
    decide
  · -- places 2 and 0: the second is in front of what is left of the target
    have hplaces : ∀ x ∈ [3, 1], m.indexOf x = [1, 2, 3, 4, 5].idxOf x := by
      intro x hx
      unfold Playlists.indexOf
      rw [internalIndexOf_of_mem hs.active_size ?_ (hitems.sub x hx), hactive, hlist]
      exact fun h => hitems.nonnull (h ▸ hx)
    intro before item after heq hfront
    have hone := hplaces 1 (by decide)
    match before, heq with
    | [], heq =>
      obtain ⟨rfl, -⟩ := List.cons.inj heq
      exact hfront
    | [b], heq =>
      obtain ⟨-, heq⟩ := List.cons.inj heq
      obtain ⟨rfl, -⟩ := List.cons.inj heq
      have hplace : [1, 2, 3, 4, 5].idxOf 1 = 0 := by decide
      have hcount : countFront m.toPlaylists [b] 3 ≤ 1 := List.countP_le_length
      omega
    | b :: c :: before, heq => exact absurd (congrArg List.length heq) (by simp)

/-- The first item and the third are to stand in front of the fourth.  The third is taken for
one behind the target, and they come to stand behind the fourth. -/
theorem moveItems_misses_target : ∃ m : PlaylistManager,
    Run (Guarded Proper (Steps next)) (init false .repeatNone fun _ => default) fiveItems m ∧
      m.onMaster = true ∧ m.masterList = [1, 2, 3, 4, 5] ∧ Members m [1, 3] ∧ m.CurrentValid ∧
      ¬ ∃ m', m.moveItems [1, 3] 3 = .ok m' ∧
        m'.masterList = blockBefore m.masterList [1, 3] 3 := by
  obtain ⟨m, hrun, hm, hlist, hactive, hcur, m', hmove, hlist'⟩ := fiveItems_run
  refine ⟨m, hrun, hm, hlist, ⟨by decide, by decide, ?_⟩, ?_, ?_⟩
  · rw [hactive, hlist]
    decide
  · intro _
    rw [hcur, hlist]
    decide
  · rintro ⟨m'', hmove'', hblock⟩
    rw [hmove] at hmove''
    obtain rfl := Except.ok.inj hmove''
    rw [hlist', hlist] at hblock
    exact absurd hblock (by decide)

end PlaylistManager

end FreeAmp.Base
