/-
  Base/PlaylistMoves.lean --- what the functions do that rearrange a playlist.

  `MoveItems` and `Sort` look for the current item in the new list.  `SwapItems` and
  `MoveItem` work out the new current index from the old one instead, and do not
  always get it right.  For these two, `swappedTo` and `movedTo` say where the item at
  an index goes to, and the current item is the same exactly if the current index
  follows it.
-/
import FreeAmp.Base.PlaylistRemovals

namespace FreeAmp.Base

open FreeAmp.Lib

namespace PlaylistManager

variable {E : Fault → Prop} {R : ItemHeap → Prop} {m m' m₂ : PlaylistManager}
  {list shuffled : List Ptr}

/-! ## Where the items go -/

/-- Where the item at `c` is after the items at `index1` and `index2` are swapped. -/
def swappedTo (index1 index2 c : Nat) : Nat :=
  if c = index1 then index2 else if c = index2 then index1 else c

/-- Where the item at `c` is after the one at `oldIndex` is moved to `newIndex`. -/
def movedTo (oldIndex newIndex c : Nat) : Nat :=
  if c = oldIndex then newIndex
  else if oldIndex < c ∧ c ≤ newIndex then c - 1
  else if newIndex ≤ c ∧ c < oldIndex then c + 1
  else c

theorem swappedTo_lt_iff {index1 index2 c n : Nat} (h1 : index1 < n) (h2 : index2 < n) :
    swappedTo index1 index2 c < n ↔ c < n := by
  unfold swappedTo
  split
  · rename_i heq
    rw [heq]
    exact ⟨fun _ => h1, fun _ => h2⟩
  · split
    · rename_i heq
      rw [heq]
      exact ⟨fun _ => h2, fun _ => h1⟩
    · exact Iff.rfl

theorem getElem?_swapped {l : List Ptr} {index1 index2 c : Nat} {x1 x2 : Ptr}
    (h1 : l[index1]? = some x1) (h2 : l[index2]? = some x2) (hc : c < l.length) :
    ((l.set index1 x2).set index2 x1)[swappedTo index1 index2 c]? = l[c]? := by
  have hlt1 := (List.getElem?_eq_some_iff.mp h1).1
  have hlt2 := (List.getElem?_eq_some_iff.mp h2).1
  unfold swappedTo
  simp only [List.getElem?_set, List.length_set]
  grind

/-- The place `j` of a list into which `x` has been put at `i`. -/
theorem getElem?_inserted {l : List Ptr} {x : Ptr} {i j : Nat} (hi : i ≤ l.length) :
    (l.take i ++ [x] ++ l.drop i)[j]? =
      if j < i then l[j]? else if j = i then some x else l[j - 1]? := by
  have hlen : (l.take i ++ [x]).length = i + 1 := by
    rw [List.length_append, List.length_take, Nat.min_eq_left hi]
    rfl
  rw [List.getElem?_append, hlen]
  split
  · rename_i hle
    rw [List.getElem?_append, List.length_take, Nat.min_eq_left hi]
    split
    · rename_i hlt
      rw [List.getElem?_take_of_lt hlt]
    · rename_i hge
      obtain rfl : j = i := by omega
      rw [if_pos rfl, Nat.sub_self]
      rfl
  · rename_i hgt
    rw [if_neg (by omega), if_neg (by omega), List.getElem?_drop]
    congr 1
    omega

theorem getElem?_moved {l : List Ptr} {oldIndex newIndex c : Nat} {x : Ptr}
    (hold : l[oldIndex]? = some x) (hnew : newIndex < l.length) (hc : c < l.length) :
    ((l.eraseIdx oldIndex).take newIndex ++ [x] ++ (l.eraseIdx oldIndex).drop newIndex)[
        movedTo oldIndex newIndex c]? = l[c]? := by
  have hlt := (List.getElem?_eq_some_iff.mp hold).1
  have hlen : (l.eraseIdx oldIndex).length = l.length - 1 := List.length_eraseIdx_of_lt hlt
  rw [getElem?_inserted (by omega), List.getElem?_eraseIdx, List.getElem?_eraseIdx]
  unfold movedTo
  grind

/-! ## Following the current item -/

/-- When the item that was current is at `d` of the list now being played, it is still the
current item exactly if `d` is the current index. -/
theorem follows_iff (hs : m.Sound) (hok : m.CurrentOk) (hne : m.masterList ≠ [])
    (hs' : m'.Sound) (hne' : m'.masterList ≠ []) {d : Nat}
    (hd : m'.playing[d]? = m.playing[m.current]?) :
    m'.getCurrentItem = m.getCurrentItem ↔ m'.current = d := by
  rcases Playlists.getCurrentItem_ok hs hok.2 with ⟨hnil, -⟩ | ⟨x, hnull, hplay, -, hx⟩
  · exact absurd hnil hne
  · rw [hplay] at hd
    rw [hx, Playlists.getCurrentItem_eq_iff hs' hne']
    obtain ⟨hlt, hget⟩ := List.getElem?_eq_some_iff.mp hd
    constructor
    · intro hcur
      obtain ⟨hlt', hget'⟩ := List.getElem?_eq_some_iff.mp hcur
      exact (hs'.playing_nodup.getElem_inj_iff).mp (hget'.trans hget.symm)
    · intro hcur
      rw [hcur]
      exact hd

/-- The place of the current item after a change of the master list that takes the item at
`c` to `goes c`. -/
def followed (p : Playlists) (goes : Nat → Nat) : Nat :=
  if p.shuffle then p.current else goes p.current

theorem rearranged_sound (hs : m.Sound) (hperm : list.Perm m.masterList)
    (hlists : m₂.toPlaylists = { m.toPlaylists with
      masterList := list
      sortKey := m₂.sortKey
      sortType := m₂.sortType }) : m₂.Sound := by
  rw [hlists]
  exact { hs with
    perm := hs.perm.trans hperm.symm
    nodup := hperm.nodup_iff.mpr hs.nodup
    nonnull := fun hmem => hs.nonnull (hperm.mem_iff.mp hmem)
    size := by
      rw [hperm.length_eq]
      exact hs.size }

/-- A rearrangement of the master list, with the current index set at its end to one that
is valid. -/
theorem rearranged (hs : m.Sound) (hm : m.onMaster = true) (hne : m.masterList ≠ [])
    (hperm : list.Perm m.masterList) {goes : Nat → Nat}
    (hgoes : ∀ c, c < m.masterList.length → list[goes c]? = m.masterList[c]?)
    (hlists : m₂.toPlaylists = { m.toPlaylists with masterList := list })
    (h : OnlyCurrent m₂ m') (hok : m.CurrentOk → m'.current < m.masterList.length)
    (hR : R m'.toItemHeap) :
    Outcome m list m.shuffleList (m'.current = followed m.toPlaylists goes) R m' ∧
      (m.CurrentOk → m'.getCurrentItem = m.getCurrentItem →
        m'.current = followed m.toPlaylists goes) := by
  have hs₂ : m₂.Sound := by
    refine rearranged_sound hs hperm ?_
    rw [hlists]
  have hs' := h.sound hs₂
  have hmaster : m'.masterList = list := by rw [h.masterList, hlists]
  have hne' : m'.masterList ≠ [] := by
    intro hnil
    rw [hmaster] at hnil
    rw [hnil] at hperm
    exact hne hperm.nil_eq.symm
  have hiff : m.CurrentOk →
      (m'.getCurrentItem = m.getCurrentItem ↔ m'.current = followed m.toPlaylists goes) := by
    intro hcur
    refine follows_iff hs hcur hne hs' hne' ?_
    rw [h.playing, hlists]
    unfold followed Playlists.playing
    cases m.shuffle with
    | true => rfl
    | false =>
      simp only [Bool.false_eq_true, if_false]
      exact hgoes _ (hcur.2 hne)
  refine ⟨.ofMaster hm ?_ (.inl ?_) hs₂ h (fun hcur => ?_)
    (fun hcur _ => (hiff hcur).mpr) hR, fun hcur => (hiff hcur).mp⟩
  · rw [hlists]
  · rw [hlists]
  · refine ⟨fun hnil => absurd hnil hne', fun _ => ?_⟩
    rw [hmaster, hperm.length_eq]
    exact hok hcur

/-- The end of `SwapItems` and `MoveItem`: `fix` sets the current index to `current'`. -/
theorem relocate_meets (hs : m.Sound) (hne : m.active ≠ []) (hperm : list.Perm m.active)
    {goes : Nat → Nat} (hgoes : ∀ c, c < m.active.length → list[goes c]? = m.active[c]?)
    {current' : Nat} (hvalid : m.current < m.active.length ↔ current' < m.active.length)
    (hlists : m₂.toPlaylists = (m.setActiveList list).toPlaylists) (hR : R m₂.toItemHeap)
    {fix : PlaylistManager → Checked PlaylistManager}
    (hfix : m₂.Sound → m₂.current = m.current → m₂.masterList.length = m.active.length →
      Meets (fix m₂) E fun m' => OnlyCurrent m₂ m' ∧ m'.current = current') :
    Meets (m₂.whenMaster fix) E fun m' =>
      Outcome m list m.shuffleList (current' = followed m.toPlaylists goes) R m' ∧
      (m.onMaster = true → m'.CurrentOk → m.CurrentOk) ∧
      (m.onMaster = true → m.CurrentOk → m'.getCurrentItem = m.getCurrentItem →
        current' = followed m.toPlaylists goes) := by
  unfold whenMaster
  rw [hlists, onMaster_setActiveList]
  cases hm : m.onMaster with
  | false =>
    simp only [Bool.false_eq_true, if_false, Meets.pure_iff, false_implies, and_true]
    refine .ofExternal hs hm ?_ ?_ hR
    · rw [hperm.length_eq]
      exact hs.active_size
    · rw [hlists, setActiveList_external (hs.activeList_external hm)]
  | true =>
    simp only [if_true]
    rw [setActiveList_master (hs.activeList_master hm)] at hlists
    rw [hs.active_eq hm] at hne hperm hgoes hvalid hfix
    have hs₂ : m₂.Sound := by
      refine rearranged_sound hs hperm ?_
      rw [hlists]
    have hlen : m₂.masterList.length = m.masterList.length := by
      rw [hlists]
      exact hperm.length_eq
    have hcur₂ : m₂.current = m.current := by rw [hlists]
    refine (hfix hs₂ hcur₂ hlen).mono ?_
    rintro m' ⟨honly, hcur⟩
    have hR' : R m'.toItemHeap := by
      rw [honly.heap]
      exact hR
    have hvalid' : m.CurrentOk → m'.current < m.masterList.length := by
      intro hok
      rw [hcur]
      exact hvalid.mp (hok.2 hne)
    obtain ⟨hout, hsame⟩ := rearranged hs hm hne hperm hgoes hlists honly hvalid' hR'
    rw [hcur] at hout hsame
    refine ⟨hout, fun _ hok => ?_, fun _ => hsame⟩
    have hlen' : m'.masterList.length = m.masterList.length := by
      rw [honly.masterList]
      exact hlen
    have hne' : m'.masterList ≠ [] := by
      intro hnil
      rw [hnil, List.length_nil] at hlen'
      exact hne (List.length_eq_zero_iff.mp hlen'.symm)
    have hlt := hok.2 hne'
    rw [hcur, hlen'] at hlt
    exact ⟨fun hnil => absurd hnil hne, fun _ => hvalid.mpr hlt⟩

/-! ## Swapping -/

/-- When `SwapItems` leaves the current item alone. -/
def SwapKeeps (p : Playlists) (index1 index2 : Nat) : Prop :=
  p.shuffle = true → (index1 ≠ p.current ∧ index2 ≠ p.current) ∨ index1 = index2

instance (p : Playlists) (index1 index2 : Nat) : Decidable (SwapKeeps p index1 index2) :=
  inferInstanceAs (Decidable (_ → _))

theorem swapKeeps_iff (p : Playlists) (index1 index2 : Nat) :
    swappedTo index1 index2 p.current = followed p (swappedTo index1 index2) ↔
      SwapKeeps p index1 index2 := by
  unfold followed SwapKeeps swappedTo
  cases p.shuffle with
  | true => grind
  | false => simp

theorem swapItems_invalid (hs : m.Sound) {index1 index2 : Nat}
    (h : m.active.length ≤ index1 ∨ m.active.length ≤ index2) :
    m.swapItems index1 index2 = .ok (.invalidParam, m) := by
  unfold swapItems
  simp only
  rw [if_neg]
  · rfl
  · rintro ⟨h1, h2⟩
    rw [Playlists.checkIndex_ne_iff hs.active_size] at h1 h2
    omega

/-- The current index goes where the master item at it goes, in both modes. -/
theorem swapCurrent_meets (hs : m.Sound) {index1 index2 : Nat}
    (h1 : index1 < m.masterList.length) (h2 : index2 < m.masterList.length) :
    Meets (if m.current = index1 then m.internalSetCurrentIndex index2
      else if m.current = index2 then m.internalSetCurrentIndex index1
      else pure m) E fun m' =>
        OnlyCurrent m m' ∧ m'.current = swappedTo index1 index2 m.current := by
  unfold swappedTo
  rw [← hs.playing_length] at h1 h2
  split
  · exact internalSetCurrentIndex_meets (.inr (.inr (.inl h2))) (.inr (hs.index_le h2))
  · split
    · exact internalSetCurrentIndex_meets (.inr (.inr (.inl h1))) (.inr (hs.index_le h1))
    · exact ⟨.rfl', rfl⟩

theorem swapItems_meets (hs : m.Sound) {index1 index2 : Nat} {item1 item2 : Ptr}
    (h1 : m.active[index1]? = some item1) (h2 : m.active[index2]? = some item2)
    (hR : R m.toItemHeap) :
    Meets (m.swapItems index1 index2) E fun r => r.1 = .noErr ∧
      Outcome m ((m.active.set index1 item2).set index2 item1) m.shuffleList
        (SwapKeeps m.toPlaylists index1 index2) R r.2 ∧
      (m.onMaster = true → r.2.CurrentOk → m.CurrentOk) ∧
      (m.onMaster = true → m.CurrentOk → r.2.getCurrentItem = m.getCurrentItem →
        SwapKeeps m.toPlaylists index1 index2) := by
  obtain ⟨hlt1, hget1⟩ := List.getElem?_eq_some_iff.mp h1
  obtain ⟨hlt2, hget2⟩ := List.getElem?_eq_some_iff.mp h2
  have hne1 := (Playlists.checkIndex_ne_iff hs.active_size).mpr hlt1
  have hne2 := (Playlists.checkIndex_ne_iff hs.active_size).mpr hlt2
  have hperm : ((m.active.set index1 item2).set index2 item1).Perm m.active := by
    rw [← hget1, ← hget2]
    exact List.set_set_perm hlt1 hlt2
  unfold swapItems
  simp only [if_pos (And.intro hne1 hne2), Meets.bind_iff]
  rw [Playlists.checkIndex_of_lt hs.active_size hlt1,
    Playlists.checkIndex_of_lt hs.active_size hlt2]
  refine (elementAt_meets (.inl hlt1)).mono fun x1 hx1 => ?_
  refine (elementAt_meets (.inl hlt2)).mono fun x2 hx2 => ?_
  obtain rfl : x1 = item1 := Option.some.inj (hx1.symm.trans h1)
  obtain rfl : x2 = item2 := Option.some.inj (hx2.symm.trans h2)
  rw [← swapKeeps_iff]
  refine Meets.mono (relocate_meets hs (List.ne_nil_of_length_pos (Nat.zero_lt_of_lt hlt1))
    hperm (fun c hc => getElem?_swapped h1 h2 hc) (swappedTo_lt_iff hlt1 hlt2).symm
    (by rfl) (by exact hR) ?_) fun m' h => ⟨rfl, h⟩
  intro hs₂ hcur₂ hlen
  refine (swapCurrent_meets hs₂ (hlen ▸ hlt1) (hlen ▸ hlt2)).mono ?_
  rintro m' ⟨honly, hcur⟩
  exact ⟨honly, hcur.trans (congrArg (swappedTo index1 index2) hcur₂)⟩

/-! ## Moving one item -/

/-- What `MoveItem` makes of the current index. -/
def movedCurrent (oldIndex newIndex current : Nat) : Nat :=
  if oldIndex = current then newIndex
  else if newIndex = current then if current < oldIndex then current + 1 else current - 1
  else current

/-- When `MoveItem` leaves the current item alone.  With shuffling off it forgets the items
strictly between the two places; with shuffling on the current index is not one into the
list that has changed. -/
def MoveKeeps (p : Playlists) (oldIndex newIndex : Nat) : Prop :=
  if p.shuffle then (oldIndex ≠ p.current ∧ newIndex ≠ p.current) ∨ oldIndex = newIndex
  else ¬ (oldIndex < p.current ∧ p.current < newIndex) ∧
    ¬ (newIndex < p.current ∧ p.current < oldIndex)

instance (p : Playlists) (oldIndex newIndex : Nat) :
    Decidable (MoveKeeps p oldIndex newIndex) := by
  unfold MoveKeeps
  infer_instance

theorem moveKeeps_iff (p : Playlists) (oldIndex newIndex : Nat) :
    movedCurrent oldIndex newIndex p.current = followed p (movedTo oldIndex newIndex) ↔
      MoveKeeps p oldIndex newIndex := by
  unfold followed MoveKeeps movedTo movedCurrent
  cases p.shuffle with
  | true => grind
  | false => grind

theorem movedCurrent_lt_iff {oldIndex newIndex c n : Nat} (hold : oldIndex < n)
    (hnew : newIndex < n) : movedCurrent oldIndex newIndex c < n ↔ c < n := by
  unfold movedCurrent
  grind

theorem moveItem_invalid (hs : m.Sound) {oldIndex newIndex : Nat}
    (h : m.active.length ≤ oldIndex ∨ m.active.length ≤ newIndex) :
    m.moveItem oldIndex newIndex = .ok (.invalidParam, m) := by
  unfold moveItem
  simp only
  rw [if_neg]
  · rfl
  · rintro ⟨h1, h2⟩
    rw [Playlists.checkIndex_ne_iff hs.active_size] at h1 h2
    omega

theorem moveCurrent_meets (hs : m.Sound) {oldIndex newIndex : Nat}
    (hold : oldIndex < m.masterList.length) (hnew : newIndex < m.masterList.length) :
    Meets (if oldIndex = m.current then m.internalSetCurrentIndex newIndex
      else if newIndex = m.current then
        if m.current < oldIndex then m.internalSetCurrentIndex (toUint32 (m.current + 1))
        else m.internalSetCurrentIndex (predUint32 m.current)
      else pure m) E fun m' =>
        OnlyCurrent m m' ∧ m'.current = movedCurrent oldIndex newIndex m.current := by
  unfold movedCurrent
  have hsize := hs.size
  rw [vecMaxSize_eq] at hsize
  rw [← hs.playing_length] at hold hnew hsize
  split
  · exact internalSetCurrentIndex_meets (.inr (.inr (.inl hnew))) (.inr (hs.index_le hnew))
  · rename_i hother
    split
    · rename_i hcur
      split
      · rename_i hlt
        rw [toUint32_of_lt (by omega)]
        have hnext : m.current + 1 < m.playing.length := by omega
        exact internalSetCurrentIndex_meets (.inr (.inr (.inl hnext))) (.inr (hs.index_le hnext))
      · rename_i hge
        rw [predUint32_of_pos (by omega) (by omega)]
        have hback : m.current - 1 < m.playing.length := by omega
        exact internalSetCurrentIndex_meets (.inr (.inr (.inl hback))) (.inr (hs.index_le hback))
    · exact ⟨.rfl', rfl⟩

theorem moveItem_meets (hs : m.Sound) {oldIndex newIndex : Nat} {item : Ptr} (hitem : m.active[oldIndex]? = some item)
    (hnew : newIndex < m.active.length) (hR : R m.toItemHeap) :
    Meets (m.moveItem oldIndex newIndex) E fun r => r.1 = .noErr ∧
      Outcome m ((m.active.eraseIdx oldIndex).take newIndex ++ [item] ++
          (m.active.eraseIdx oldIndex).drop newIndex) m.shuffleList
        (MoveKeeps m.toPlaylists oldIndex newIndex) R r.2 ∧
      (m.onMaster = true → r.2.CurrentOk → m.CurrentOk) ∧
      (m.onMaster = true → m.CurrentOk → r.2.getCurrentItem = m.getCurrentItem →
        MoveKeeps m.toPlaylists oldIndex newIndex) := by
  obtain ⟨hold, hget⟩ := List.getElem?_eq_some_iff.mp hitem
  have hne1 := (Playlists.checkIndex_ne_iff hs.active_size).mpr hold
  have hne2 := (Playlists.checkIndex_ne_iff hs.active_size).mpr hnew
  have hlen' : (m.active.eraseIdx oldIndex).length = m.active.length - 1 :=
    List.length_eraseIdx_of_lt hold
  have hperm : ((m.active.eraseIdx oldIndex).take newIndex ++ [item] ++
      (m.active.eraseIdx oldIndex).drop newIndex).Perm m.active := by
    refine (insert_perm _ _ _).trans (List.perm_append_comm.trans ?_)
    rw [← hget]
    exact List.getElem_cons_eraseIdx_perm hold
  unfold moveItem
  simp only [if_pos (And.intro hne1 hne2), Meets.bind_iff]
  rw [Playlists.checkIndex_of_lt hs.active_size hold,
    Playlists.checkIndex_of_lt hs.active_size hnew]
  refine (elementAt_meets (.inl hold)).mono fun x hx => ?_
  obtain rfl : x = item := Option.some.inj (hx.symm.trans hitem)
  refine (eraseAt_meets (.inl hold)).mono ?_
  rintro l ⟨-, rfl⟩
  rw [if_neg (by omega)]
  have hroom : (m.active.eraseIdx oldIndex).length + [x].length ≤ vecMaxSize := by
    have hsize := hs.active_size
    rw [List.length_singleton]
    omega
  refine (insertItems_meets (.inl hroom) (by omega)).mono ?_
  rintro l ⟨rfl, hsize⟩
  rw [← moveKeeps_iff]
  refine (relocate_meets hs (List.ne_nil_of_length_pos (Nat.zero_lt_of_lt hold)) hperm
    (fun c hc => getElem?_moved hitem hnew hc) (movedCurrent_lt_iff hold hnew).symm rfl hR
    ?_).mono ?_
  · intro hs₂ hcur₂ hlen₂
    refine (moveCurrent_meets hs₂ (hlen₂ ▸ hold) (hlen₂ ▸ hnew)).mono ?_
    rintro m' ⟨honly, hcur⟩
    exact ⟨honly, hcur.trans (congrArg (movedCurrent oldIndex newIndex) hcur₂)⟩
  · rintro m' ⟨hout, hsame⟩
    exact ⟨rfl, hout.onItems rfl hout.heap, hsame⟩

/-! ## Moving a vector of items -/

theorem eraseItems_meets :
    ∀ (items : List Ptr) {l : List Ptr}, l.length ≤ vecMaxSize →
      ((nonNull items).Subperm l ∨ E .badIndex) →
      Meets (eraseItems l items) E fun l' =>
        l' = l.diff (nonNull items) ∧ (nonNull items).Subperm l := by
  intro items
  induction items with
  | nil =>
    intro l _ _
    exact ⟨rfl, List.nil_subperm⟩
  | cons item items ih =>
    intro l hsize hin
    unfold eraseItems nonNull at ih ⊢
    unfold nonNull at hin
    rw [List.foldlM_cons, Meets.bind_iff]
    rcases eq_or_ne item null with rfl | hne
    · rw [List.filter_cons_of_neg (by simp)] at hin ⊢
      rw [if_neg (not_not.mpr rfl)]
      exact ih hsize hin
    · rw [List.filter_cons_of_pos (by simpa using hne)] at hin ⊢
      rw [if_pos hne]
      have hin' : item ≠ null ∧ item ∈ l ∨ E .badIndex :=
        hin.imp_left fun h => ⟨hne, (erase_subperm_of_cons h).1⟩
      refine (eraseItem_meets hsize hin').mono ?_
      rintro l' ⟨-, hmem, rfl⟩
      have hsize' : (l.erase item).length ≤ vecMaxSize :=
        Nat.le_trans List.length_erase_le hsize
      refine (ih hsize' (hin.imp_left fun h => (erase_subperm_of_cons h).2)).mono ?_
      rintro l' ⟨rfl, hsub⟩
      refine ⟨by rw [List.diff_cons], ?_⟩
      have hcons := (List.subperm_cons item).mpr hsub
      exact hcons.trans (List.perm_cons_erase hmem).symm.subperm

/-- The first loop of `MoveItems` takes note of an index for every item. -/
theorem moveTarget_length (p : Playlists) {items : List Ptr} (hnull : null ∉ items)
    (index : Nat) : (moveTarget p items index).2.length = items.length := by
  unfold moveTarget
  suffices h : ∀ s : Nat × List Nat, (items.foldl (fun s item =>
      if item ≠ null then
        let oldIndex := p.indexOf item
        (if oldIndex < s.1 then s.1 - 1 else s.1, s.2 ++ [oldIndex])
      else s) s).2.length = s.2.length + items.length by
    rw [h]
    exact Nat.zero_add _
  induction items with
  | nil => exact fun _ => rfl
  | cons item items ih =>
    intro s
    have hne : item ≠ null := fun h => hnull (h ▸ List.mem_cons_self)
    have hrest : null ∉ items := fun h => hnull (List.mem_cons_of_mem _ h)
    rw [List.foldl_cons, if_pos hne, ih hrest]
    simp only [List.length_append, List.length_cons, List.length_nil]
    omega

theorem movedEvents_meets {oldIndices : List Nat} {index : Nat} {items : List Ptr}
    (hlen : oldIndices.length = items.length ∨ E .badIndex) :
    Meets (movedEvents oldIndices index items m) E fun m' =>
      m'.toPlaylists = m.toPlaylists ∧ m'.toItemHeap = m.toItemHeap := by
  unfold movedEvents
  refine Meets.foldlM _ (fun m₂ r hr h => ?_) ⟨rfl, rfl⟩
  split
  · split
    · exact h
    · rename_i hnone
      refine hlen.resolve_left fun hlen => ?_
      have hr' : (r.1, r.2) ∈ items.zipIdx := hr
      have hlt := (List.getElem?_eq_some_iff.mp (List.mk_mem_zipIdx_iff_getElem?.mp hr')).1
      rw [List.getElem?_eq_none_iff] at hnone
      omega
  · exact h

theorem refind_meets (hs : m.Sound) {x : Ptr} (hx : m.getCurrentItem = .ok x)
    (hsize : list.length ≤ vecMaxSize) (hperm : m.onMaster = true → list.Perm m.masterList)
    (hlists : m₂.toPlaylists = { (m.setActiveList list).toPlaylists with
      sortKey := m₂.sortKey
      sortType := m₂.sortType })
    (hR : R m₂.toItemHeap) :
    Meets (m₂.whenMaster fun m => m.setCurrentIndex (m.indexOf x)) E
      fun m' => Outcome m list m.shuffleList True R m' ∧
        (m.onMaster = true → m'.CurrentOk) := by
  have honM : m₂.onMaster = m.onMaster := by
    rw [hlists]
    exact onMaster_setActiveList
  unfold whenMaster
  rw [honM]
  cases hm : m.onMaster with
  | false =>
    simp only [Bool.false_eq_true, if_false, Meets.pure_iff]
    refine ⟨.ofExternal hs hm hsize ?_ hR, fun hmaster => by cases hmaster⟩
    rw [hlists, setActiveList_external (hs.activeList_external hm)]
  | true =>
    simp only [if_true]
    have hperm := hperm hm
    have hlists' : m₂.toPlaylists = { m.toPlaylists with
        masterList := list
        sortKey := m₂.sortKey
        sortType := m₂.sortType } := by
      rw [hlists, setActiveList_master (hs.activeList_master hm)]
    have hs₂ := rearranged_sound hs hperm hlists'
    have hmaster : m₂.masterList = list := by rw [hlists']
    refine (setCurrentItem_meets hs₂ (honM.trans hm) x).mono ?_
    rintro m' ⟨honly, hempty, hfound⟩
    rw [hmaster] at hempty hfound
    have hkeep : m.masterList ≠ [] → m'.CurrentOk ∧ m'.getCurrentItem = .ok x := by
      intro hne
      rcases current_cases hs hx with ⟨hnil, -⟩ | ⟨-, hnull, -, hmem, -⟩
      · exact absurd hnil hne
      · exact hfound hnull (hperm.mem_iff.mpr hmem)
    have hok : m'.CurrentOk := by
      rcases eq_or_ne m.masterList [] with hnil | hne
      · rw [hnil] at hperm
        exact hempty hperm.eq_nil
      · exact (hkeep hne).1
    refine ⟨.ofMaster hm ?_ (.inl ?_) hs₂ honly (fun _ => hok) (fun _ hne _ => ?_) ?_,
      fun _ => hok⟩
    · rw [hlists']
    · rw [hlists']
    · rw [hx]
      exact (hkeep hne).2
    · rw [honly.heap]
      exact hR

theorem moveItems_meets (hs : m.Sound) (hlen : E .lengthError)
    (hcur : m.CurrentValid ∨ E .badCurrent) {items : List Ptr} {index : Nat}
    (hnull : null ∉ items ∨ (m.onMaster = false ∧ E .badIndex))
    (hin : (nonNull items).Subperm m.active ∨ E .badIndex) (hR : R m.toItemHeap) :
    Meets (m.moveItems items index) E fun m' => ∃ list,
      Outcome m list m.shuffleList True R m' ∧ (null ∉ items → list.Perm m.active) ∧
        list.length + (nonNull items).length = m.active.length + items.length := by
  unfold moveItems
  simp only [Meets.bind_iff]
  refine (getCurrentItem_meets hs hcur).mono ?_
  intro currentItem hcurrent
  refine (eraseItems_meets items hs.active_size hin).mono ?_
  rintro l ⟨rfl, hsub⟩
  refine (insertItems_meets (.inr hlen) (by split <;> omega)).mono ?_
  rintro list ⟨hlist, hsize⟩
  have hperm : null ∉ items → list.Perm m.active := by
    intro hnull
    have hall : nonNull items = items := by
      refine List.filter_eq_self.mpr fun x hx => ?_
      have hne : x ≠ null := fun h => hnull (h ▸ hx)
      simpa using hne
    rw [hall] at hsub hlist
    rw [hlist]
    refine (insert_perm _ _ _).trans (List.perm_append_comm.trans ?_)
    exact List.subperm_append_diff_self_of_count_le fun x _ => hsub.count_le x
  have hpermMaster : m.onMaster = true → list.Perm m.masterList := by
    intro hm
    rw [← hs.active_eq hm]
    refine hperm (hnull.resolve_right ?_)
    rintro ⟨hext, -⟩
    rw [hm] at hext
    simp at hext
  refine (refind_meets hs hcurrent hsize hpermMaster rfl hR).mono ?_
  rintro m' ⟨hout, -⟩
  have hevents : (moveTarget m.toPlaylists items (m.checkIndex index)).2.length = items.length ∨
      E .badIndex := hnull.imp (fun h => moveTarget_length _ h _) (fun h => h.2)
  refine (movedEvents_meets hevents).mono ?_
  rintro m'' ⟨hlists, hheap⟩
  have hlength : list.length + (nonNull items).length = m.active.length + items.length := by
    have hdiff := (List.subperm_append_diff_self_of_count_le fun x _ => hsub.count_le x).length_eq
    rw [List.length_append] at hdiff
    rw [hlist, (insert_perm _ _ _).length_eq, List.length_append]
    omega
  refine ⟨list, hout.onItems hlists ?_, hperm, hlength⟩
  rw [hheap]
  exact hout.heap

/-! ## Sorting -/

/-- Sorting rearranges the active playlist, by whatever comparison or in random order. -/
theorem sortList_meets {key : PlaylistSortKey} (hdraw : key.inRange = true ∨ E .drawing) (hcomp : m.comparable ∨ E .badPointer)
    (type : PlaylistSortType) (draws : List Rand) :
    Meets (if key.inRange = true then
        if m.comparable then pure (stableSort (sortPredicate key type m.items) m.active)
        else .error .badPointer
      else shuffleIt m.active draws) E fun list => list.Perm m.active ∧
        (key.inRange = true → list = stableSort (sortPredicate key type m.items) m.active) := by
  split
  · split
    · exact ⟨stableSort_perm _ _, fun _ => rfl⟩
    · rename_i hnot
      exact hcomp.resolve_left hnot
  · rename_i hkey
    exact (shuffleIt_perm (hdraw.resolve_left hkey) _ _).mono
      fun _ hperm => ⟨hperm, fun h => absurd h hkey⟩

theorem sort_meets (hs : m.Sound) {key : PlaylistSortKey}
    (hdraw : key.inRange = true ∨ E .drawing) (hcomp : m.comparable ∨ E .badPointer)
    (hcur : m.CurrentValid ∨ E .badCurrent) {type : PlaylistSortType}
    {draws : List Rand} (hR : R m.toItemHeap) :
    Meets (m.sort key type draws) E fun r => ∃ list, list.Perm m.active ∧
      (key.inRange = true →
        r.1 = .noErr ∧ list = stableSort (sortPredicate key type m.items) m.active) ∧
      Outcome m list m.shuffleList True R r.2 := by
  unfold sort
  rw [Meets.bind_iff]
  refine (getCurrentItem_meets hs hcur).mono ?_
  intro currentItem hcurrent
  split
  · simp only [Meets.bind_iff]
    refine (sortList_meets hdraw hcomp type draws).mono ?_
    rintro list ⟨hperm, hlist⟩
    have hsize : list.length ≤ vecMaxSize := by
      rw [hperm.length_eq]
      exact hs.active_size
    have hpermMaster : m.onMaster = true → list.Perm m.masterList := by
      intro hm
      rw [← hs.active_eq hm]
      exact hperm
    rcases eq_or_ne currentItem null with rfl | hnull
    · simp only [ne_eq, not_true_eq_false, if_false]
      have hempty : m.masterList = [] := by
        rcases current_cases hs hcurrent with ⟨hnil, -⟩ | ⟨-, hnull, -⟩
        · exact hnil
        · exact absurd rfl hnull
      unfold whenMaster
      simp only [ite_self, Meets.pure_iff]
      refine ⟨list, hperm, fun hkey => ⟨trivial, hlist hkey⟩, ?_⟩
      cases hm : m.onMaster with
      | false =>
        refine .ofExternal hs hm hsize ?_ hR
        rw [setActiveList_external (hs.activeList_external hm)]
        rfl
      | true =>
        -- there is nothing to sort
        have hnil : list = [] := by
          have hmaster := hpermMaster hm
          rw [hempty] at hmaster
          exact hmaster.eq_nil
        have hsame : m.setActiveList list = m := by
          rw [setActiveList_master (hs.activeList_master hm), hnil, ← hempty]
        rw [hsame, hnil, ← hempty]
        have honly : OnlyCurrent { m with sortKey := key, sortType := type }
            ({ m with sortKey := key, sortType := type }.acceptEvent (.sorted key)) :=
          ⟨rfl, rfl, .inl rfl⟩
        exact .ofMaster hm (by rfl) (.inl (by rfl)) (by exact { hs with }) honly (fun hok => hok)
          (fun _ _ _ => rfl) hR
    · simp only [if_pos hnull]
      refine Meets.mono (refind_meets hs hcurrent hsize hpermMaster (by rfl) (by exact hR)) ?_
      exact fun m' hout =>
        ⟨list, hperm, fun hkey => ⟨rfl, hlist hkey⟩, hout.1.onItems rfl hout.1.heap⟩
  · rename_i hkey
    exact ⟨m.active, .refl _, fun h => absurd (.inl h) hkey, .nothing hs hR⟩

end PlaylistManager

end FreeAmp.Base
