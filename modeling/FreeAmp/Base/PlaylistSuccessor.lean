/-
  Base/PlaylistSuccessor.lean --- the item that follows the current one when it is removed.

  With the current item removed the nearest item behind it that is left is to be the
  current one, or the last item if none is left behind it.  Removing one item at a time
  does that, in whatever order.  A removal of several items at once leaves `m_current` as
  an index into the shorter list: with removed items in front of it that is too far
  behind.
-/
import FreeAmp.Base.PlaylistMoveItems

namespace FreeAmp.Base

open FreeAmp.Lib

/-! ## The item that is to follow -/

/-- The first item behind, or the last one in front. -/
def nextOf (front back : List Ptr) : Ptr := back.head?.getD (front.getLast?.getD null)

/-- Of the items that are not gone, the one that is to follow the item at the index. -/
def nextItem (list gone : List Ptr) (index : Nat) : Ptr :=
  nextOf ((list.take index).filter (· ∉ gone)) ((list.drop (index + 1)).filter (· ∉ gone))

namespace PlaylistManager

theorem itemAtOrLast_past {list : List Ptr} {index : Nat} (h : list.length ≤ index) :
    itemAtOrLast list index = list.getLast?.getD null := by
  rw [itemAtOrLast, Nat.min_eq_right (by omega), List.getD_eq_getElem?_getD,
    List.getLast?_eq_getElem?]

theorem itemAtOrLast_append (front back : List Ptr) :
    itemAtOrLast (front ++ back) front.length = nextOf front back := by
  cases back with
  | nil =>
    rw [List.append_nil, itemAtOrLast_past (Nat.le_refl _)]
    rfl
  | cons x back =>
    have hmin : min front.length ((front ++ x :: back).length - 1) = front.length := by
      rw [List.length_append, List.length_cons]
      omega
    rw [itemAtOrLast, hmin, List.getD_eq_getElem?_getD, List.getElem?_append_right (Nat.le_refl _),
      Nat.sub_self]
    rfl

theorem getLast?_filter_ne {list : List Ptr} {x y : Ptr} (h : list.getLast? = some x)
    (hne : x ≠ y) : (list.filter (· ≠ y)).getLast? = some x := by
  obtain ⟨front, rfl⟩ := List.getLast?_eq_some_iff.mp h
  rw [List.filter_append, List.filter_cons_of_pos (by simpa using hne), List.filter_nil,
    List.getLast?_concat]

theorem head?_filter_ne {list : List Ptr} {x y : Ptr} (h : list.head? = some x) (hne : x ≠ y) :
    (list.filter (· ≠ y)).head? = some x := by
  obtain ⟨back, rfl⟩ := List.head?_eq_some_iff.mp h
  rw [List.filter_cons_of_pos (by simpa using hne), List.head?_cons]

/-- One more item goes.  If it is the one that follows, the one at its place does, or the last
one; otherwise the same item does. -/
theorem nextOf_filter_ne {front back : List Ptr} {y : Ptr} {place : Nat}
    (hnodup : (front ++ back).Nodup) (hy : y ∈ front ++ back)
    (hplace : (front ++ back)[place]? = some (nextOf front back)) :
    nextOf (front.filter (· ≠ y)) (back.filter (· ≠ y)) =
      if nextOf front back = y then itemAtOrLast ((front ++ back).filter (· ≠ y)) place
      else nextOf front back := by
  cases back with
  | nil =>
    have hnil : front ≠ [] := List.ne_nil_of_mem (by simpa using hy)
    obtain ⟨x, hx⟩ : ∃ x, front.getLast? = some x :=
      ⟨_, List.getLast?_eq_some_getLast hnil⟩
    have hnext : nextOf front [] = x := by simp [nextOf, hx]
    rw [List.append_nil] at hnodup hplace ⊢
    split
    · rename_i heq
      -- the place of the last item is past the end without it
      obtain ⟨initial, rfl⟩ := List.getLast?_eq_some_iff.mp hx
      rw [hnext] at heq hplace
      subst heq
      have hlast := (List.getElem?_inj (by simp) hnodup (j := place)).mp
        (((List.getElem?_concat_length (l := initial) (a := x)).trans hplace.symm))
      have hlen : ((initial ++ [x]).filter (· ≠ x)).length ≤ place := by
        rw [List.filter_append, List.filter_cons_of_neg (by simp), List.filter_nil,
          List.append_nil, ← hlast]
        exact List.length_filter_le _ _
      rw [itemAtOrLast_past hlen]
      rfl
    · rename_i hne
      rw [hnext] at hne ⊢
      unfold nextOf
      rw [List.filter_nil, getLast?_filter_ne hx hne]
      rfl
  | cons x back =>
    have hnext : nextOf front (x :: back) = x := rfl
    rw [hnext] at hplace ⊢
    split
    · rename_i heq
      subst heq
      have hfront : front.filter (· ≠ x) = front := by
        refine List.filter_eq_self.mpr fun z hz => ?_
        have hne := (List.nodup_append.mp hnodup).2.2 z hz x List.mem_cons_self
        simpa using hne
      have hindex : place = front.length := by
        have hget : (front ++ x :: back)[front.length]? = some x := by
          rw [List.getElem?_append_right (Nat.le_refl _), Nat.sub_self]
          rfl
        have hlt : front.length < (front ++ x :: back).length := by simp
        exact ((List.getElem?_inj hlt hnodup).mp (hget.trans hplace.symm)).symm
      rw [List.filter_append, hfront, hindex, itemAtOrLast_append]
    · rename_i hne
      have hhead : ((x :: back).filter (· ≠ y)).head? = some x :=
        head?_filter_ne rfl hne
      unfold nextOf
      rw [hhead]
      rfl

variable {E : Fault → Prop} {R : ItemHeap → Prop} {m m' : PlaylistManager} {c : Call}
  {gone : List Ptr}

/-! ## Items that are alive -/

theorem releaseItem_live {h : ItemHeap} {p : Ptr} (hlive : h.live p) :
    Meets (h.releaseItem p) E fun h' => ∀ q, q ≠ p → h.live q → h'.live q := by
  unfold ItemHeap.releaseItem ItemHeap.getState
  rw [if_pos hlive, Meets.bind_iff, Meets.ok_iff]
  split
  · exact fun q _ hq => hq
  · intro q hne hq
    refine ⟨hq.1, fun hmem => ?_⟩
    rcases List.mem_append.mp hmem with hold | hlast
    · exact hq.2 hold
    · exact hne (List.mem_singleton.mp hlast)

/-- Distinct items that are alive can be released one after the other. -/
theorem release_live : ∀ {items : List Ptr} {h : ItemHeap}, items.Nodup →
    (∀ p ∈ items, h.live p) →
    Meets (items.foldlM ItemHeap.releaseItem h) E fun _ => True := by
  intro items
  induction items with
  | nil => exact fun _ _ => trivial
  | cons p items ih =>
    intro h hnodup hlive
    obtain ⟨hnew, hnodup⟩ := List.nodup_cons.mp hnodup
    rw [List.foldlM_cons, Meets.bind_iff]
    refine (releaseItem_live (hlive p List.mem_cons_self)).mono fun h' hrest => ?_
    refine ih hnodup fun q hq => hrest q ?_ (hlive q (List.mem_cons_of_mem _ hq))
    rintro rfl
    exact hnew hq

/-! ## The removals -/

/-- The items that a removal takes away. -/
def removedItems (m : PlaylistManager) : Call → List Ptr
  | .removeItem index => m.masterList[index]?.toList
  | .removeRange index count => (m.masterList.drop index).take count
  | .removeItems items => items
  | _ => []

/-- A removal with an index in range, a range in the list, or distinct members of the list. -/
def ValidRemoval (m : PlaylistManager) : Call → Prop
  | .removeItem index => index < m.masterList.length
  | .removeRange index count =>
    index < m.masterList.length ∧ index + count ≤ m.masterList.length
  | .removeItems items => Members m items
  | _ => False

/-- What a removal leaves: the other items, and an item at the old index when the current one
has been removed. -/
def Removed (m : PlaylistManager) (gone : List Ptr) (m' : PlaylistManager) : Prop :=
  m'.masterList = m.masterList.filter (· ∉ gone) ∧
    ∀ x, m.getCurrentItem = .ok x → x ∈ gone →
      m'.getCurrentItem = .ok (itemAtOrLast (m.masterList.filter (· ∉ gone)) m.current)

theorem removed_of_outcome {shuffled : List Ptr} {keeps : Prop} {list : List Ptr}
    (hm : m.onMaster = true) (hlist : list = m.masterList.filter (· ∉ gone))
    (hout : Outcome m list shuffled keeps R m') (hreplaced : Dropped.Replaced m list m') :
    Removed m gone m' := by
  refine ⟨?_, fun x hx hgone => ?_⟩
  · rw [hout.master hm]
    exact hlist
  · rw [← hlist]
    refine hreplaced hm x hx ?_
    rw [hlist, List.mem_filter]
    simp [hgone]

theorem range_eq_filter {list : List Ptr} (hnodup : list.Nodup) (index count : Nat) :
    list.take index ++ list.drop (index + count) =
      list.filter (· ∉ (list.drop index).take count) := by
  have hsplit : list = list.take index ++ ((list.drop index).take count ++
      list.drop (index + count)) := by
    rw [← List.drop_drop, List.take_append_drop, List.take_append_drop]
  have hparts := hnodup
  rw [hsplit, List.nodup_append] at hparts
  obtain ⟨-, hrest, hfront⟩ := hparts
  rw [List.nodup_append] at hrest
  obtain ⟨-, -, hback⟩ := hrest
  have hkeepFront : (list.take index).filter (· ∉ (list.drop index).take count) =
      list.take index := by
    refine List.filter_eq_self.mpr fun x hx => ?_
    simp only [decide_eq_true_eq]
    intro hmem
    exact hfront x hx x (List.mem_append_left _ hmem) rfl
  have hdrop : ((list.drop index).take count).filter (· ∉ (list.drop index).take count) = [] := by
    refine List.filter_eq_nil_iff.mpr fun x hx => ?_
    simp [hx]
  have hkeepBack : (list.drop (index + count)).filter (· ∉ (list.drop index).take count) =
      list.drop (index + count) := by
    refine List.filter_eq_self.mpr fun x hx => ?_
    simp only [decide_eq_true_eq]
    intro hmem
    exact hback x hmem x hx rfl
  have hfilter := congrArg (List.filter (· ∉ (list.drop index).take count)) hsplit
  rw [List.filter_append, List.filter_append, hkeepFront, hdrop, hkeepBack, List.nil_append]
    at hfilter
  exact hfilter.symm

theorem snd_meets {r : Checked (Error × PlaylistManager)} {Q : PlaylistManager → Prop}
    (h : Meets r E fun r => Q r.2) : Meets (Prod.snd <$> r) E Q := by
  cases r with
  | ok r => exact h
  | error f => exact h

/-- A valid removal of live items returns and leaves that. -/
theorem removal_meets (hs : m.Sound) (hm : m.onMaster = true) (hcur : m.CurrentValid)
    (hc : ValidRemoval m c) (hlive : ∀ p ∈ removedItems m c, m.toItemHeap.live p) :
    Meets (m.call c) (fun _ => False) (Removed m (removedItems m c)) := by
  have hact := hs.active_eq hm
  cases c with
  | removeItem index =>
    have hlt : index < m.masterList.length := hc
    have hitem := List.getElem?_eq_getElem hlt
    have hgone : removedItems m (.removeItem index) = [m.masterList[index]] := by
      show m.masterList[index]?.toList = _
      rw [hitem]
      rfl
    rw [hgone] at hlive ⊢
    have hitem' : m.active[index]? = some m.masterList[index] := by
      rw [hact]
      exact hitem
    have hrelease : Meets (m.toItemHeap.releaseItem m.masterList[index]) (fun _ => False)
        fun _ => True :=
      (releaseItem_live (hlive _ List.mem_cons_self)).mono fun _ _ => trivial
    refine snd_meets ((removeItem_meets hs (.inl hcur) hitem' hrelease).mono fun r h => ?_)
    refine removed_of_outcome hm ?_ h.2.2 h.2.1
    rw [hact, eraseIdx_eq_erase hs.nodup hitem, hs.nodup.erase_eq_filter]
    refine List.filter_congr fun x _ => ?_
    by_cases hx : x = m.masterList[index] <;> simp [hx]
  | removeRange index count =>
    have hlt : index < m.active.length := by
      rw [hact]
      exact hc.1
    have hin : index + count ≤ m.active.length := by
      rw [hact]
      exact hc.2
    have hnodup : ((m.masterList.drop index).take count).Nodup :=
      hs.nodup.sublist ((List.take_sublist _ _).trans (List.drop_sublist _ _))
    have hrelease : Meets (((m.active.drop index).take count).foldlM ItemHeap.releaseItem
        m.toItemHeap) (fun _ => False) fun _ => True := by
      rw [hact]
      exact release_live hnodup hlive
    refine snd_meets ((removeRange_meets hs (.inl hcur) hlt (.inl hin) hrelease).mono
      fun r h => ?_)
    refine removed_of_outcome hm ?_ h.2.2.2 h.2.2.1
    rw [hact]
    exact range_eq_filter hs.nodup index count
  | removeItems items =>
    have hnull := nonNull_eq_self (Members.nonnull hc)
    have hrelease : Meets ((nonNull items).foldlM ItemHeap.releaseItem m.toItemHeap)
        (fun _ => False) fun _ => True := by
      rw [hnull]
      exact release_live (Members.nodup hc) hlive
    refine snd_meets ((removeItems_meets hs (.inl hcur) (.inl (Members.subperm hc))
      hrelease).mono fun r h => ?_)
    refine removed_of_outcome hm ?_ h.2.2.2 h.2.2.1
    rw [hact, hnull]
    exact hs.nodup.sdiff_eq_filter
  | _ => exact hc.elim

/-! ## One item at a time -/

def removeThis (m : PlaylistManager) (item : Ptr) : Checked PlaylistManager :=
  Prod.snd <$> m.removeItem (m.indexOf item)

/-- The items are removed one at a time, from the last position to the first. -/
def removeOneByOne (m : PlaylistManager) (gone : List Ptr) : Checked PlaylistManager :=
  (m.masterList.filter (· ∈ gone)).reverse.foldlM removeThis m

/-- The current item is the one that is to follow, in a master list of two parts. -/
structure AtNext (m : PlaylistManager) (front back : List Ptr) : Prop where
  sound : m.Sound
  onMaster : m.onMaster = true
  noShuffle : m.shuffle = false
  list : m.masterList = front ++ back
  current : m.getCurrentItem = .ok (nextOf front back)

theorem removeThis_meets {front back : List Ptr} (h : AtNext m front back) {y : Ptr}
    (hy : y ∈ front ++ back) (hlive : m.toItemHeap.live y) :
    Meets (m.removeThis y) (fun _ => False) fun m' =>
      AtNext m' (front.filter (· ≠ y)) (back.filter (· ≠ y)) ∧
        ∀ q, q ≠ y → m.toItemHeap.live q → m'.toItemHeap.live q := by
  have hs := h.sound
  have hact := hs.active_eq h.onMaster
  have hmem : y ∈ m.masterList := by
    rw [h.list]
    exact hy
  have hne : m.masterList ≠ [] := List.ne_nil_of_mem hmem
  have hnull : y ≠ null := fun heq => hs.nonnull (heq ▸ hmem)
  have hok := (Playlists.getCurrentItem_ok_iff hs hne).mp ⟨_, h.current⟩
  have hplay := (Playlists.getCurrentItem_eq_iff hs hne).mp h.current
  unfold Playlists.playing at hplay
  rw [h.noShuffle, if_neg Bool.false_ne_true] at hplay
  have hitem : m.active[m.indexOf y]? = some y := by
    unfold Playlists.indexOf
    rw [hact]
    exact getElem?_internalIndexOf hs.size hnull hmem
  unfold removeThis
  refine snd_meets ((removeItem_meets hs (.inl hok.2) hitem (releaseItem_live hlive)).mono ?_)
  rintro r ⟨-, hreplaced, hout⟩
  have hlist : m.active.eraseIdx (m.indexOf y) = front.filter (· ≠ y) ++ back.filter (· ≠ y) := by
    rw [hact, eraseIdx_eq_erase hs.nodup (hact ▸ hitem), hs.nodup.erase_eq_filter, h.list,
      List.filter_append]
    congr 1 <;> exact List.filter_congr fun x _ => by by_cases hx : x = y <;> simp [hx]
  have hnodup := hs.nodup
  rw [h.list] at hplay hnodup
  refine ⟨⟨hout.sound, ?_, ?_, ?_, ?_⟩, hout.heap⟩
  · rw [hout.onMaster]
    exact h.onMaster
  · rw [hout.master h.onMaster]
    exact h.noShuffle
  · rw [hout.master h.onMaster]
    exact hlist
  · rw [nextOf_filter_ne hnodup hy hplay]
    split
    · rename_i heq
      have hgone : nextOf front back ∉ m.active.eraseIdx (m.indexOf y) := by
        rw [hlist, ← List.filter_append, heq]
        simp
      rw [hreplaced h.onMaster _ h.current hgone, hlist, List.filter_append]
    · rename_i hother
      rw [hout.item hok hne ?_, h.current]
      intro hsame
      exact hother (Except.ok.inj (h.current.symm.trans hsame))

theorem removeEach_meets : ∀ {ys : List Ptr} {m : PlaylistManager} {front back : List Ptr},
    AtNext m front back → ys.Nodup → (∀ y ∈ ys, y ∈ front ++ back) →
    (∀ y ∈ ys, m.toItemHeap.live y) →
    Meets (ys.foldlM removeThis m) (fun _ => False) fun m' =>
      AtNext m' (front.filter (· ∉ ys)) (back.filter (· ∉ ys)) := by
  intro ys
  induction ys with
  | nil =>
    intro m front back h _ _ _
    simpa using h
  | cons y ys ih =>
    intro m front back h hnodup hmem hlive
    obtain ⟨hnew, hnodup⟩ := List.nodup_cons.mp hnodup
    rw [List.foldlM_cons, Meets.bind_iff]
    refine (removeThis_meets h (hmem y List.mem_cons_self)
      (hlive y List.mem_cons_self)).mono ?_
    rintro m₁ ⟨h₁, hlive₁⟩
    have hne : ∀ z ∈ ys, z ≠ y := by
      rintro z hz rfl
      exact hnew hz
    refine (ih h₁ hnodup (fun z hz => ?_) fun z hz => ?_).mono fun m₂ h₂ => ?_
    · rw [← List.filter_append, List.mem_filter]
      exact ⟨hmem z (List.mem_cons_of_mem _ hz), by simpa using hne z hz⟩
    · exact hlive₁ z (hne z hz) (hlive z (List.mem_cons_of_mem _ hz))
    · have hboth : ∀ l : List Ptr, (l.filter (· ≠ y)).filter (· ∉ ys) =
          l.filter (· ∉ y :: ys) := by
        intro l
        rw [List.filter_filter]
        refine List.filter_congr fun x _ => ?_
        by_cases hx : x = y <;> simp [hx]
      rwa [hboth, hboth] at h₂

/-! ## All at once and one at a time -/

/-- An index too far behind finds the same item only when there are not two behind. -/
theorem itemAtOrLast_eq_nextOf_iff {front back : List Ptr} {index : Nat}
    (hnodup : (front ++ back).Nodup) (hle : front.length ≤ index) :
    itemAtOrLast (front ++ back) index = nextOf front back ↔
      front.length = index ∨ back.length ≤ 1 := by
  have hlen : (front ++ back).length = front.length + back.length := List.length_append
  rw [← itemAtOrLast_append]
  constructor
  · intro heq
    by_contra hnot
    have hne : front ++ back ≠ [] := by
      intro hnil
      rw [hnil] at hlen
      simp only [List.length_nil] at hlen
      omega
    have hat := getElem?_min hne index
    have hfront := getElem?_min hne front.length
    rw [← heq, ← hat] at hfront
    have hlt : min front.length ((front ++ back).length - 1) < (front ++ back).length := by omega
    have hplace := (List.getElem?_inj hlt hnodup).mp hfront
    omega
  · rintro (heq | hfew)
    · rw [heq]
    · unfold itemAtOrLast
      have hmin : min index ((front ++ back).length - 1) =
          min front.length ((front ++ back).length - 1) := by omega
      rw [hmin]

theorem removedItems_members (hs : m.Sound) (hm : m.onMaster = true) (hc : ValidRemoval m c) :
    (removedItems m c).Nodup ∧ ∀ x ∈ removedItems m c, x ∈ m.masterList := by
  have of_sublist : ∀ {l : List Ptr}, l.Sublist m.masterList →
      l.Nodup ∧ ∀ x ∈ l, x ∈ m.masterList :=
    fun hsub => ⟨hs.nodup.sublist hsub, fun x hx => hsub.subset hx⟩
  cases c with
  | removeItem index =>
    refine ⟨?_, fun x hx => ?_⟩
    · show m.masterList[index]?.toList.Nodup
      cases m.masterList[index]? with
      | none => exact List.nodup_nil
      | some x => exact List.nodup_singleton x
    · exact List.mem_of_getElem? (Option.mem_toList.mp hx)
  | removeRange index count =>
    exact of_sublist ((List.take_sublist _ _).trans (List.drop_sublist _ _))
  | removeItems items =>
    refine ⟨Members.nodup hc, fun x hx => ?_⟩
    rw [← hs.active_eq hm]
    exact Members.sub hc x hx
  | _ => exact hc.elim

/-- The removal makes the item the current one that is to follow, and leaves what the same
removals one at a time leave. -/
def RemovesAsOneByOne (m : PlaylistManager) (c : Call) : Prop :=
  ∃ m' m₁, m.call c = .ok m' ∧
    m'.getCurrentItem = .ok (nextItem m.masterList (removedItems m c) m.current) ∧
    m.removeOneByOne (removedItems m c) = .ok m₁ ∧
    m₁.masterList = m'.masterList ∧ m₁.getCurrentItem = m'.getCurrentItem

/-- What is left of a list behind its current item, which goes. -/
theorem filter_drop_current {list removed : List Ptr} {n : Nat} {x : Ptr}
    (hdrop : list.drop n = x :: list.drop (n + 1)) (hgone : x ∈ removed) :
    (list.drop n).filter (· ∉ removed) = (list.drop (n + 1)).filter (· ∉ removed) := by
  rw [hdrop, List.filter_cons_of_neg (by simpa using hgone)]

theorem filter_around_current {list removed : List Ptr} {n : Nat} {x : Ptr}
    (hdrop : list.drop n = x :: list.drop (n + 1)) (hgone : x ∈ removed) :
    list.filter (· ∉ removed) =
      (list.take n).filter (· ∉ removed) ++ (list.drop (n + 1)).filter (· ∉ removed) := by
  rw [← filter_drop_current hdrop hgone, ← List.filter_append, List.take_append_drop]

theorem removeOneByOne_meets (hs : m.Sound) (hm : m.onMaster = true) (hoff : m.shuffle = false)
    (hsub : ∀ y ∈ removedItems m c, y ∈ m.masterList)
    (hlive : ∀ p ∈ removedItems m c, m.toItemHeap.live p) {x : Ptr}
    (hx : m.getCurrentItem = .ok x) (hgone : x ∈ removedItems m c)
    (hdrop : m.masterList.drop m.current = x :: m.masterList.drop (m.current + 1)) :
    Meets (m.removeOneByOne (removedItems m c)) (fun _ => False) fun m₁ =>
      m₁.masterList = m.masterList.filter (· ∉ removedItems m c) ∧ m₁.getCurrentItem =
        .ok (nextItem m.masterList (removedItems m c) m.current) := by
  have hstart : AtNext m (m.masterList.take m.current) (m.masterList.drop m.current) := by
    refine ⟨hs, hm, hoff, (List.take_append_drop _ _).symm, ?_⟩
    rw [hx, hdrop]
    rfl
  have hmem : ∀ y ∈ (m.masterList.filter (· ∈ removedItems m c)).reverse,
      y ∈ removedItems m c := by
    intro y hy
    simpa using (List.mem_filter.mp (List.mem_reverse.mp hy)).2
  unfold removeOneByOne
  refine (removeEach_meets hstart (List.nodup_reverse.mpr (hs.nodup.filter _)) (fun y hy => ?_)
    fun y hy => hlive y (hmem y hy)).mono fun m₁ h₁ => ?_
  · rw [List.take_append_drop]
    exact hsub y (hmem y hy)
  · have hsame : ∀ l : List Ptr, (∀ y ∈ l, y ∈ m.masterList) →
        l.filter (· ∉ (m.masterList.filter (· ∈ removedItems m c)).reverse) =
          l.filter (· ∉ removedItems m c) := by
      intro l hl
      refine List.filter_congr fun y hy => ?_
      simp [hl y hy]
    have hlist := h₁.list
    have hcurrent := h₁.current
    rw [hsame _ fun y hy => List.mem_of_mem_take hy, hsame _ fun y hy => List.mem_of_mem_drop hy,
      filter_drop_current hdrop hgone] at hlist hcurrent
    exact ⟨hlist.trans (filter_around_current hdrop hgone).symm, hcurrent⟩

/-- A removal that includes the current item does that exactly when none of the items in front
of it are removed, or at most one of those behind it is left. -/
theorem removal_asOneByOne_iff (hs : m.Sound) (hm : m.onMaster = true)
    (hoff : m.shuffle = false) (hc : ValidRemoval m c)
    (hlive : ∀ p ∈ removedItems m c, m.toItemHeap.live p) {x : Ptr}
    (hx : m.getCurrentItem = .ok x) (hgone : x ∈ removedItems m c) :
    RemovesAsOneByOne m c ↔
      (∀ y ∈ m.masterList.take m.current, y ∉ removedItems m c) ∨
        ((m.masterList.drop (m.current + 1)).filter (· ∉ removedItems m c)).length ≤ 1 := by
  obtain ⟨hnodup, hsub⟩ := removedItems_members hs hm hc
  have hne : m.masterList ≠ [] := List.ne_nil_of_mem (hsub x hgone)
  have hok := (Playlists.getCurrentItem_ok_iff hs hne).mp ⟨x, hx⟩
  have hplay := (Playlists.getCurrentItem_eq_iff hs hne).mp hx
  unfold Playlists.playing at hplay
  rw [hoff, if_neg Bool.false_ne_true] at hplay
  obtain ⟨hlt, hget⟩ := List.getElem?_eq_some_iff.mp hplay
  have hdrop : m.masterList.drop m.current = x :: m.masterList.drop (m.current + 1) := by
    rw [List.drop_eq_getElem_cons hlt, hget]
  have hleft := filter_around_current hdrop hgone
  have hfront : ((m.masterList.take m.current).filter (· ∉ removedItems m c)).length =
      m.current ↔ ∀ y ∈ m.masterList.take m.current, y ∉ removedItems m c := by
    have htake : (m.masterList.take m.current).length = m.current := by
      rw [List.length_take, Nat.min_eq_left (Nat.le_of_lt hlt)]
    have hall := List.length_filter_eq_length_iff (l := m.masterList.take m.current)
      (p := fun y => decide (y ∉ removedItems m c))
    rw [htake] at hall
    simpa using hall
  have hnodupLeft := hs.nodup.filter fun y => decide (y ∉ removedItems m c)
  rw [hleft] at hnodupLeft
  have hle : ((m.masterList.take m.current).filter (· ∉ removedItems m c)).length ≤
      m.current := by
    refine Nat.le_trans (List.length_filter_le _ _) ?_
    rw [List.length_take]
    exact Nat.min_le_left _ _
  rw [← hfront, ← itemAtOrLast_eq_nextOf_iff hnodupLeft hle, ← hleft]
  have hone := removeOneByOne_meets hs hm hoff hsub hlive hx hgone hdrop
  have hmeets := removal_meets hs hm hok.2 hc hlive
  cases hcall : m.call c with
  | error f => exact (hmeets.of_error hcall).elim
  | ok m' =>
    obtain ⟨hlist, hcurrent⟩ := hmeets.of_ok hcall
    have hcurrent := hcurrent x hx hgone
    constructor
    · rintro ⟨m'', m₁, hm'', hnext, -⟩
      obtain rfl := Except.ok.inj (hcall.symm.trans hm'')
      exact Except.ok.inj (hcurrent.symm.trans hnext)
    · intro heq
      cases hone' : m.removeOneByOne (removedItems m c) with
      | error f => exact (hone.of_error hone').elim
      | ok m₁ =>
        obtain ⟨hlist₁, hcurrent₁⟩ := hone.of_ok hone'
        have hnext : m'.getCurrentItem =
            .ok (nextItem m.masterList (removedItems m c) m.current) := by
          rw [hcurrent, heq]
          rfl
        exact ⟨m', m₁, hcall, hnext, hone', hlist₁.trans hlist.symm,
          hcurrent₁.trans hnext.symm⟩

/-- Five items, of which the third is the current one. -/
def thirdCurrent : List Call := fiveItems ++ [.setCurrentIndex 2]

theorem thirdCurrent_run : ∃ m : PlaylistManager,
    Run (Guarded Proper (Steps next)) (init false .repeatNone fun _ => default) thirdCurrent m ∧
      m.onMaster = true ∧ m.shuffle = false ∧ m.masterList = [1, 2, 3, 4, 5] ∧ m.current = 2 ∧
      m.freed = [] ∧ m.getCurrentItem = .ok 3 :=
  ⟨_, .cons ⟨by decide, rfl⟩ <| .cons ⟨by decide, rfl⟩ <| .cons ⟨by decide, rfl⟩ <|
    .cons ⟨by decide, rfl⟩ <| .cons ⟨by decide, rfl⟩ <| .cons ⟨by decide, rfl⟩ <| .refl _,
    rfl, rfl, rfl, rfl, rfl, rfl⟩

theorem live_of_ne {p : Ptr} (hfreed : m.freed = []) (hne : p ≠ null) : m.toItemHeap.live p := by
  refine ⟨hne, ?_⟩
  rw [hfreed]
  exact List.not_mem_nil

/-- The third item and the fourth are removed, and the fifth follows. -/
theorem removal_asOneByOne_third : ∃ m : PlaylistManager,
    Run (Guarded Proper (Steps next)) (init false .repeatNone fun _ => default) thirdCurrent m ∧
      m.getCurrentItem = .ok 3 ∧ RemovesAsOneByOne m (.removeRange 2 2) := by
  obtain ⟨m, hrun, hm, hoff, hlist, hcur, hfreed, hitem⟩ := thirdCurrent_run
  have hgone : removedItems m (.removeRange 2 2) = [3, 4] := by
    show (m.masterList.drop 2).take 2 = _
    rw [hlist]
    rfl
  have hc : ValidRemoval m (.removeRange 2 2) := by
    show 2 < m.masterList.length ∧ 2 + 2 ≤ m.masterList.length
    rw [hlist]
    decide
  have hlive : ∀ p ∈ removedItems m (.removeRange 2 2), m.toItemHeap.live p := by
    intro p hp
    rw [hgone] at hp
    refine live_of_ne hfreed ?_
    rintro rfl
    exact absurd hp (by decide)
  refine ⟨m, hrun, hitem, (removal_asOneByOne_iff (Reachable.sound ⟨_, _, _, _, hrun⟩) hm hoff
    hc hlive hitem ?_).mpr (.inl ?_)⟩
  · rw [hgone]
    decide
  · rw [hgone, hcur, hlist]
    decide

/-- The second item and the third are removed: the fourth is to follow, and the fifth does. -/
theorem removeRange_skips_item : ∃ m : PlaylistManager,
    Run (Guarded Proper (Steps next)) (init false .repeatNone fun _ => default) thirdCurrent m ∧
      m.onMaster = true ∧ m.shuffle = false ∧ m.masterList = [1, 2, 3, 4, 5] ∧
      ValidRemoval m (.removeRange 1 2) ∧ m.getCurrentItem = .ok 3 ∧
      3 ∈ removedItems m (.removeRange 1 2) ∧ ¬ RemovesAsOneByOne m (.removeRange 1 2) := by
  obtain ⟨m, hrun, hm, hoff, hlist, hcur, hfreed, hitem⟩ := thirdCurrent_run
  have hs : m.Sound := Reachable.sound ⟨_, _, _, _, hrun⟩
  have hgone : removedItems m (.removeRange 1 2) = [2, 3] := by
    show (m.masterList.drop 1).take 2 = _
    rw [hlist]
    rfl
  have hc : ValidRemoval m (.removeRange 1 2) := by
    show 1 < m.masterList.length ∧ 1 + 2 ≤ m.masterList.length
    rw [hlist]
    decide
  have hmem : 3 ∈ removedItems m (.removeRange 1 2) := by
    rw [hgone]
    decide
  have hlive : ∀ p ∈ removedItems m (.removeRange 1 2), m.toItemHeap.live p := by
    intro p hp
    rw [hgone] at hp
    refine live_of_ne hfreed ?_
    rintro rfl
    exact absurd hp (by decide)
  refine ⟨m, hrun, hm, hoff, hlist, hc, hitem, hmem, ?_⟩
  rintro ⟨m', m₁, hcall, hnext, -⟩
  have hcur' : m.CurrentValid := by
    intro _
    rw [hcur, hlist]
    decide
  have hremoved := ((removal_meets hs hm hcur' hc hlive).of_ok hcall).2 3 hitem hmem
  rw [hnext, hgone, hcur, hlist] at hremoved
  exact absurd (Except.ok.inj hremoved) (by decide)

end PlaylistManager

end FreeAmp.Base
