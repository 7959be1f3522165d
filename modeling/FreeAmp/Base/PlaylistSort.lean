/-
  Base/PlaylistSort.lean --- the order `PlaylistManager::Sort` leaves.

  Each key gives a strict weak order on the items, and the ascending sort is a stable
  sort by it.  For the descending one `Sort` hands `not2` of the comparison to
  `stable_sort`, which says of two items with equal keys that each comes before the
  other: this is no order, for any key.
-/
import FreeAmp.Base.PlaylistMoves
import FreeAmp.Lib.StableSort

namespace FreeAmp.Base

open FreeAmp.Lib

/-! ## The orders of the keys -/

theorem text_isStrictWeakOrder : IsStrictWeakOrder Text fun s t => s < t :=
  isStrictWeakOrder_of_trichotomy List.lt_irrefl (fun _ _ _ => List.lt_trans)
    fun _ _ hst hts => List.le_antisymm hts hst

theorem uint32_isStrictWeakOrder : IsStrictWeakOrder UInt32 fun a b => a < b :=
  isStrictWeakOrder_of_trichotomy UInt32.lt_irrefl (fun _ _ _ => UInt32.lt_trans)
    fun _ _ hab hba => UInt32.le_antisymm (UInt32.not_lt.mp hba) (UInt32.not_lt.mp hab)

/-- An order on what is read of an element is one on the elements. -/
theorem isStrictWeakOrder_of_read {α β : Type} {r : β → β → Prop} {less : α → α → Bool}
    (hr : IsStrictWeakOrder β r) (read : α → β)
    (hless : ∀ a b, less a b = true ↔ r (read a) (read b)) :
    IsStrictWeakOrder α fun a b => less a b = true where
  irrefl a h := hr.irrefl _ ((hless a a).mp h)
  trans a b c hab hbc :=
    (hless a c).mpr (hr.trans _ _ _ ((hless a b).mp hab) ((hless b c).mp hbc))
  incomp_trans a b c := by
    simp only [hless]
    exact hr.incomp_trans _ _ _

/-- What a key that compares strings without case reads of an item. -/
theorem isStrictWeakOrder_of_text {less : PlaylistItem → PlaylistItem → Bool}
    (read : PlaylistItem → Text)
    (hless : ∀ item1 item2, less item1 item2 = lstrcmpiLt (read item1) (read item2)) :
    IsStrictWeakOrder PlaylistItem fun item1 item2 => less item1 item2 = true := by
  refine isStrictWeakOrder_of_read text_isStrictWeakOrder
    (fun item => (cStr (read item)).map toLower) fun item1 item2 => ?_
  rw [hless]
  exact decide_eq_true_iff

theorem less_isStrictWeakOrder {key : PlaylistSortKey} (hkey : key.inRange = true) :
    IsStrictWeakOrder PlaylistItem fun item1 item2 => key.less item1 item2 = true := by
  cases key with
  | artist => exact isStrictWeakOrder_of_text (·.metadata.artist) fun _ _ => rfl
  | album => exact isStrictWeakOrder_of_text (·.metadata.album) fun _ _ => rfl
  | title => exact isStrictWeakOrder_of_text (·.metadata.title) fun _ _ => rfl
  | comment => exact isStrictWeakOrder_of_text (·.metadata.comment) fun _ _ => rfl
  | genre => exact isStrictWeakOrder_of_text (·.metadata.genre) fun _ _ => rfl
  | fileName => exact isStrictWeakOrder_of_text (fileNameOf ·.url) fun _ _ => rfl
  | year =>
    exact isStrictWeakOrder_of_read uint32_isStrictWeakOrder (·.metadata.year)
      fun _ _ => decide_eq_true_iff
  | track =>
    exact isStrictWeakOrder_of_read uint32_isStrictWeakOrder (·.metadata.track)
      fun _ _ => decide_eq_true_iff
  | time =>
    exact isStrictWeakOrder_of_read uint32_isStrictWeakOrder (·.metadata.time)
      fun _ _ => decide_eq_true_iff
  | location =>
    exact isStrictWeakOrder_of_read text_isStrictWeakOrder (·.url)
      fun _ _ => decide_eq_true_iff
  | lastKey => cases hkey
  | random => cases hkey

/-! ## The order asked for -/

/-- The order asked for: the item at `p1` comes before the one at `p2`. -/
def keyOrder (key : PlaylistSortKey) (type : PlaylistSortType) (items : Ptr → PlaylistItem)
    (p1 p2 : Ptr) : Bool :=
  match type with
  | .ascending => key.less (items p1) (items p2)
  | .descending => key.less (items p2) (items p1)

/-- The comparator of `stable_sort` on a list without `NULL`. -/
def IsOrder (comp : Ptr → Ptr → Bool) : Prop :=
  IsStrictWeakOrder {p : Ptr // p ≠ null} fun p1 p2 => comp p1 p2 = true

section Comparator

variable {key : PlaylistSortKey} {items : Ptr → PlaylistItem}

theorem playlistItemSort_of_ne {p1 p2 : Ptr} (h1 : p1 ≠ null) (h2 : p2 ≠ null) :
    playlistItemSort key items p1 p2 = key.less (items p1) (items p2) :=
  if_pos ⟨h1, h2⟩

theorem ascending_isOrder (hkey : key.inRange = true) :
    IsOrder (sortPredicate key .ascending items) :=
  isStrictWeakOrder_of_read (less_isStrictWeakOrder hkey) (fun p => items p.1) fun p1 p2 => by
    unfold sortPredicate
    rw [playlistItemSort_of_ne p1.2 p2.2]

theorem descending_not_isOrder (hkey : key.inRange = true) :
    ¬ IsOrder (sortPredicate key .descending items) := by
  intro horder
  have hone : (1 : Ptr) ≠ null := Nat.one_ne_zero
  have hself : key.less (items 1) (items 1) = false :=
    Bool.eq_false_iff.mpr ((less_isStrictWeakOrder hkey).irrefl (items 1))
  refine horder.irrefl ⟨1, hone⟩ ?_
  unfold sortPredicate
  rw [playlistItemSort_of_ne hone hone, hself]
  rfl

theorem stableSort_ascending (hkey : key.inRange = true) {list : List Ptr}
    (hnull : null ∉ list) :
    SortedFrom (keyOrder key .ascending items) list
      (stableSort (sortPredicate key .ascending items) list) := by
  have hsame : stableSort (sortPredicate key .ascending items) list =
      list.mergeSort fun p1 p2 => !keyOrder key .ascending items p2 p1 := by
    unfold stableSort
    rw [← List.map_id (list.mergeSort _), ← List.map_id (list.mergeSort _)]
    have hmap := List.map_mergeSort (f := id) (l := list)
      (r := fun p1 p2 => !sortPredicate key .ascending items p2 p1)
      (s := fun p1 p2 => !keyOrder key .ascending items p2 p1) fun p1 h1 p2 h2 => by
        unfold sortPredicate
        rw [playlistItemSort_of_ne (ne_of_mem_of_not_mem h2 hnull)
          (ne_of_mem_of_not_mem h1 hnull)]
        rfl
    rw [hmap, List.map_id, List.map_id]
  rw [hsame]
  have horder : IsStrictWeakOrder Ptr fun p1 p2 => keyOrder key .ascending items p1 p2 = true :=
    isStrictWeakOrder_of_read (less_isStrictWeakOrder hkey) items fun _ _ => Iff.rfl
  exact sortedFrom_mergeSort _ list

end Comparator

/-! ## What `Sort` leaves -/

namespace PlaylistManager

variable {m m' : PlaylistManager}

theorem active_of_internalSetCurrentIndex {index : Nat}
    (h : m.internalSetCurrentIndex index = .ok m') : m'.active = m.active := by
  unfold internalSetCurrentIndex at h
  split at h
  · obtain ⟨item, -, hm'⟩ := bind_eq_ok.mp h
    cases hm'
    rfl
  · cases h
    rfl

theorem active_of_setCurrentIndex {index : Nat} (h : m.setCurrentIndex index = .ok m') :
    m'.active = m.active :=
  active_of_internalSetCurrentIndex h

theorem active_setActiveList (list : List Ptr) : (m.setActiveList list).active = list := by
  unfold setActiveList Playlists.setActive Playlists.active
  cases m.activeList with
  | master => rfl
  | external => rfl

/-- The sort by a key leaves the active list as `stable_sort` does. -/
theorem sort_active {key : PlaylistSortKey} {type : PlaylistSortType} {draws : List Rand}
    {err : Error} (hkey : key.inRange = true) (h : m.sort key type draws = .ok (err, m')) :
    err = .noErr ∧ m'.active = stableSort (sortPredicate key type m.items) m.active := by
  unfold sort at h
  obtain ⟨currentItem, -, h⟩ := bind_eq_ok.mp h
  rw [if_pos (.inl hkey), if_pos hkey] at h
  obtain ⟨list, hlist, h⟩ := bind_eq_ok.mp h
  obtain ⟨m₂, hm₂, h⟩ := bind_eq_ok.mp h
  cases h
  refine ⟨rfl, ?_⟩
  have hactive : m₂.active = list := by
    unfold whenMaster at hm₂
    split at hm₂
    · split at hm₂
      · rw [active_of_setCurrentIndex hm₂]
        exact active_setActiveList list
      · cases hm₂
        exact active_setActiveList list
    · cases hm₂
      exact active_setActiveList list
  split at hlist
  · cases hlist
    exact hactive
  · cases hlist

theorem sort_returns (hs : m.Sound) (hcur : m.CurrentValid) (hcomp : m.comparable)
    {key : PlaylistSortKey} (hkey : key.inRange = true) (type : PlaylistSortType)
    (draws : List Rand) : ∃ m', m.sort key type draws = .ok (.noErr, m') := by
  have hmeets : Meets (m.sort key type draws) (fun _ => False) _ :=
    sort_meets (R := fun _ => True) hs (.inl hkey) (.inl hcomp) (.inl hcur) trivial
  cases h : m.sort key type draws with
  | error f =>
    rw [h] at hmeets
    exact hmeets.elim
  | ok r =>
    obtain ⟨err, m'⟩ := r
    obtain ⟨rfl, -⟩ := sort_active hkey h
    exact ⟨m', rfl⟩

/-- What is asked of a sort: an order for a comparator and, of a list of items, the same
items stably sorted. -/
structure SortsBy (key : PlaylistSortKey) (type : PlaylistSortType) : Prop where
  comparator : ∀ items, IsOrder (sortPredicate key type items)
  sorted : ∀ m m' : PlaylistManager, ∀ draws err, null ∉ m.active →
    m.sort key type draws = .ok (err, m') →
    err = .noErr ∧ SortedFrom (keyOrder key type m.items) m.active m'.active
  returns : ∀ m : PlaylistManager, ∀ draws, m.Sound → m.CurrentValid → m.comparable →
    ∃ m', m.sort key type draws = .ok (.noErr, m')

/-- The ascending sorts are as asked, and only these. -/
theorem sort_sorts {key : PlaylistSortKey} (hkey : key.inRange = true)
    (type : PlaylistSortType) : SortsBy key type ↔ type = .ascending := by
  constructor
  · intro hsorts
    cases type with
    | ascending => rfl
    | descending =>
      exact absurd (hsorts.comparator fun _ => default) (descending_not_isOrder hkey)
  · rintro rfl
    refine ⟨fun items => ascending_isOrder hkey, ?_,
      fun m draws hs hcur hcomp => sort_returns hs hcur hcomp hkey _ draws⟩
    intro m m' draws err hnull h
    obtain ⟨rfl, hactive⟩ := sort_active hkey h
    rw [hactive]
    exact ⟨rfl, stableSort_ascending hkey hnull⟩

theorem sort_sorts_year : SortsBy .year .ascending ↔ PlaylistSortType.ascending = .ascending :=
  sort_sorts rfl .ascending

/-! ## Two items of one year -/

/-- A playlist of two items without metadata. -/
def twoItems : PlaylistManager :=
  { init false .repeatNone fun _ => ([], default) with
    masterList := [1, 2], shuffleList := [1, 2], current := 0 }

/-- The descending sort compares an item with itself, and puts the second of two items of
one year before the first. -/
theorem sort_reverses_equals :
    sortPredicate .year .descending twoItems.items 1 1 = true ∧
      (∃ m', twoItems.sort .year .descending [] = .ok (.noErr, m') ∧ m'.active = [2, 1]) ∧
      ¬ ∀ key : PlaylistSortKey, key.inRange = true → ∀ type, SortsBy key type := by
  refine ⟨by decide, ?_, fun h => ?_⟩
  · have hs : twoItems.Sound := by
      constructor <;> decide
    obtain ⟨m', hm'⟩ : ∃ m', twoItems.sort .year .descending [] = .ok (.noErr, m') :=
      sort_returns hs (by decide) (by decide) rfl .descending []
    refine ⟨m', hm', ?_⟩
    rw [(sort_active rfl hm').2]
    have hactive : twoItems.active = [1, 2] := rfl
    have hless : sortPredicate .year .descending twoItems.items 2 1 = true := by decide
    rw [hactive]
    simp [stableSort, List.mergeSort, List.MergeSort.Internal.splitInTwo, List.merge, hless]
  · exact descending_not_isOrder rfl ((h .year rfl .descending).comparator fun _ => default)

end PlaylistManager

end FreeAmp.Base
