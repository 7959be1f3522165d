/-
  Base/PlaylistInvariant.lean --- what every call does to the lists, and the invariant.

  `Effect m c m'` collects what a call `c` that takes `m` to `m'` is known to do to the
  lists: they stay sound; a valid current index stays valid if `KeepsIndex m c`; the
  current item stays if `KeepsItem m c`; the master playlist is left alone while the
  external one is active.  `call_meets` proves it for every call, one case for each,
  from the lemma about the function.

  The invariant of the manager is `Sound` with `CurrentOk`.  It holds in every run
  whose steps meet `KeepsIndex`.  That is no restriction while the master playlist is
  active.
-/
import FreeAmp.Base.PlaylistModes

namespace FreeAmp.Base

open FreeAmp.Lib

/-! ## Steps on the items -/

namespace ItemHeap

variable {E : Fault → Prop}

theorem getState_meets (hE : E .badPointer) (h : ItemHeap) (p : Ptr) :
    Meets (h.getState p) E fun _ => True := by
  unfold getState
  split
  · trivial
  · exact hE

theorem releaseItem_meets (hE : E .badPointer) (h : ItemHeap) (p : Ptr) :
    Meets (h.releaseItem p) E fun _ => True := by
  unfold releaseItem
  rw [Meets.bind_iff]
  refine (getState_meets hE h p).mono fun state _ => ?_
  split <;> trivial

theorem release_meets (hE : E .badPointer) (h : ItemHeap) (list : List Ptr) :
    Meets (list.foldlM releaseItem h) E fun _ => True :=
  Meets.foldlM list (fun h p _ _ => releaseItem_meets hE h p) trivial

theorem releaseItems_meets (hE : E .badPointer) (h : ItemHeap) (list : List Ptr) :
    Meets (h.releaseItems list) E fun _ => True := by
  refine Meets.foldlM list (fun h p _ _ => ?_) trivial
  split
  · exact releaseItem_meets hE h p
  · trivial

theorem retrieveMetaData_meets (hE : E .badPointer) (h : ItemHeap) (list : List Ptr) :
    Meets (h.retrieveMetaData list) E fun _ => True := by
  unfold retrieveMetaData
  rw [Meets.bind_iff]
  refine Meets.mono (Meets.foldlM (P := fun _ => True) list (fun h p _ _ => ?_) trivial)
    fun _ _ => trivial
  unfold markRetrieving
  split
  · rw [Meets.bind_iff]
    refine (getState_meets hE h p).mono fun state _ => ?_
    split <;> trivial
  · trivial

theorem retrieveMetaDataNow_meets (hE : E .badPointer) (h : ItemHeap) (p : Ptr)
    (found : MetaData) : Meets (h.retrieveMetaDataNow p found) E fun _ => True := by
  unfold retrieveMetaDataNow
  split
  · split
    · trivial
    · exact hE
  · trivial

end ItemHeap

namespace PlaylistManager

variable {E : Fault → Prop} {R : ItemHeap → Prop} {m m' m₂ : PlaylistManager} {c : Call}
  {list shuffled : List Ptr} {keeps : Prop}

/-! ## Which calls are considered -/

/-- The items are distinct members of the active playlist. -/
structure Members (m : PlaylistManager) (items : List Ptr) : Prop where
  nodup : items.Nodup
  nonnull : null ∉ items
  sub : ∀ p ∈ items, p ∈ m.active

instance (m : PlaylistManager) (items : List Ptr) : Decidable (Members m items) :=
  decidable_of_iff (items.Nodup ∧ null ∉ items ∧ ∀ p ∈ items, p ∈ m.active)
    ⟨fun h => ⟨h.1, h.2.1, h.2.2⟩, fun h => ⟨h.nodup, h.nonnull, h.sub⟩⟩

theorem Members.subperm {items : List Ptr} (h : Members m items) :
    (nonNull items).Subperm m.active := by
  have hsub : (nonNull items).Sublist items := List.filter_sublist
  exact List.subperm_of_subset (h.nodup.sublist hsub) fun p hp => h.sub p (hsub.subset hp)

/-- The arguments are well formed for a call while the master playlist is active: items that
are added are new, items that are removed or moved are in the list, and an index that is not
checked is in range. -/
def WellFormed (m : PlaylistManager) : Call → Prop
  | .addItem item _ => NewItems m [item]
  | .addItemAt item _ _ => NewItems m [item]
  | .addItems list _ _ => NewItems m list
  | .addItemsAt list _ _ _ => NewItems m list
  | .removeRange index count => index < m.active.length → index + count ≤ m.active.length
  | .removeItems items => Members m items
  | .moveItems items _ => Members m items
  | .setCurrentIndex index => m.masterList ≠ [] → index < m.active.length
  | .setPortablePlaylist read _ => NewItems m read.items
  | .readPortablePlaylist itemsGiven read _ => itemsGiven = false → NewItems m read.items
  | _ => True

instance (m : PlaylistManager) (c : Call) : Decidable (WellFormed m c) := by
  apply @Call.casesOn (fun c => Decidable (WellFormed m c)) c <;> intros <;> unfold WellFormed <;>
    infer_instance

/-- A call with well-formed arguments; while the external playlist is active the arguments
may be anything. -/
def Proper (m : PlaylistManager) (c : Call) : Prop := m.onMaster = true → WellFormed m c

instance (m : PlaylistManager) (c : Call) : Decidable (Proper m c) :=
  inferInstanceAs (Decidable (_ → _))

/-- A call that leaves a valid current index valid. -/
def KeepsIndex (m : PlaylistManager) : Call → Prop
  | .setShuffleMode shuffle _ => m.onMaster = false → shuffle = false →
      ∀ x ∈ m.playing[m.current]?, m.indexOf x < m.masterList.length
  | .setCurrentIndex index => m.onMaster = false →
      if m.masterList = [] then m.shuffle = true ∨ m.active.length ≤ index
      else SetsValid m.toPlaylists index
  | _ => True

instance (m : PlaylistManager) (c : Call) : Decidable (KeepsIndex m c) := by
  apply @Call.casesOn (fun c => Decidable (KeepsIndex m c)) c <;> intros <;> unfold KeepsIndex <;>
    infer_instance

/-- `SetCurrentIndex` in the external playlist gets an index that is in range for the master
playlist. -/
def SetsInRange (m : PlaylistManager) : Call → Prop
  | .setCurrentIndex index => m.onMaster = false → m.masterList ≠ [] →
      SetsValid m.toPlaylists index
  | _ => True

theorem KeepsIndex.setsInRange (h : KeepsIndex m c) : SetsInRange m c := by
  cases c with
  | setCurrentIndex index =>
    intro hm hne
    have hvalid := h hm
    rwa [if_neg hne] at hvalid
  | _ => trivial

/-- A call that leaves the current item the current item. -/
def KeepsItem (m : PlaylistManager) : Call → Prop
  | .removeItem index => m.onMaster = true → m.playing[m.current]? ≠ m.active[index]?
  | .removeRange index count => m.onMaster = true →
      ∀ x ∈ m.playing[m.current]?, x ∉ (m.active.drop index).take count
  | .removeItems items => m.onMaster = true → ∀ x ∈ m.playing[m.current]?, x ∉ items
  | .removeAll => m.onMaster = false
  | .swapItems index1 index2 => m.onMaster = true → index1 < m.active.length →
      index2 < m.active.length → SwapKeeps m.toPlaylists index1 index2
  | .moveItem oldIndex newIndex => m.onMaster = true → oldIndex < m.active.length →
      newIndex < m.active.length → MoveKeeps m.toPlaylists oldIndex newIndex
  | .setShuffleMode shuffle _ => m.onMaster = false → shuffle = false →
      ∀ x ∈ m.playing[m.current]?, m.indexOf x = internalIndexOf m.masterList x
  | .gotoNextItem _ _ => False
  | .gotoPreviousItem _ _ => False
  | .setCurrentIndex _ => False
  | _ => True

instance (m : PlaylistManager) (c : Call) : Decidable (KeepsItem m c) := by
  apply @Call.casesOn (fun c => Decidable (KeepsItem m c)) c <;> intros <;> unfold KeepsItem <;>
    infer_instance

/-- The faults that are left out of account here: those of the items, of the vectors and of
the random numbers. -/
structure Tolerates (E : Fault → Prop) : Prop where
  badPointer : E .badPointer
  lengthError : E .lengthError
  drawing : E .drawing

/-! ## What every call does -/

/-- What a call is known to do to the lists. -/
structure Effect (m : PlaylistManager) (c : Call) (m' : PlaylistManager) : Prop where
  sound : m'.Sound
  currentOk : KeepsIndex m c → m.CurrentOk → m'.CurrentOk
  item : KeepsItem m c → m.CurrentOk → m.masterList ≠ [] →
    m'.getCurrentItem = m.getCurrentItem
  frame : m.onMaster = false →
    m'.masterList = m.masterList ∧ m'.shuffleList.Perm m.shuffleList
  key : (∀ key, c ≠ .setActivePlaylist key) → m'.onMaster = m.onMaster
  fits : m'.current = m.current ∨ m'.current ≤ kInvalidIndex

namespace Effect

theorem of_same (hs : m.Sound) (hlists : m'.toPlaylists = m.toPlaylists) : Effect m c m' where
  sound := by
    rw [hlists]
    exact hs
  currentOk _ hok := by
    rw [hlists]
    exact hok
  item _ _ _ := by
    rw [hlists]
  frame _ := by
    rw [hlists]
    exact ⟨rfl, .refl _⟩
  key _ := by
    rw [hlists]
  fits := by
    rw [hlists]
    exact .inl rfl

/-- Nothing has changed that the master playlist is played by. -/
theorem of_playing (hs' : m'.Sound) (hmaster : m'.masterList = m.masterList)
    (hshuffled : m'.shuffleList = m.shuffleList) (hshuffle : m'.shuffle = m.shuffle)
    (hcur : m'.current = m.current)
    (hkey : (∀ key, c ≠ .setActivePlaylist key) → m'.onMaster = m.onMaster) :
    Effect m c m' where
  sound := hs'
  currentOk _ hok := by
    unfold Playlists.CurrentOk
    rwa [hmaster, hcur]
  item _ _ _ := by
    unfold Playlists.getCurrentItem Playlists.playing
    rw [hmaster, hshuffled, hshuffle, hcur]
  frame _ := ⟨hmaster, by rw [hshuffled]⟩
  key := hkey
  fits := .inl hcur

theorem of_outcome (h : Outcome m list shuffled keeps R m')
    (hkeeps : KeepsItem m c → m.onMaster = true → m.masterList ≠ [] → keeps) :
    Effect m c m' where
  sound := h.sound
  currentOk _ hok := h.currentOk hok
  item hitem hok hne := by
    have h' : Outcome m list shuffled True R m' := h.weaken fun hm hne _ => hkeeps hitem hm hne
    exact h'.item hok hne trivial
  frame hm := by
    rw [h.external hm]
    exact ⟨rfl, .refl _⟩
  key _ := h.onMaster
  fits := h.fits

theorem of_turned (h : Turned m m') (hs : m.Sound)
    (hok : KeepsIndex m c → m.CurrentOk → m'.CurrentOk)
    (hitem : KeepsItem m c → m.CurrentOk → m.masterList ≠ [] →
      m'.getCurrentItem = m.getCurrentItem) : Effect m c m' where
  sound := h.sound hs
  currentOk := hok
  item := hitem
  frame _ := ⟨h.masterList, h.perm⟩
  key _ := h.onMaster
  fits := h.fits

end Effect

theorem current_of_item (hs : m.Sound) (hne : m.masterList ≠ []) {x : Ptr}
    (hx : m.getCurrentItem = .ok x) : x ∈ m.playing[m.current]? :=
  (Playlists.getCurrentItem_eq_iff hs hne).mp hx

theorem nextIndex_ok (hs : m.Sound) (hok : m.CurrentOk) (userAction : Bool) :
    (m.masterList = [] → m.nextIndex userAction = kInvalidIndex) ∧
      (m.masterList ≠ [] → m.nextIndex userAction < m.masterList.length) := by
  unfold Playlists.nextIndex
  refine ⟨fun hnil => by rw [if_pos hnil], fun hne => ?_⟩
  have hcur := hok.2 hne
  rw [if_neg hne]
  split
  · exact hcur
  · split
    · assumption
    · split
      · exact List.length_pos_iff.mpr hne
      · exact hcur

theorem previousIndex_ok (hs : m.Sound) (hok : m.CurrentOk) (userAction : Bool) :
    (m.masterList = [] → m.previousIndex userAction = kInvalidIndex) ∧
      (m.masterList ≠ [] → m.previousIndex userAction < m.masterList.length) := by
  unfold Playlists.previousIndex
  refine ⟨fun hnil => by rw [if_pos hnil], fun hne => ?_⟩
  have hcur := hok.2 hne
  have hlt := hs.length_lt
  rw [kInvalidIndex_eq] at hlt
  rw [if_neg hne]
  split
  · exact hcur
  · split
    · rename_i hpos
      rw [predUint32_of_pos (Nat.pos_of_ne_zero hpos) (by omega)]
      omega
    · split
      · rw [predUint32_of_pos (by omega) (by omega)]
        omega
      · exact hcur

theorem setShuffleMode_effect (hs : m.Sound) {shuffle : Bool} {draws : List Rand}
    (h : Turned m m') (hshuffle : m'.shuffle = shuffle)
    (hempty : m.masterList = [] → m'.current = m.current)
    (hindex : ∀ x, m.masterList ≠ [] → m.getCurrentItem = .ok x →
      m'.current = internalIndexOf (if shuffle then m'.shuffleList else m.active) x) :
    Effect m (.setShuffleMode shuffle draws) m' := by
  have hs' := h.sound hs
  -- with a non-empty list: the item is where the new index says
  have hplace : m.CurrentOk → m.masterList ≠ [] →
      ∃ x ∈ m.playing[m.current]?, x ≠ null ∧ x ∈ m.masterList ∧ m.getCurrentItem = .ok x ∧
        m'.current = internalIndexOf (if shuffle then m'.shuffleList else m.active) x := by
    intro hok hne
    rcases Playlists.getCurrentItem_ok hs hok.2 with ⟨hnil, -⟩ | ⟨x, hnull, hplay, hmem, hx⟩
    · exact absurd hnil hne
    · exact ⟨x, hplay, hnull, hmem, hx, hindex x hne hx⟩
  have hfollow : m.CurrentOk → m.masterList ≠ [] →
      (m.onMaster = false → shuffle = false →
        ∀ x ∈ m.playing[m.current]?, m.indexOf x = internalIndexOf m.masterList x) →
      m'.getCurrentItem = m.getCurrentItem := by
    intro hok hne hext
    obtain ⟨x, hplay, hnull, hmem, hx, hcur⟩ := hplace hok hne
    rw [hx]
    refine Playlists.getCurrentItem_of_getElem? hs' ?_
    unfold Playlists.playing
    rw [hshuffle, hcur]
    cases shuffle with
    | true =>
      simp only [if_true]
      have hmem' : x ∈ m'.shuffleList := (h.perm.trans hs.perm).mem_iff.mpr hmem
      exact getElem?_internalIndexOf hs'.shuffle_size hnull hmem'
    | false =>
      simp only [Bool.false_eq_true, if_false]
      have hindex' : internalIndexOf m.active x = internalIndexOf m.masterList x := by
        cases hm : m.onMaster with
        | true => rw [hs.active_eq hm]
        | false => exact hext hm rfl x hplay
      rw [hindex', h.masterList]
      exact getElem?_internalIndexOf hs.size hnull hmem
  refine .of_turned h hs (fun hkeep hok => ?_) fun hkeep hok hne => hfollow hok hne hkeep
  rcases eq_or_ne m.masterList [] with hnil | hne
  · refine ⟨fun _ => (hempty hnil).trans (hok.1 hnil), fun hne => ?_⟩
    rw [h.masterList] at hne
    exact absurd hnil hne
  · refine ⟨fun hnil => absurd (h.masterList.symm.trans hnil) hne, fun _ => ?_⟩
    obtain ⟨x, hplay, hnull, hmem, hx, hcur⟩ := hplace hok hne
    rw [hcur, h.masterList]
    cases shuffle with
    | true =>
      simp only [if_true]
      have hperm := h.perm.trans hs.perm
      have hsize : m'.shuffleList.length ≤ vecMaxSize := hs'.shuffle_size
      rw [← hperm.length_eq]
      exact (internalIndexOf_lt_iff hsize).mpr ⟨hnull, hperm.mem_iff.mpr hmem⟩
    | false =>
      simp only [Bool.false_eq_true, if_false]
      cases hm : m.onMaster with
      | true =>
        rw [hs.active_eq hm]
        exact (internalIndexOf_lt_iff hs.size).mpr ⟨hnull, hmem⟩
      | false => exact hkeep hm rfl x hplay

theorem goto_effect (hs : m.Sound) (h : Turned m m')
    (hindex : m.CurrentOk → (m.masterList = [] → m'.current = kInvalidIndex) ∧
      (m.masterList ≠ [] → m'.current < m.masterList.length)) (hitem : ¬ KeepsItem m c) :
    Effect m c m' := by
  refine .of_turned h hs (fun _ hok => ?_) fun hkeep => absurd hkeep hitem
  unfold Playlists.CurrentOk
  rw [h.masterList]
  exact hindex hok

theorem setCurrentIndex_effect (hs : m.Sound) {index : Nat}
    (hc : m.onMaster = true → m.masterList ≠ [] → index < m.active.length)
    (hkeep : SetsInRange m (.setCurrentIndex index) ∨ E .badCurrent) :
    Meets (m.setCurrentIndex index) E (Effect m (.setCurrentIndex index)) := by
  cases hm : m.onMaster with
  | true =>
    refine (setCurrentIndex_meets hs hm index).mono ?_
    rintro m' ⟨honly, hok, -⟩
    refine .of_turned (.of_onlyCurrent honly) hs (fun _ _ => hok ?_) fun h => h.elim
    rcases eq_or_ne m.masterList [] with hnil | hne
    · exact .inl hnil
    · rw [← hs.active_eq hm]
      exact .inr (hc hm hne)
  | false =>
    have hi : SetsValid m.toPlaylists index ∨ m.masterList = [] ∨ E .badCurrent := by
      rcases hkeep with hkeep | hE
      · rcases eq_or_ne m.masterList [] with hnil | hne
        · exact .inr (.inl hnil)
        · exact .inl (hkeep hm hne)
      · exact .inr (.inr hE)
    refine (setCurrentIndex_sets hs hi).mono ?_
    rintro m' ⟨honly, hcur'⟩
    refine .of_turned (.of_onlyCurrent honly) hs (fun hkeep _ => ?_) fun h => h.elim
    have hvalid := hkeep hm
    unfold Playlists.CurrentOk
    rw [honly.masterList, hcur']
    split at hvalid
    · rename_i hnil
      refine ⟨fun _ => ?_, fun hne => absurd hnil hne⟩
      rcases hvalid with hon | hpast
      · unfold setIndex
        rw [if_pos hon]
        refine internalIndexOf_of_not_mem ?_
        have hempty := hs.perm
        rw [hnil] at hempty
        rw [hempty.eq_nil]
        exact List.not_mem_nil
      · exact setIndex_past hs hpast
    · rename_i hne
      exact ⟨fun hnil => absurd hnil hne, fun _ => (setIndex_lt_iff hs).mpr hvalid⟩

theorem queried (hE : Tolerates E) (queryForMetaData : Bool) (items : List Ptr) :
    Queried m E (fun _ => True) queryForMetaData items := by
  unfold Queried
  cases queryForMetaData with
  | true => exact ItemHeap.retrieveMetaData_meets hE.badPointer _ _
  | false => trivial

theorem onHeap_effect (hs : m.Sound) {h : Checked ItemHeap}
    (hR : Meets h E fun _ => True) : Meets (m.onHeap h) E (Effect m c) := by
  rw [onHeap_iff]
  exact hR.mono fun heap _ => .of_same hs rfl

theorem setActivePlaylist_sound (hs : m.Sound) (key : PlaylistKey) :
    (m.setActivePlaylist key).2.Sound := by
  cases key with
  | master => exact { hs with active_iff := by simp [setActivePlaylist] }
  | external => exact { hs with active_iff := by simp [setActivePlaylist] }
  | portable => exact { hs with active_iff := by simp [setActivePlaylist] }
  | lastKey => exact hs

theorem setExternalPlaylist_meets (hs : m.Sound) (hE : Tolerates E) (read : PlugInResult) :
    Meets (m.setExternalPlaylist read) E fun r => Effect m c r.2 := by
  unfold setExternalPlaylist
  simp only [Meets.bind_iff, onHeap_iff]
  refine (ItemHeap.releaseItems_meets hE.badPointer _ _).mono fun heap _ => ?_
  refine (insertItems_meets (.inr hE.lengthError) (Nat.le_refl _)).mono ?_
  rintro externalList ⟨-, hsize⟩
  refine (ItemHeap.retrieveMetaData_meets hE.badPointer _ _).mono fun heap' _ => ?_
  exact .of_playing { hs with external_size := hsize } rfl rfl rfl rfl fun _ => rfl

theorem readPortablePlaylist_meets (hs : m.Sound) (hE : Tolerates E) {itemsGiven : Bool}
    {read : PlugInResult} {draws : List Rand}
    (hnew : m.onMaster = true → itemsGiven = false → NewItems m read.items) :
    Meets (m.readPortablePlaylist itemsGiven read draws) E fun r => Effect m c r.2 := by
  unfold readPortablePlaylist
  split
  · exact .of_same hs rfl
  · rename_i hgiven
    simp only [Meets.bind_iff, onHeap_iff]
    refine (ItemHeap.releaseItems_meets hE.badPointer _ _).mono fun heap _ => ?_
    have hnew' : ({ m with toItemHeap := heap } : PlaylistManager).onMaster = true →
        NewItems { m with toItemHeap := heap } read.items := by
      intro hm
      have hnew := hnew hm (by simpa using hgiven)
      exact ⟨hnew.nodup, hnew.nonnull, hnew.absent⟩
    refine (addItems_meets (m := { m with toItemHeap := heap }) hs (.inr hE.lengthError) (.inr hE.drawing)
      hnew' fun _ _ => queried hE _ _).mono fun r h => ?_
    exact .of_outcome (h.2.afterItems rfl) fun _ _ _ => trivial

theorem threadRead_meets (hs : m.Sound) (hE : Tolerates E) (k : Nat) (found : MetaData) :
    Meets (m.threadRead k found) E (Effect m c) := by
  unfold threadRead
  split
  · split
    · split
      · exact Effect.of_same hs rfl
      · exact hE.badPointer
    · exact Effect.of_same hs rfl
  · exact Effect.of_same hs rfl

theorem threadComplete_meets (hs : m.Sound) (hE : Tolerates E)
    (hcur : m.CurrentValid ∨ E .badCurrent) (k : Nat) :
    Meets (m.threadComplete k) E (Effect m c) := by
  unfold threadComplete
  split
  · rename_i item rest found updated _
    rw [Meets.bind_iff]
    refine (ItemHeap.getState_meets hE.badPointer _ _).mono fun state _ => ?_
    split
    · exact Effect.of_same hs rfl
    · simp only [Meets.bind_iff]
      refine (getCurrentItem_meets (m := { m with
        toItemHeap := (m.toItemHeap.setMetaData item found).setState item .normal }) hs
        hcur).mono fun currentItem _ => ?_
      exact Effect.of_same hs rfl
  · exact Effect.of_same hs rfl

theorem threadFinish_lists (k : Nat) : (m.threadFinish k).toPlaylists = m.toPlaylists := by
  unfold threadFinish
  split
  · split <;> rfl
  · rfl

theorem map_iff {α β : Type} {r : Checked α} {f : α → β} {Q : β → Prop} :
    Meets (f <$> r) E Q ↔ Meets r E fun a => Q (f a) := by
  cases r <;> exact Iff.rfl

/-- What every call does to the lists, whatever it does to the items. -/
theorem call_meets (hE : Tolerates E) (hs : m.Sound) (hc : Proper m c)
    (hcur : m.CurrentValid ∨ E .badCurrent) (hkeep : SetsInRange m c ∨ E .badCurrent)
    (hindex : m.onMaster = true ∨ E .badIndex) : Meets (m.call c) E (Effect m c) := by
  have hlen := hE.lengthError
  have hdraw := hE.drawing
  have hptr := hE.badPointer
  cases c with
  | addItem item queryForMetaData =>
    rw [call, map_iff]
    rcases eq_or_ne item null with rfl | hnull
    · rw [addItem_null]
      exact .of_same hs rfl
    · exact (addItem_meets hs hlen hnull hc (queried hE _ _)).mono
        fun r h => .of_outcome h fun _ _ _ => trivial
  | addItemAt item index queryForMetaData =>
    rw [call, map_iff]
    rcases eq_or_ne item null with rfl | hnull
    · rw [addItemAt_null]
      exact .of_same hs rfl
    · exact (addItemAt_meets hs hcur hlen hnull hc (queried hE _ _)).mono
        fun r h => .of_outcome h fun _ _ _ => trivial
  | addItems list queryForMetaData draws =>
    rw [call, map_iff]
    exact (addItems_meets hs (.inr hlen) (.inr hdraw) hc fun _ _ => queried hE _ _).mono
      fun r h => .of_outcome h.2 fun _ _ _ => trivial
  | addItemsAt list index queryForMetaData draws =>
    rw [call, map_iff]
    exact (addItemsAt_meets hs hcur (.inr hlen) (.inr hdraw) hc fun _ _ => queried hE _ _).mono
      fun r h => .of_outcome h.2 fun _ _ _ => trivial
  | removeItem index =>
    rw [call, map_iff]
    rcases Nat.lt_or_ge index m.active.length with hlt | hge
    · have hitem := List.getElem?_eq_getElem hlt
      refine (removeItem_meets hs hcur hitem (ItemHeap.releaseItem_meets hptr _ _)).mono
        fun r h => .of_outcome h.2.2 fun hother hm hne hgone => ?_
      refine hother hm ?_
      rw [hitem]
      exact current_of_item hs hne hgone
    · rw [removeItem_invalid hs hge]
      exact .of_same hs rfl
  | removeRange index count =>
    rw [call, map_iff]
    rcases Nat.lt_or_ge index m.active.length with hlt | hge
    · have hin : index + count ≤ m.active.length ∨ E .badIndex :=
        hindex.imp_left fun hm => hc hm hlt
      refine (removeRange_meets hs hcur hlt hin (ItemHeap.release_meets hptr _ _)).mono
        fun r h => .of_outcome h.2.2.2 fun hother hm hne x hx => ?_
      exact hother hm x (current_of_item hs hne hx)
    · rw [removeRange_invalid hs hge]
      exact .of_same hs rfl
  | removeItems items =>
    rw [call, map_iff]
    have hin : (nonNull items).Subperm m.active ∨ E .badIndex :=
      hindex.imp_left fun hm => (hc hm : Members m items).subperm
    refine (removeItems_meets hs hcur hin (ItemHeap.release_meets hptr _ _)).mono
      fun r h => .of_outcome h.2.2.2 fun hother hm hne x hx => ?_
    exact hother hm x (current_of_item hs hne hx)
  | removeAll =>
    rw [call]
    refine (removeAll_meets hs (ItemHeap.releaseItems_meets hptr _ _)).mono
      fun m' h => .of_outcome h fun hext hm _ => ?_
    exact absurd (hm.symm.trans hext) (by simp)
  | swapItems index1 index2 =>
    rw [call, map_iff]
    rcases Nat.lt_or_ge index1 m.active.length with h1 | h1
    · rcases Nat.lt_or_ge index2 m.active.length with h2 | h2
      · exact (swapItems_meets hs (List.getElem?_eq_getElem h1) (List.getElem?_eq_getElem h2)
          (R := fun _ => True) trivial).mono
          fun r h => .of_outcome h.2.1 fun hswap hm _ => hswap hm h1 h2
      · rw [swapItems_invalid hs (.inr h2)]
        exact .of_same hs rfl
    · rw [swapItems_invalid hs (.inl h1)]
      exact .of_same hs rfl
  | moveItem oldIndex newIndex =>
    rw [call, map_iff]
    rcases Nat.lt_or_ge oldIndex m.active.length with h1 | h1
    · rcases Nat.lt_or_ge newIndex m.active.length with h2 | h2
      · exact (moveItem_meets hs (List.getElem?_eq_getElem h1) h2
          (R := fun _ => True) trivial).mono
          fun r h => .of_outcome h.2.1 fun hmove hm _ => hmove hm h1 h2
      · rw [moveItem_invalid hs (.inr h2)]
        exact .of_same hs rfl
    · rw [moveItem_invalid hs (.inl h1)]
      exact .of_same hs rfl
  | moveItems items index =>
    rw [call]
    have hin : (nonNull items).Subperm m.active ∨ E .badIndex :=
      hindex.imp_left fun hm => (hc hm : Members m items).subperm
    have hnull : null ∉ items ∨ (m.onMaster = false ∧ E .badIndex) := by
      cases hm : m.onMaster with
      | true => exact .inl (hc hm : Members m items).nonnull
      | false =>
        refine .inr ⟨rfl, hindex.resolve_left ?_⟩
        rw [hm]
        exact Bool.false_ne_true
    refine (moveItems_meets hs hlen hcur hnull hin (R := fun _ => True) trivial).mono ?_
    rintro m' ⟨list, h, -⟩
    exact .of_outcome h fun _ _ _ => trivial
  | sort key type draws =>
    rw [call, map_iff]
    refine (sort_meets hs (.inr hdraw) (.inr hptr) hcur (R := fun _ => True) trivial).mono ?_
    rintro r ⟨list, -, -, h⟩
    exact .of_outcome h fun _ _ _ => trivial
  | setShuffleMode shuffle draws =>
    refine (setShuffleMode_meets hs hdraw hcur).mono ?_
    rintro m' ⟨hturned, hshuffle, hempty, hplace⟩
    exact setShuffleMode_effect hs hturned hshuffle hempty hplace
  | setRepeatMode mode =>
    exact Effect.of_playing { hs with } rfl rfl rfl rfl fun _ => rfl
  | gotoNextItem userAction draws =>
    refine (gotoNextItem_meets hs (fun _ => hdraw) hcur).mono ?_
    rintro m' ⟨hturned, -, hindex', -⟩
    refine goto_effect hs hturned (fun hok => ?_) fun h => h
    rw [hindex']
    exact nextIndex_ok hs hok userAction
  | gotoPreviousItem userAction draws =>
    refine (gotoPreviousItem_meets hs (fun _ => hdraw) hcur).mono ?_
    rintro m' ⟨hturned, -, hindex', -⟩
    refine goto_effect hs hturned (fun hok => ?_) fun h => h
    rw [hindex']
    exact previousIndex_ok hs hok userAction
  | setCurrentIndex index => exact setCurrentIndex_effect hs (fun hm => hc hm) hkeep
  | setActivePlaylist key =>
    refine Effect.of_playing (setActivePlaylist_sound hs key) ?_ ?_ ?_ ?_
      fun h => absurd rfl (h key)
    all_goals cases key <;> rfl
  | setExternalPlaylist read =>
    rw [call, map_iff]
    exact setExternalPlaylist_meets hs hE read
  | setPortablePlaylist read draws =>
    rw [call, map_iff]
    exact readPortablePlaylist_meets hs hE fun hm _ => hc hm
  | readPortablePlaylist itemsGiven read draws =>
    rw [call, map_iff]
    exact readPortablePlaylist_meets hs hE fun hm => hc hm
  | retrieveMetaData list =>
    exact onHeap_effect hs (ItemHeap.retrieveMetaData_meets hptr _ _)
  | retrieveMetaDataNow item found =>
    exact onHeap_effect hs (ItemHeap.retrieveMetaDataNow_meets hptr _ _ _)
  | threadRead k found => exact threadRead_meets hs hE k found
  | threadComplete k => exact threadComplete_meets hs hE hcur k
  | threadFinish k => exact Effect.of_same hs (threadFinish_lists k)

/-! ## Runs -/

theorem next_iff : m.next c = some m' ↔ m.call c = .ok m' := by
  unfold next
  cases m.call c with
  | ok m₂ => simp
  | error f => simp

theorem effect_of_next (hs : m.Sound) (hc : Proper m c) (h : m.next c = some m') :
    Effect m c m' := by
  have hE : Tolerates fun _ => True := ⟨trivial, trivial, trivial⟩
  exact (call_meets hE hs hc (.inr trivial) (.inr trivial) (.inr trivial)).of_ok (next_iff.mp h)

/-- The runs of the manager from its constructor, with well-formed arguments. -/
def Reachable (m : PlaylistManager) : Prop :=
  ∃ shuffle mode contents calls,
    Run (Guarded Proper (Steps next)) (init shuffle mode contents) calls m

theorem init_sound (shuffle : Bool) (mode : RepeatMode) (contents : Ptr → Text × MetaData) :
    (init shuffle mode contents).Sound where
  perm := .refl _
  nodup := .nil
  nonnull := List.not_mem_nil
  size := Nat.zero_le _
  external_size := Nat.zero_le _
  active_iff := by simp [init]

theorem init_currentOk (shuffle : Bool) (mode : RepeatMode) (contents : Ptr → Text × MetaData) :
    (init shuffle mode contents).CurrentOk :=
  ⟨fun _ => rfl, fun hne => absurd rfl hne⟩

theorem run_sound {m₀ : PlaylistManager} {calls : List Call} (hs : m₀.Sound)
    (h : Run (Guarded Proper (Steps next)) m₀ calls m) : m.Sound := by
  refine h.invariant (P := fun m => m.Sound) (fun m c m' hs hstep => ?_) hs
  exact (effect_of_next hs hstep.1 hstep.2).sound

theorem run_fits {m₀ : PlaylistManager} {calls : List Call} (hs : m₀.Sound)
    (hfits : m₀.current ≤ kInvalidIndex) (h : Run (Guarded Proper (Steps next)) m₀ calls m) :
    m.current ≤ kInvalidIndex := by
  have hinv : m.Sound ∧ m.current ≤ kInvalidIndex := by
    refine h.invariant (P := fun m => m.Sound ∧ m.current ≤ kInvalidIndex) ?_ ⟨hs, hfits⟩
    rintro m c m' ⟨hs, hfits⟩ hstep
    have heffect := effect_of_next hs hstep.1 hstep.2
    refine ⟨heffect.sound, ?_⟩
    rcases heffect.fits with hsame | hle
    · rw [hsame]
      exact hfits
    · exact hle
  exact hinv.2

theorem Reachable.sound (h : Reachable m) : m.Sound := by
  obtain ⟨shuffle, mode, contents, calls, hrun⟩ := h
  exact run_sound (init_sound shuffle mode contents) hrun

theorem Reachable.fits (h : Reachable m) : m.current ≤ kInvalidIndex := by
  obtain ⟨shuffle, mode, contents, calls, hrun⟩ := h
  exact run_fits (init_sound shuffle mode contents) (Nat.le_refl _) hrun

/-- The steps that keep a valid current index valid. -/
def KeepingIndex (m : PlaylistManager) (c : Call) : Prop := Proper m c ∧ KeepsIndex m c

theorem run_invariant {m₀ : PlaylistManager} {calls : List Call} (hs : m₀.Sound)
    (hok : m₀.CurrentOk) (h : Run (Guarded KeepingIndex (Steps next)) m₀ calls m) :
    m.Sound ∧ m.CurrentOk := by
  refine h.invariant (P := fun m => m.Sound ∧ m.CurrentOk) ?_ ⟨hs, hok⟩
  rintro m c m' ⟨hs, hok⟩ ⟨⟨hc, hkeep⟩, hstep⟩
  have heffect := effect_of_next hs hc hstep
  exact ⟨heffect.sound, heffect.currentOk hkeep hok⟩

/-- With a valid current index no call with well-formed arguments indexes out of range while
the master playlist is active. -/
theorem call_inRange (hs : m.Sound) (hok : m.CurrentOk) (hm : m.onMaster = true)
    (hc : WellFormed m c) :
    m.call c ≠ .error .badCurrent ∧ m.call c ≠ .error .badIndex := by
  have hE : Tolerates fun f => f ≠ .badCurrent ∧ f ≠ .badIndex := by
    constructor <;> simp
  have hkeep : KeepsIndex m c := by
    cases c with
    | setShuffleMode shuffle draws =>
      intro hext
      exact absurd (hm.symm.trans hext) (by simp)
    | setCurrentIndex index =>
      intro hext
      exact absurd (hm.symm.trans hext) (by simp)
    | _ => trivial
  have hmeets := call_meets hE hs (fun _ => hc) (.inl hok.2) (.inl hkeep.setsInRange) (.inl hm)
  exact ⟨fun hf => (hmeets.of_error hf).1 rfl, fun hf => (hmeets.of_error hf).2 rfl⟩

/-- The invariant of the manager, in every run in which neither `SetShuffleMode(false)` nor
`SetCurrentIndex` takes an index out of the external playlist for one into the master
playlist. -/
theorem playlist_invariant {shuffle : Bool} {mode : RepeatMode}
    {contents : Ptr → Text × MetaData} {calls : List Call}
    (h : Run (Guarded KeepingIndex (Steps next)) (init shuffle mode contents) calls m) :
    m.shuffleList.Perm m.masterList ∧
      (m.current = kInvalidIndex ↔ m.masterList = []) ∧
      (m.masterList ≠ [] → m.current < m.masterList.length) ∧
      (∃ item, m.getCurrentItem = .ok item) ∧ (∃ index, m.getCurrentIndex = .ok index) ∧
      ∀ c, m.onMaster = true → WellFormed m c →
        m.call c ≠ .error .badCurrent ∧ m.call c ≠ .error .badIndex := by
  obtain ⟨hs, hok⟩ := run_invariant (init_sound _ _ _) (init_currentOk _ _ _) h
  refine ⟨hs.perm, ⟨fun hcur => ?_, hok.1⟩, hok.2, ?_, Playlists.getCurrentIndex_ok hs hok,
    fun c hm hc => call_inRange hs hok hm hc⟩
  · by_contra hne
    have hlt := Nat.lt_trans (hok.2 hne) hs.length_lt
    rw [hcur] at hlt
    exact absurd hlt (Nat.lt_irrefl _)
  · rcases Playlists.getCurrentItem_ok hs hok.2 with ⟨-, hx⟩ | ⟨x, -, -, -, hx⟩
    · exact ⟨null, hx⟩
    · exact ⟨x, hx⟩

/-- Two items are added, they are swapped, and the first is removed. -/
def editingCalls : List Call :=
  [.addItem 1 false, .addItemAt 2 0 false, .swapItems 0 1, .removeItem 0]

theorem editingCalls_run :
    ∃ m, Run (Guarded KeepingIndex (Steps next)) (init false .repeatNone fun _ => default)
      editingCalls m ∧ m.masterList = [2] :=
  ⟨_, .cons ⟨⟨by decide, trivial⟩, rfl⟩ <| .cons ⟨⟨by decide, trivial⟩, rfl⟩ <|
    .cons ⟨⟨by decide, trivial⟩, rfl⟩ <| .cons ⟨⟨by decide, trivial⟩, rfl⟩ <| .refl _, rfl⟩

theorem playlist_invariant_edited : ∃ m : PlaylistManager, m.masterList = [2] ∧ m.shuffleList.Perm [2] ∧
    m.current < 1 ∧ ∃ item, m.getCurrentItem = .ok item := by
  obtain ⟨m, hrun, hlist⟩ := editingCalls_run
  obtain ⟨hperm, -, hlt, hitem, -⟩ := playlist_invariant hrun
  rw [hlist] at hperm hlt
  exact ⟨m, hlist, hperm, hlt (by simp), hitem⟩

/-- While the external playlist is active `SetShuffleMode(false)` looks for the current item
in the external playlist. -/
def lostCalls : List Call :=
  [.addItem 1 false, .setActivePlaylist .external, .setShuffleMode false [],
    .setActivePlaylist .master]

/-- The current index is lost, and the current item cannot be had any more. -/
theorem current_lost : ∃ m, Run (Guarded Proper (Steps next))
      (init false .repeatNone fun _ => default) lostCalls m ∧
    m.onMaster = true ∧ m.masterList = [1] ∧ m.current = kInvalidIndex ∧
    m.getCurrentItem = .error .badCurrent :=
  ⟨_, .cons ⟨by decide, rfl⟩ <| .cons ⟨by decide, rfl⟩ <| .cons ⟨by decide, rfl⟩ <|
    .cons ⟨by decide, rfl⟩ <| .refl _, rfl, rfl, rfl, rfl⟩

end PlaylistManager

end FreeAmp.Base
