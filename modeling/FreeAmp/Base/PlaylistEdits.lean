/-
  Base/PlaylistEdits.lean --- what an editing function does, and the adding functions.

  `Outcome m list shuffled keeps R m'` says everything the rest of the development
  needs to know about a call that edits the active playlist: the active list is
  `list`, and so is the shuffle list `shuffled` when that playlist is the master
  playlist; nothing else but the current index has changed; the lists are sound; a
  valid current index stays valid; the current item is the same if `keeps` holds;
  and the items are left in a state satisfying `R`.

  There is one lemma for each function.  `E` is the set of faults one is prepared
  for, and what a function does to the items is left open: the caller of the lemma
  says what the step on the items meets.
-/
import FreeAmp.Base.PlaylistCurrent

namespace FreeAmp.Base

open FreeAmp.Lib

namespace PlaylistManager

variable {E : Fault → Prop} {R : ItemHeap → Prop} {m m' : PlaylistManager}
  {list shuffled : List Ptr} {keeps : Prop}

/-! ## The active list -/

theorem setActiveList_master (hact : m.activeList = .master) :
    m.setActiveList list = { m with masterList := list } := by
  unfold setActiveList Playlists.setActive
  rw [hact]

theorem setActiveList_external (hact : m.activeList = .external) :
    m.setActiveList list = { m with externalList := list } := by
  unfold setActiveList Playlists.setActive
  rw [hact]

@[simp] theorem onMaster_setActiveList : (m.setActiveList list).onMaster = m.onMaster := by
  unfold setActiveList Playlists.setActive Playlists.onMaster
  cases m.activeList <;> rfl

/-! ## Outcomes -/

/-- What a call that edits the active list leaves. -/
structure Outcome (m : PlaylistManager) (list shuffled : List Ptr) (keeps : Prop)
    (R : ItemHeap → Prop) (m' : PlaylistManager) : Prop where
  master : m.onMaster = true → m'.toPlaylists = { m.toPlaylists with
    masterList := list
    shuffleList := shuffled
    current := m'.current
    sortKey := m'.sortKey
    sortType := m'.sortType }
  external : m.onMaster = false → m'.toPlaylists = { m.toPlaylists with
    externalList := list
    sortKey := m'.sortKey
    sortType := m'.sortType }
  sound : m'.Sound
  currentOk : m.CurrentOk → m'.CurrentOk
  item : m.CurrentOk → m.masterList ≠ [] → keeps → m'.getCurrentItem = m.getCurrentItem
  heap : R m'.toItemHeap
  fits : m'.current = m.current ∨ m'.current ≤ kInvalidIndex

namespace Outcome

theorem nothing (hs : m.Sound) (hR : R m.toItemHeap) :
    Outcome m m.active m.shuffleList keeps R m where
  master hm := by
    rw [hs.active_eq hm]
  external hm := by
    rw [hs.active_external hm]
  sound := hs
  currentOk hok := hok
  item _ _ _ := rfl
  heap := hR
  fits := .inl rfl

theorem onItems {R' : ItemHeap → Prop} {m'' : PlaylistManager}
    (h : Outcome m list shuffled keeps R' m') (hlists : m''.toPlaylists = m'.toPlaylists)
    (hR : R m''.toItemHeap) : Outcome m list shuffled keeps R m'' where
  master hm := by
    rw [hlists]
    exact h.master hm
  external hm := by
    rw [hlists]
    exact h.external hm
  sound := by
    rw [hlists]
    exact h.sound
  currentOk hok := by
    rw [hlists]
    exact h.currentOk hok
  item hok hne hk := by
    rw [hlists]
    exact h.item hok hne hk
  heap := hR
  fits := by
    rw [hlists]
    exact h.fits

theorem afterItems {m₁ : PlaylistManager} (h : Outcome m₁ list shuffled keeps R m')
    (hlists : m₁.toPlaylists = m.toPlaylists) : Outcome m list shuffled keeps R m' where
  master := by
    rw [← hlists]
    exact h.master
  external := by
    rw [← hlists]
    exact h.external
  sound := h.sound
  currentOk := by
    rw [← hlists]
    exact h.currentOk
  item := by
    rw [← hlists]
    exact h.item
  heap := h.heap
  fits := by
    rw [← hlists]
    exact h.fits

theorem ofExternal (hs : m.Sound) (hm : m.onMaster = false) (hsize : list.length ≤ vecMaxSize)
    (hlists : m'.toPlaylists = { m.toPlaylists with
      externalList := list
      sortKey := m'.sortKey
      sortType := m'.sortType })
    (hR : R m'.toItemHeap) : Outcome m list shuffled keeps R m' where
  master hmaster := by
    rw [hm] at hmaster
    simp at hmaster
  external _ := hlists
  sound := by
    rw [hlists]
    exact { hs with external_size := hsize }
  currentOk hok := by
    rw [hlists]
    exact hok
  item _ _ _ := by
    rw [hlists]
    rfl
  heap := hR
  fits := by
    rw [hlists]
    exact .inl rfl

/-- An edit of the master list: `m₂` is the manager with the new lists, and the step from
`m₂` to `m'` sets the current index. -/
theorem ofMaster (hm : m.onMaster = true) {m₂ : PlaylistManager}
    (hlists : m₂.toPlaylists = { m.toPlaylists with
      masterList := list
      shuffleList := shuffled
      current := m₂.current
      sortKey := m₂.sortKey
      sortType := m₂.sortType })
    (hfits : m₂.current = m.current ∨ m₂.current ≤ kInvalidIndex)
    (hs₂ : m₂.Sound) (h : OnlyCurrent m₂ m')
    (hok : m.CurrentOk → m'.CurrentOk)
    (hitem : m.CurrentOk → m.masterList ≠ [] → keeps → m'.getCurrentItem = m.getCurrentItem)
    (hR : R m'.toItemHeap) : Outcome m list shuffled keeps R m' where
  master _ := by
    rw [h.lists, hlists]
  external hext := by
    rw [hm] at hext
    simp at hext
  sound := h.sound hs₂
  currentOk := hok
  item := hitem
  heap := hR
  fits := h.fits_trans hfits

theorem active (h : Outcome m list shuffled keeps R m') : m'.active = list := by
  cases hm : m.onMaster with
  | true =>
    have hm' : m'.onMaster = true := by
      rw [h.master hm]
      exact hm
    rw [h.sound.active_eq hm', h.master hm]
  | false =>
    have hm' : m'.onMaster = false := by
      rw [h.external hm]
      exact hm
    rw [h.sound.active_external hm', h.external hm]

theorem onMaster (h : Outcome m list shuffled keeps R m') : m'.onMaster = m.onMaster := by
  cases hm : m.onMaster with
  | true =>
    rw [h.master hm]
    exact hm
  | false =>
    rw [h.external hm]
    exact hm

/-- A weaker reason for the current item to be the same will do when it gives the reason
stated; an edit of the external list needs none. -/
theorem weaken {keeps' : Prop} (h : Outcome m list shuffled keeps R m')
    (hkeeps : m.onMaster = true → m.masterList ≠ [] → keeps' → keeps) :
    Outcome m list shuffled keeps' R m' where
  master := h.master
  external := h.external
  sound := h.sound
  currentOk := h.currentOk
  item hok hne hk := by
    cases hm : m.onMaster with
    | true => exact h.item hok hne (hkeeps hm hne hk)
    | false =>
      rw [h.external hm]
      rfl
  heap := h.heap
  fits := h.fits

end Outcome

/-- The lists in the middle of an edit of the master list. -/
theorem sound_of_lists (hs : m.Sound)
    (hlists : m'.toPlaylists = { m.toPlaylists with
      masterList := list
      shuffleList := shuffled
      current := m'.current
      sortKey := m'.sortKey
      sortType := m'.sortType })
    (hperm : shuffled.Perm list) (hnodup : list.Nodup) (hnull : null ∉ list)
    (hsize : list.length ≤ vecMaxSize) : m'.Sound := by
  rw [hlists]
  exact { hs with perm := hperm, nodup := hnodup, nonnull := hnull, size := hsize }

/-! ## Steps -/

theorem insertItems_meets {l items : List Ptr} {i : Nat}
    (hlen : l.length + items.length ≤ vecMaxSize ∨ E .lengthError) (hi : i ≤ l.length) :
    Meets (insertItems l i items) E fun l' =>
      l' = l.take i ++ items ++ l.drop i ∧ l'.length ≤ vecMaxSize := by
  unfold insertItems
  split
  · rename_i hfull
    exact hlen.resolve_left (Nat.not_le.mpr hfull)
  · rename_i hroom
    rw [if_neg (Nat.not_lt.mpr hi)]
    refine ⟨rfl, ?_⟩
    simp only [List.length_append, List.length_take, List.length_drop]
    omega

theorem appendToShuffleList_meets {items : List Ptr}
    (hlen : m.shuffleList.length + items.length ≤ vecMaxSize ∨ E .lengthError) :
    Meets (m.appendToShuffleList items) E fun m' =>
      m' = { m with shuffleList := m.shuffleList ++ items } := by
  unfold appendToShuffleList
  rw [Meets.bind_iff]
  refine (insertItems_meets hlen (Nat.le_refl _)).mono ?_
  rintro l ⟨rfl, -⟩
  simp

@[simp] theorem onHeap_iff {h : Checked ItemHeap} {Q : PlaylistManager → Prop} :
    Meets (m.onHeap h) E Q ↔ Meets h E fun heap => Q { m with toItemHeap := heap } := by
  unfold onHeap
  rw [Meets.bind_iff]
  rfl

/-- An insertion rearranges the list with the items behind it. -/
theorem insert_perm (l items : List Ptr) (i : Nat) :
    (l.take i ++ items ++ l.drop i).Perm (l ++ items) := by
  have hswap : (items ++ l.drop i).Perm (l.drop i ++ items) := List.perm_append_comm
  have hleft := hswap.append_left (l.take i)
  rwa [← List.append_assoc, ← List.append_assoc, List.take_append_drop] at hleft

/-! ## Adding -/

/-- The items are new to the master playlist. -/
structure NewItems (m : PlaylistManager) (items : List Ptr) : Prop where
  nodup : items.Nodup
  nonnull : null ∉ items
  absent : ∀ p ∈ items, p ∉ m.masterList

instance (m : PlaylistManager) (items : List Ptr) : Decidable (NewItems m items) :=
  decidable_of_iff (items.Nodup ∧ null ∉ items ∧ ∀ p ∈ items, p ∉ m.masterList)
    ⟨fun h => ⟨h.1, h.2.1, h.2.2⟩, fun h => ⟨h.nodup, h.nonnull, h.absent⟩⟩

theorem NewItems.append_nodup (hs : m.Sound) {items : List Ptr} (h : NewItems m items) :
    (m.masterList ++ items).Nodup := by
  refine List.nodup_append.mpr ⟨hs.nodup, h.nodup, ?_⟩
  rintro x hx y hy rfl
  exact h.absent x hy hx

/-- The manager with new items in both lists, before the current index is set. -/
def inserted (m : PlaylistManager) (i : Nat) (items shuffledItems : List Ptr) :
    PlaylistManager :=
  { m with
    masterList := m.masterList.take i ++ items ++ m.masterList.drop i
    shuffleList := m.shuffleList ++ shuffledItems }

theorem inserted_sound (hs : m.Sound) {items shuffledItems : List Ptr}
    (hnew : NewItems m items) (hperm : shuffledItems.Perm items) {i : Nat}
    (hsize : (m.masterList.take i ++ items ++ m.masterList.drop i).length ≤ vecMaxSize) :
    (m.inserted i items shuffledItems).Sound := by
  have hins := insert_perm m.masterList items i
  refine sound_of_lists hs rfl ?_ ?_ ?_ hsize
  · exact (hs.perm.append hperm).trans hins.symm
  · exact hins.nodup_iff.mpr (hnew.append_nodup hs)
  · intro hmem
    rcases List.mem_append.mp (hins.mem_iff.mp hmem) with hold | hadded
    · exact hs.nonnull hold
    · exact hnew.nonnull hadded

/-- An item in front of the insertion stays where it is, and so does one of the shuffle
list. -/
theorem inserted_playing {items shuffledItems : List Ptr} {i c : Nat} {x : Ptr}
    (hx : m.playing[c]? = some x) (hfront : c < i) :
    (m.inserted i items shuffledItems).playing[c]? = some x := by
  unfold Playlists.playing at hx ⊢
  have hlt := (List.getElem?_eq_some_iff.mp hx).1
  cases hshuffle : m.shuffle with
  | true =>
    simp only [hshuffle, if_true] at hx hlt
    simp only [inserted, hshuffle, if_true]
    rw [List.getElem?_append_left hlt, hx]
  | false =>
    simp only [hshuffle, Bool.false_eq_true, if_false] at hx hlt
    simp only [inserted, hshuffle, Bool.false_eq_true, if_false]
    have htake : c < (m.masterList.take i).length := by
      rw [List.length_take]
      omega
    rw [List.append_assoc, List.getElem?_append_left htake, List.getElem?_take_of_lt hfront, hx]

/-- What is expected of the step that sets the current index after an insertion at `i`. -/
def SetsCurrent (E : Fault → Prop) (m : PlaylistManager) (i : Nat)
    (fix : PlaylistManager → Checked PlaylistManager) : Prop :=
  ∀ m₂ : PlaylistManager, m₂.Sound → m₂.onMaster = true → i ≤ m₂.masterList.length →
    m₂.current = m.current →
    Meets (fix m₂) E fun m' => OnlyCurrent m₂ m' ∧
      (m.current = kInvalidIndex → m'.CurrentOk) ∧
      ∀ x, m.getCurrentItem = .ok x → x ≠ null → x ∈ m₂.masterList →
        m.current < m.masterList.length →
        (m.current < i → m₂.playing[m.current]? = some x) →
        m'.CurrentOk ∧ m'.getCurrentItem = .ok x

theorem firstCurrent_setsCurrent : SetsCurrent E m m.masterList.length firstCurrent := by
  intro m₂ hs₂ hm₂ _ hcur
  refine (firstCurrent_meets hs₂ hm₂).mono ?_
  rintro m' ⟨honly, hfirst, hsame⟩
  rw [hcur] at hfirst hsame
  refine ⟨honly, hfirst, fun x _ _ _ hlt hplay => ?_⟩
  have hx := hplay hlt
  rcases eq_or_ne m.current kInvalidIndex with hinvalid | hvalid
  · have hbound := (List.getElem?_eq_some_iff.mp hx).1
    rw [hs₂.playing_length, hinvalid] at hbound
    exact absurd hbound (Nat.not_lt.mpr (Nat.le_of_lt hs₂.length_lt))
  · refine honly.at_index hs₂ ?_
    rw [hsame hvalid]
    exact hx

theorem keepCurrent_setsCurrent {i : Nat} {currentItem : Ptr} (hs : m.Sound)
    (hitem : m.getCurrentItem = .ok currentItem) :
    SetsCurrent E m i fun m₂ => m₂.keepCurrent i currentItem := by
  intro m₂ hs₂ hm₂ hi hcur
  refine (keepCurrent_meets hs₂ hm₂ i currentItem hi).mono ?_
  rintro m' ⟨honly, hfirst, hsame⟩
  rw [hcur] at hfirst hsame
  refine ⟨honly, hfirst, fun x hx hnull hmem hlt hplay => ?_⟩
  rw [hitem] at hx
  obtain rfl := Except.ok.inj hx
  exact hsame (Nat.ne_of_lt (Nat.lt_trans hlt hs.length_lt)) hnull hmem hplay

theorem insert_meets (hs : m.Sound) {items shuffledItems : List Ptr} {i : Nat}
    (hlen : m.active.length + items.length ≤ vecMaxSize ∨ E .lengthError)
    (hi : m.onMaster = true → i ≤ m.masterList.length)
    (hnew : m.onMaster = true → NewItems m items) (hperm : shuffledItems.Perm items)
    (hsize : (m.active.take i ++ items ++ m.active.drop i).length ≤ vecMaxSize)
    {fix : PlaylistManager → Checked PlaylistManager}
    (hfix : m.onMaster = true → SetsCurrent E m i fix) :
    Meets ((m.setActiveList (m.active.take i ++ items ++ m.active.drop i)).whenMaster fun m => do
        let m ← m.appendToShuffleList shuffledItems
        fix m) E fun m' => m'.toItemHeap = m.toItemHeap ∧
      Outcome m (m.active.take i ++ items ++ m.active.drop i) (m.shuffleList ++ shuffledItems)
        True (fun _ => True) m' := by
  unfold whenMaster
  rw [onMaster_setActiveList]
  cases hm : m.onMaster with
  | false =>
    simp only [Bool.false_eq_true, if_false, Meets.pure_iff]
    exact ⟨rfl, .ofExternal hs hm hsize (by rw [setActiveList_external (hs.activeList_external hm)]) trivial⟩
  | true =>
    simp only [if_true, Meets.bind_iff]
    have hroom : m.shuffleList.length + shuffledItems.length ≤ vecMaxSize ∨ E .lengthError := by
      rw [hs.perm.length_eq, hperm.length_eq, ← hs.active_eq hm]
      exact hlen
    rw [setActiveList_master (hs.activeList_master hm)]
    refine (appendToShuffleList_meets
      (m := { m with masterList := m.active.take i ++ items ++ m.active.drop i })
      hroom).mono ?_
    rintro m₂ rfl
    rw [hs.active_eq hm] at hsize ⊢
    have hs₂ := inserted_sound hs (hnew hm) hperm hsize
    have hlen₂ : i ≤ (m.inserted i items shuffledItems).masterList.length := by
      have hfront := hi hm
      simp only [inserted, List.length_append, List.length_take, List.length_drop]
      omega
    refine (hfix hm (m.inserted i items shuffledItems) hs₂ hm hlen₂ rfl).mono ?_
    rintro m' ⟨honly, hfirst, hsame⟩
    have hkeep : m.CurrentOk → m.masterList ≠ [] →
        m'.CurrentOk ∧ m'.getCurrentItem = m.getCurrentItem := by
      intro hok hne
      rcases Playlists.getCurrentItem_ok hs hok.2 with ⟨hnil, -⟩ | ⟨x, hnull, hplay, hmem, hx⟩
      · exact absurd hnil hne
      · rw [hx]
        have hmem₂ : x ∈ (m.inserted i items shuffledItems).masterList :=
          (insert_perm _ _ _).mem_iff.mpr (List.mem_append_left _ hmem)
        exact hsame x hx hnull hmem₂ (hok.2 hne) fun hfront => inserted_playing hplay hfront
    refine ⟨honly.heap, .ofMaster hm (by rfl) (.inl (by rfl)) hs₂ honly ?_
      (fun hok hne _ => (hkeep hok hne).2) trivial⟩
    intro hok
    rcases eq_or_ne m.masterList [] with hnil | hne
    · exact hfirst (hok.1 hnil)
    · exact (hkeep hok hne).1

/-- What `RetrieveMetaData` leaves, when it is asked for at all. -/
def Queried (m : PlaylistManager) (E : Fault → Prop) (R : ItemHeap → Prop)
    (queryForMetaData : Bool) (items : List Ptr) : Prop :=
  if queryForMetaData then Meets (m.toItemHeap.retrieveMetaData items) E R else R m.toItemHeap

/-- The step on the items that the adding functions end with. -/
theorem queryMetaData_meets {items : List Ptr} {queryForMetaData : Bool}
    (hheap : m'.toItemHeap = m.toItemHeap)
    (hout : Outcome m list shuffled keeps (fun _ => True) m')
    (hR : Queried m E R queryForMetaData items) :
    Meets (m'.queryMetaData queryForMetaData items) E (Outcome m list shuffled keeps R) := by
  unfold queryMetaData
  unfold Queried at hR
  rw [hheap]
  cases queryForMetaData with
  | true =>
    simp only [if_true, onHeap_iff] at hR ⊢
    exact hR.mono fun heap hheap' => hout.onItems rfl hheap'
  | false =>
    simp only [Bool.false_eq_true, if_false, Meets.pure_iff] at hR ⊢
    refine hout.onItems rfl ?_
    rw [hheap]
    exact hR

theorem addItem_null {queryForMetaData : Bool} :
    m.addItem null queryForMetaData = .ok (.invalidParam, m) := by
  unfold addItem
  rw [if_neg (not_not.mpr rfl)]
  rfl

theorem addItem_meets (hs : m.Sound) (hlen : E .lengthError) {item : Ptr}
    {queryForMetaData : Bool} (hnull : item ≠ null)
    (hnew : m.onMaster = true → NewItems m [item])
    (hR : Queried m E R queryForMetaData [item]) :
    Meets (m.addItem item queryForMetaData) E fun r =>
      Outcome m (m.active ++ [item]) (m.shuffleList ++ [item]) True R r.2 := by
  unfold addItem
  rw [if_pos hnull, Meets.bind_iff]
  refine (insertItems_meets (.inr hlen) (Nat.le_refl _)).mono ?_
  rintro list ⟨rfl, hsize⟩
  have hend : m.active.take m.active.length ++ [item] ++ m.active.drop m.active.length =
      m.active ++ [item] := by
    simp
  rw [Meets.bind_iff]
  refine (insert_meets hs (.inr hlen) ?_ hnew (List.Perm.refl _) hsize ?_).mono ?_
  · intro hm
    rw [hs.active_eq hm]
  · intro hm
    rw [hs.active_eq hm]
    exact firstCurrent_setsCurrent
  · rintro m' ⟨hheap, hout⟩
    rw [hend] at hout
    rw [Meets.bind_iff]
    exact (queryMetaData_meets hheap hout hR).mono fun m'' h => h.onItems rfl h.heap

/-- The adding functions shuffle the items only for the shuffle list. -/
theorem shuffleItems_meets {items : List Ptr} {draws : List Rand} {onMaster : Bool}
    (hdraw : (onMaster = true → ∃ shuffled, shuffleIt items draws = .ok shuffled) ∨
      E .drawing) :
    Meets (if onMaster = true then shuffleIt items draws else pure items) E
      fun items' => items'.Perm items := by
  cases onMaster with
  | true =>
    have hmeets := @shuffleIt_perm (fun f => f = .drawing) rfl items draws
    simp only [if_true]
    rcases hdraw with hends | hE
    · obtain ⟨shuffled, hshuffled⟩ := hends rfl
      rw [hshuffled]
      exact hmeets.of_ok hshuffled
    · refine Meets.intro (fun shuffled h => hmeets.of_ok h) fun f hf => ?_
      rw [hmeets.of_error hf]
      exact hE
  | false => exact List.Perm.refl _

theorem addItems_meets (hs : m.Sound) {items : List Ptr} {queryForMetaData : Bool}
    {draws : List Rand} (hlen : m.active.length + items.length ≤ vecMaxSize ∨ E .lengthError)
    (hdraw : (m.onMaster = true → ∃ shuffled, shuffleIt items draws = .ok shuffled) ∨
      E .drawing)
    (hnew : m.onMaster = true → NewItems m items)
    (hR : ∀ items', items'.Perm items → Queried m E R queryForMetaData items') :
    Meets (m.addItems items queryForMetaData draws) E fun r => r.2.1.Perm items ∧
      Outcome m (m.active ++ items) (m.shuffleList ++ r.2.1) True R r.2.2 := by
  unfold addItems
  rw [Meets.bind_iff]
  refine (insertItems_meets hlen (Nat.le_refl _)).mono ?_
  rintro list ⟨rfl, hsize⟩
  have hend : m.active.take m.active.length ++ items ++ m.active.drop m.active.length =
      m.active ++ items := by
    simp
  simp only [Meets.bind_iff]
  rw [onMaster_setActiveList]
  refine (shuffleItems_meets hdraw).mono ?_
  intro items' hperm
  refine (insert_meets hs hlen ?_ hnew hperm hsize ?_).mono ?_
  · intro hm
    rw [hs.active_eq hm]
  · intro hm
    rw [hs.active_eq hm]
    exact firstCurrent_setsCurrent
  · rintro m' ⟨hheap, hout⟩
    rw [hend] at hout
    refine (queryMetaData_meets hheap hout (hR items' hperm)).mono fun m'' h => ?_
    exact ⟨hperm, h.onItems rfl h.heap⟩

theorem insertIndex_ne (hs : m.Sound) (index : Nat) :
    (if m.active.length < index then m.active.length else index) ≠ kInvalidIndex := by
  have hsize := hs.active_size
  rw [vecMaxSize_eq] at hsize
  rw [kInvalidIndex_eq]
  split <;> omega

theorem insertIndex_le (index : Nat) :
    (if m.active.length < index then m.active.length else index) ≤ m.active.length := by
  split <;> omega

/-- Where the items are put is the same for an index past the end. -/
theorem insertIndex_list (index : Nat) (items : List Ptr) :
    m.active.take (if m.active.length < index then m.active.length else index) ++ items ++
      m.active.drop (if m.active.length < index then m.active.length else index) =
    m.active.take index ++ items ++ m.active.drop index := by
  split
  · rename_i hpast
    have hle := Nat.le_of_lt hpast
    rw [List.take_of_length_le hle, List.drop_of_length_le hle,
      List.take_of_length_le (Nat.le_refl _), List.drop_of_length_le (Nat.le_refl _)]
  · rfl

theorem addItemAt_null {index : Nat} {queryForMetaData : Bool} :
    m.addItemAt null index queryForMetaData = .ok (.invalidParam, m) := by
  unfold addItemAt
  rw [if_neg fun h => h.1 rfl]
  rfl

theorem addItemAt_meets (hs : m.Sound) (hcur : m.CurrentValid ∨ E .badCurrent)
    (hlen : E .lengthError) {item : Ptr} {index : Nat} {queryForMetaData : Bool}
    (hnull : item ≠ null) (hnew : m.onMaster = true → NewItems m [item])
    (hR : Queried m E R queryForMetaData [item]) :
    Meets (m.addItemAt item index queryForMetaData) E fun r =>
      Outcome m (m.active.take index ++ [item] ++ m.active.drop index)
        (m.shuffleList ++ [item]) True R r.2 := by
  unfold addItemAt
  rw [if_pos ⟨hnull, insertIndex_ne hs index⟩, Meets.bind_iff]
  refine (getCurrentItem_meets hs hcur).mono ?_
  intro currentItem hitem
  rw [Meets.bind_iff]
  refine (insertItems_meets (.inr hlen) (insertIndex_le index)).mono ?_
  rintro list ⟨rfl, hsize⟩
  rw [Meets.bind_iff]
  refine (insert_meets hs (.inr hlen) ?_ hnew (List.Perm.refl _) hsize ?_).mono ?_
  · intro hm
    rw [← hs.active_eq hm]
    exact insertIndex_le index
  · intro _
    exact keepCurrent_setsCurrent hs hitem
  · rintro m' ⟨hheap, hout⟩
    rw [insertIndex_list] at hout
    rw [Meets.bind_iff]
    exact (queryMetaData_meets hheap hout hR).mono fun m'' h => h.onItems rfl h.heap

theorem addItemsAt_meets (hs : m.Sound) (hcur : m.CurrentValid ∨ E .badCurrent)
    {items : List Ptr} {index : Nat} {queryForMetaData : Bool} {draws : List Rand}
    (hlen : m.active.length + items.length ≤ vecMaxSize ∨ E .lengthError)
    (hdraw : (m.onMaster = true → ∃ shuffled, shuffleIt items draws = .ok shuffled) ∨
      E .drawing)
    (hnew : m.onMaster = true → NewItems m items)
    (hR : ∀ items', items'.Perm items → Queried m E R queryForMetaData items') :
    Meets (m.addItemsAt items index queryForMetaData draws) E fun r => r.2.1.Perm items ∧
      Outcome m (m.active.take index ++ items ++ m.active.drop index)
        (m.shuffleList ++ r.2.1) True R r.2.2 := by
  unfold addItemsAt
  rw [if_pos (insertIndex_ne hs index), Meets.bind_iff]
  refine (getCurrentItem_meets hs hcur).mono ?_
  intro currentItem hitem
  rw [Meets.bind_iff]
  refine (insertItems_meets hlen (insertIndex_le index)).mono ?_
  rintro list ⟨rfl, hsize⟩
  simp only [Meets.bind_iff]
  rw [onMaster_setActiveList]
  refine (shuffleItems_meets hdraw).mono ?_
  intro items' hperm
  refine (insert_meets hs hlen ?_ hnew hperm hsize ?_).mono ?_
  · intro hm
    rw [← hs.active_eq hm]
    exact insertIndex_le index
  · intro _
    exact keepCurrent_setsCurrent hs hitem
  · rintro m' ⟨hheap, hout⟩
    rw [insertIndex_list] at hout
    refine (queryMetaData_meets hheap hout (hR items' hperm)).mono fun m'' h => ?_
    exact ⟨hperm, h.onItems rfl h.heap⟩

end PlaylistManager

end FreeAmp.Base
