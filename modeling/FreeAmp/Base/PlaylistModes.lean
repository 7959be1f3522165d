/-
  Base/PlaylistModes.lean --- what the functions do that change the track but not the
  playlist.

  `GotoNextItem`, `GotoPreviousItem`, `SetCurrentIndex` and `SetShuffleMode` set the
  current index and may shuffle the shuffle list.  They can be called while the
  external playlist is active, and are about the master playlist nevertheless; two
  of them mix the two playlists up, which is why their lemmas say precisely which
  index they set.
-/
import FreeAmp.Base.PlaylistMoves

namespace FreeAmp.Base

open FreeAmp.Lib

namespace Playlists

/-! ## The next and the previous index -/

/-- The current index after `GotoNextItem(userAction)`. -/
def nextIndex (p : Playlists) (userAction : Bool) : Nat :=
  if p.masterList = [] then kInvalidIndex
  else if p.repeatMode = .repeatOne ∧ userAction = false then p.current
  else if toUint32 (p.current + 1) < p.masterList.length then toUint32 (p.current + 1)
  else if p.repeatMode = .repeatAll ∨ userAction = true then 0
  else p.current

/-- The current index after `GotoPreviousItem(userAction)`. -/
def previousIndex (p : Playlists) (userAction : Bool) : Nat :=
  if p.masterList = [] then kInvalidIndex
  else if p.repeatMode = .repeatOne ∧ userAction = false then p.current
  else if p.current ≠ 0 then predUint32 p.current
  else if p.repeatMode = .repeatAll ∨ userAction = true then predUint32 p.masterList.length
  else p.current

/-- `GotoNextItem(userAction)` begins a new round, and shuffles for it. -/
def nextWraps (p : Playlists) (userAction : Bool) : Prop :=
  p.masterList ≠ [] ∧ p.masterList.length ≤ toUint32 (p.current + 1) ∧
    (p.repeatMode = .repeatAll ∨ userAction = true)

/-- `GotoPreviousItem(userAction)` goes back to the round before. -/
def previousWraps (p : Playlists) (userAction : Bool) : Prop :=
  p.masterList ≠ [] ∧ p.current = 0 ∧ (p.repeatMode = .repeatAll ∨ userAction = true)

end Playlists

namespace PlaylistManager

variable {E : Fault → Prop} {R : ItemHeap → Prop} {m m' m₂ : PlaylistManager}

/-! ## Turning to another track -/

/-- The current index, the shuffle mode and the order of the shuffle list have changed, and
nothing else has. -/
structure Turned (m m' : PlaylistManager) : Prop where
  lists : m'.toPlaylists = { m.toPlaylists with
    shuffleList := m'.shuffleList
    current := m'.current
    shuffle := m'.shuffle }
  perm : m'.shuffleList.Perm m.shuffleList
  heap : m'.toItemHeap = m.toItemHeap
  fits : m'.current = m.current ∨ m'.current ≤ kInvalidIndex

namespace Turned

theorem sound (h : Turned m m') (hs : m.Sound) : m'.Sound := by
  rw [h.lists]
  exact { hs with perm := h.perm.trans hs.perm }

theorem masterList (h : Turned m m') : m'.masterList = m.masterList := by
  rw [h.lists]

theorem onMaster (h : Turned m m') : m'.onMaster = m.onMaster := by
  rw [h.lists]
  rfl

theorem active (h : Turned m m') : m'.active = m.active := by
  rw [h.lists]
  rfl

theorem of_onlyCurrent (h : OnlyCurrent m m') : Turned m m' where
  lists := by
    rw [h.lists]
  perm := by
    rw [h.lists]
  heap := h.heap
  fits := h.fits

end Turned

theorem OnlyCurrent.shuffle (h : OnlyCurrent m m') : m'.shuffle = m.shuffle := by
  rw [h.lists]

theorem OnlyCurrent.shuffleList (h : OnlyCurrent m m') : m'.shuffleList = m.shuffleList := by
  rw [h.lists]

theorem shuffleShuffleList_meets (hdraw : E .drawing) (draws : List Rand) :
    Meets (m.shuffleShuffleList draws) E fun m' =>
      m' = { m with shuffleList := m'.shuffleList } ∧ m'.shuffleList.Perm m.shuffleList := by
  unfold shuffleShuffleList
  rw [Meets.bind_iff]
  refine (shuffleIt_perm hdraw _ _).mono fun shuffled hperm => ?_
  exact ⟨rfl, hperm⟩

theorem reshuffle_meets (hdraw : E .drawing) (draws : List Rand) :
    Meets (if m.shuffle = true then m.shuffleShuffleList draws else pure m) E fun m' =>
      m' = { m with shuffleList := m'.shuffleList } ∧ m'.shuffleList.Perm m.shuffleList ∧
        (m.shuffle = false → m' = m) := by
  split
  · rename_i hon
    refine (shuffleShuffleList_meets hdraw draws).mono fun m' h => ⟨h.1, h.2, ?_⟩
    intro hoff
    rw [hon] at hoff
    simp at hoff
  · exact ⟨rfl, .refl _, fun _ => rfl⟩

/-- What `GotoNextItem` and `GotoPreviousItem` do when they wrap. -/
theorem wrap_meets (hs : m.Sound) (hdraw : E .drawing) {draws : List Rand} {i : Nat}
    (hi : i < m.masterList.length) :
    Meets (do
        let m ← (if m.shuffle then m.shuffleShuffleList draws else pure m)
        m.internalSetCurrentIndex i) E fun m' =>
      Turned m m' ∧ m'.shuffle = m.shuffle ∧ m'.current = i := by
  rw [Meets.bind_iff]
  refine (reshuffle_meets hdraw draws).mono ?_
  rintro m₂ ⟨hm₂, hperm, -⟩
  have hs₂ : m₂.Sound := by
    rw [hm₂]
    exact { hs with perm := hperm.trans hs.perm }
  have hlt : i < m₂.playing.length := by
    rw [hs₂.playing_length, hm₂]
    exact hi
  refine (internalSetCurrentIndex_meets (.inr (.inr (.inl hlt)))
    (.inr (hs₂.index_le hlt))).mono ?_
  rintro m' ⟨honly, hcur⟩
  have hlist : m'.shuffleList = m₂.shuffleList := honly.shuffleList
  refine ⟨⟨?_, ?_, ?_, honly.fits_trans (.inl ?_)⟩, ?_, hcur⟩
  · rw [honly.lists, hm₂]
  · rw [hlist]
    exact hperm
  · rw [honly.heap, hm₂]
  · rw [hm₂]
  · rw [honly.shuffle, hm₂]

/-- `InternalSetCurrentIndex` to a place that is no worse than the current one. -/
theorem turn_meets (hs : m.Sound) {i : Nat}
    (hi : i < m.masterList.length ∨ i = kInvalidIndex ∨ E .badCurrent)
    (hfits : i = m.current ∨ i ≤ kInvalidIndex) :
    Meets (m.internalSetCurrentIndex i) E fun m' =>
      Turned m m' ∧ m'.shuffle = m.shuffle ∧ m'.shuffleList = m.shuffleList ∧
        m'.current = i := by
  have hi' : i = kInvalidIndex ∨ m.masterList = [] ∨ i < m.playing.length ∨ E .badCurrent := by
    rw [hs.playing_length]
    rcases hi with hlt | hinvalid | hE
    · exact .inr (.inr (.inl hlt))
    · exact .inl hinvalid
    · exact .inr (.inr (.inr hE))
  refine (internalSetCurrentIndex_meets hi' hfits).mono ?_
  rintro m' ⟨honly, hcur⟩
  exact ⟨.of_onlyCurrent honly, honly.shuffle, honly.shuffleList, hcur⟩

theorem turned_nothing : Turned m { m with current := kInvalidIndex } :=
  ⟨rfl, .refl _, rfl, .inr (Nat.le_refl _)⟩

theorem current_index_ok (hcur : m.CurrentValid ∨ E .badCurrent) (hne : m.masterList ≠ []) :
    m.current < m.masterList.length ∨ m.current = kInvalidIndex ∨ E .badCurrent := by
  rcases hcur with hok | hE
  · exact .inl (hok hne)
  · exact .inr (.inr hE)

theorem turn_goes (hs : m.Sound) {i : Nat} {wraps : Prop}
    (hi : i < m.masterList.length ∨ i = kInvalidIndex ∨ E .badCurrent)
    (hfits : i = m.current ∨ i ≤ kInvalidIndex) :
    Meets (m.internalSetCurrentIndex i) E fun m' =>
      Turned m m' ∧ m'.shuffle = m.shuffle ∧ m'.current = i ∧
        (¬ wraps → m'.shuffleList = m.shuffleList) :=
  (turn_meets hs hi hfits).mono fun _ h => ⟨h.1, h.2.1, h.2.2.2, fun _ => h.2.2.1⟩

/-- Both stay where they are when one item is repeated and the user has not asked. -/
theorem stays_iff {repeatMode : RepeatMode} {userAction : Bool} :
    ¬ (repeatMode ≠ .repeatOne ∨ userAction = true) ↔
      repeatMode = .repeatOne ∧ userAction = false := by
  rw [not_or, not_not, Bool.not_eq_true]

theorem gotoNextItem_meets (hs : m.Sound) {userAction : Bool} {draws : List Rand}
    (hdraw : m.nextWraps userAction → E .drawing) (hcur : m.CurrentValid ∨ E .badCurrent) :
    Meets (m.gotoNextItem userAction draws) E fun m' =>
      Turned m m' ∧ m'.shuffle = m.shuffle ∧ m'.current = m.nextIndex userAction ∧
        (¬ m.nextWraps userAction → m'.shuffleList = m.shuffleList) := by
  unfold gotoNextItem Playlists.nextIndex Playlists.nextWraps
  rcases eq_or_ne m.masterList [] with hnil | hne
  · have hlen : m.masterList.length = 0 := by rw [hnil, List.length_nil]
    simp only [if_neg (not_not.mpr hlen), if_pos hnil]
    exact ⟨turned_nothing, rfl, rfl, fun _ => rfl⟩
  · have hlen : m.masterList.length ≠ 0 := fun h => hne (List.length_eq_zero_iff.mp h)
    have hstay := current_index_ok hcur hne
    simp only [if_pos hlen, if_neg hne]
    split
    · rename_i hgo
      rw [if_neg fun hstays => stays_iff.mpr hstays hgo]
      split
      · rename_i hwrap
        rw [if_neg (Nat.not_lt.mpr hwrap.1), if_pos hwrap.2]
        refine (wrap_meets hs (hdraw ⟨hne, hwrap⟩) (Nat.pos_of_ne_zero hlen)).mono ?_
        rintro m' ⟨hturned, hshuffle, hindex⟩
        exact ⟨hturned, hshuffle, hindex, fun hnot => absurd ⟨hne, hwrap⟩ hnot⟩
      · rename_i hnowrap
        split
        · rename_i hlast
          have hmode : ¬ (m.repeatMode = .repeatAll ∨ userAction = true) :=
            fun h => hnowrap ⟨hlast, h⟩
          rw [if_neg (Nat.not_lt.mpr hlast), if_neg hmode]
          exact turn_goes hs hstay (.inl rfl)
        · rename_i hmore
          rw [if_pos (Nat.not_le.mp hmore)]
          exact turn_goes hs (.inl (Nat.not_le.mp hmore)) (.inr (toUint32_le _))
    · rename_i hone
      rw [if_pos (stays_iff.mp hone)]
      exact turn_goes hs hstay (.inl rfl)

theorem gotoPreviousItem_meets (hs : m.Sound) {userAction : Bool} {draws : List Rand}
    (hdraw : m.previousWraps userAction → E .drawing)
    (hcur : m.CurrentValid ∨ E .badCurrent) :
    Meets (m.gotoPreviousItem userAction draws) E fun m' =>
      Turned m m' ∧ m'.shuffle = m.shuffle ∧ m'.current = m.previousIndex userAction ∧
        (¬ m.previousWraps userAction → m'.shuffleList = m.shuffleList) := by
  unfold gotoPreviousItem Playlists.previousIndex Playlists.previousWraps
  rcases eq_or_ne m.masterList [] with hnil | hne
  · have hlen : m.masterList.length = 0 := by rw [hnil, List.length_nil]
    simp only [if_neg (not_not.mpr hlen), if_pos hnil]
    exact ⟨turned_nothing, rfl, rfl, fun _ => rfl⟩
  · have hlen : m.masterList.length ≠ 0 := fun h => hne (List.length_eq_zero_iff.mp h)
    have hstay := current_index_ok hcur hne
    have hlt := hs.length_lt
    rw [kInvalidIndex_eq] at hlt
    simp only [if_pos hlen, if_neg hne]
    split
    · rename_i hgo
      rw [if_neg fun hstays => stays_iff.mpr hstays hgo]
      split
      · rename_i hwrap
        rw [if_neg (not_not.mpr hwrap.1), if_pos hwrap.2]
        have hlast : predUint32 m.masterList.length < m.masterList.length := by
          rw [predUint32_of_pos (Nat.pos_of_ne_zero hlen) (by omega)]
          omega
        refine (wrap_meets hs (hdraw ⟨hne, hwrap⟩) hlast).mono ?_
        rintro m' ⟨hturned, hshuffle, hindex⟩
        exact ⟨hturned, hshuffle, hindex, fun hnot => absurd ⟨hne, hwrap⟩ hnot⟩
      · rename_i hnowrap
        split
        · rename_i hback
          have hback' : predUint32 m.current < m.masterList.length ∨
              predUint32 m.current = kInvalidIndex ∨ E .badCurrent := by
            rcases hcur with hok | hE
            · have hin := hok hne
              rw [predUint32_of_pos (Nat.pos_of_ne_zero hback) (by omega)]
              exact .inl (by omega)
            · exact .inr (.inr hE)
          have hfits := predUint32_le m.current
          generalize predUint32 m.current = i at hback' hfits ⊢
          exact turn_goes hs hback' (.inr hfits)
        · rename_i hfirst
          have hmode : ¬ (m.repeatMode = .repeatAll ∨ userAction = true) :=
            fun h => hnowrap ⟨not_not.mp hfirst, h⟩
          rw [if_neg hmode]
          exact turn_goes hs hstay (.inl rfl)
    · rename_i hone
      rw [if_pos (stays_iff.mp hone)]
      exact turn_goes hs hstay (.inl rfl)

/-! ## Setting the current index -/

/-- The index that `SetCurrentIndex(index)` sets. -/
def setIndex (p : Playlists) (index : Nat) : Nat :=
  if p.shuffle then internalIndexOf p.shuffleList (p.itemAt (p.checkIndex index))
  else p.checkIndex index

/-- It is an index into the list being played. -/
def SetsValid (p : Playlists) (index : Nat) : Prop :=
  index < p.active.length ∧
    if p.shuffle then p.itemAt index ∈ p.shuffleList else index < p.masterList.length

instance (p : Playlists) (index : Nat) : Decidable (SetsValid p index) := by
  unfold SetsValid
  infer_instance

theorem setIndex_le (p : Playlists) (index : Nat) : setIndex p index ≤ kInvalidIndex := by
  unfold setIndex
  split
  · exact internalIndexOf_le _ _
  · exact p.checkIndex_le index

theorem setIndex_past (hs : m.Sound) {index : Nat} (hi : m.active.length ≤ index) :
    setIndex m.toPlaylists index = kInvalidIndex := by
  have hinvalid : m.itemAt kInvalidIndex = null := by
    refine Playlists.itemAt_invalid hs.active_size ?_
    have hsize := hs.active_size
    rw [vecMaxSize_eq] at hsize
    rw [kInvalidIndex_eq]
    omega
  unfold setIndex
  rw [Playlists.checkIndex_of_ge hs.active_size hi, hinvalid, internalIndexOf_null, ite_self]

theorem setIndex_lt_iff (hs : m.Sound) {index : Nat} :
    setIndex m.toPlaylists index < m.masterList.length ↔ SetsValid m.toPlaylists index := by
  unfold SetsValid
  rcases Nat.lt_or_ge index m.active.length with hlt | hge
  · unfold setIndex
    rw [Playlists.checkIndex_of_lt hs.active_size hlt]
    simp only [hlt, true_and]
    split
    · have hlen := hs.perm.length_eq
      rw [← hlen, internalIndexOf_lt_iff hs.shuffle_size]
      constructor
      · exact fun h => h.2
      · refine fun hmem => ⟨fun hnull => ?_, hmem⟩
        rw [hnull] at hmem
        exact hs.nonnull (hs.perm.mem_iff.mp hmem)
    · exact Iff.rfl
  · rw [setIndex_past hs hge]
    constructor
    · intro hlt
      exact absurd hlt (Nat.not_lt.mpr (Nat.le_of_lt hs.length_lt))
    · intro h
      exact absurd h.1 (Nat.not_lt.mpr hge)

theorem setCurrentIndex_sets (hs : m.Sound) {index : Nat}
    (hi : SetsValid m.toPlaylists index ∨ m.masterList = [] ∨ E .badCurrent) :
    Meets (m.setCurrentIndex index) E fun m' =>
      OnlyCurrent m m' ∧ m'.current = setIndex m.toPlaylists index := by
  refine internalSetCurrentIndex_meets (m := m) ?_ (.inr (setIndex_le _ index))
  rw [hs.playing_length]
  rcases hi with hvalid | hnil | hE
  · exact .inr (.inr (.inl ((setIndex_lt_iff hs).mpr hvalid)))
  · exact .inr (.inl hnil)
  · exact .inr (.inr (.inr hE))

/-! ## The shuffle mode -/

/-- `SetShuffleMode` looks for the current item in the list that is played from now on, but
with shuffling off it looks in the active list. -/
theorem setShuffleMode_meets (hs : m.Sound) (hdraw : E .drawing)
    (hcur : m.CurrentValid ∨ E .badCurrent) {shuffle : Bool} {draws : List Rand} :
    Meets (m.setShuffleMode shuffle draws) E fun m' =>
      Turned m m' ∧ m'.shuffle = shuffle ∧ (m.masterList = [] → m'.current = m.current) ∧
        ∀ x, m.masterList ≠ [] → m.getCurrentItem = .ok x →
          m'.current = internalIndexOf (if shuffle then m'.shuffleList else m.active) x := by
  unfold setShuffleMode
  rw [Meets.bind_iff]
  refine (getCurrentItem_meets hs hcur).mono ?_
  intro currentItem hcurrent
  have hcases := current_cases hs hcurrent
  cases shuffle with
  | true =>
    simp only [if_true, Meets.bind_iff]
    refine (shuffleShuffleList_meets (m := { m with shuffle := true }) hdraw draws).mono ?_
    rintro m₂ ⟨hm₂, hperm⟩
    split
    · rename_i hnull
      have hne : m.masterList ≠ [] := by
        rcases hcases with ⟨-, hnil⟩ | ⟨hne, -⟩
        · exact absurd hnil hnull
        · exact hne
      refine ⟨⟨?_, hperm, ?_, .inr (internalIndexOf_le _ _)⟩, ?_,
        fun hnil => absurd hnil hne, fun x _ hx => ?_⟩
      · rw [hm₂]
        rfl
      · rw [hm₂]
        rfl
      · rw [hm₂]
        rfl
      · rw [hcurrent] at hx
        obtain rfl := Except.ok.inj hx
        rfl
    · rename_i hnull
      have hnil : m.masterList = [] := by
        rcases hcases with ⟨hnil, -⟩ | ⟨-, hne, -⟩
        · exact hnil
        · exact absurd hne hnull
      refine ⟨⟨?_, hperm, ?_, .inl ?_⟩, ?_, fun _ => ?_, fun x hne => absurd hnil hne⟩
      · rw [hm₂]
        rfl
      · rw [hm₂]
        rfl
      · rw [hm₂]
        rfl
      · rw [hm₂]
        rfl
      · rw [hm₂]
        rfl
  | false =>
    simp only [Bool.false_eq_true, if_false, Meets.pure_iff]
    split
    · rename_i hnull
      have hne : m.masterList ≠ [] := by
        rcases hcases with ⟨-, hnil⟩ | ⟨hne, -⟩
        · exact absurd hnil hnull
        · exact hne
      refine ⟨⟨rfl, .refl _, rfl, .inr (internalIndexOf_le _ _)⟩, rfl,
        fun hnil => absurd hnil hne, fun x _ hx => ?_⟩
      rw [hcurrent] at hx
      obtain rfl := Except.ok.inj hx
      rfl
    · rename_i hnull
      have hnil : m.masterList = [] := by
        rcases hcases with ⟨hnil, -⟩ | ⟨-, hne, -⟩
        · exact hnil
        · exact absurd hne hnull
      exact ⟨⟨rfl, .refl _, rfl, .inl rfl⟩, rfl, fun _ => rfl, fun x hne => absurd hnil hne⟩

end PlaylistManager

end FreeAmp.Base
