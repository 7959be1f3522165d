/-
  Base/PlaylistCurrent.lean --- the steps that set the current index.

  What the editing functions do at their end to find the current item again, each
  with one lemma that says everything it can do to a manager whose master playlist
  is active and whose lists are sound.  None of them faults there; what can fault
  is `GetCurrentItem` at the head of an editing function, when `m_current` has been
  lost before.
-/
import FreeAmp.Base.PlaylistLists

namespace FreeAmp.Base

open FreeAmp.Lib

namespace PlaylistManager

variable {E : Fault → Prop} {m m' : PlaylistManager}

/-- Only `m_current`, and the events, have changed. -/
structure OnlyCurrent (m m' : PlaylistManager) : Prop where
  lists : m'.toPlaylists = { m.toPlaylists with current := m'.current }
  heap : m'.toItemHeap = m.toItemHeap
  fits : m'.current = m.current ∨ m'.current ≤ kInvalidIndex

namespace OnlyCurrent

theorem rfl' : OnlyCurrent m m := ⟨rfl, rfl, .inl rfl⟩

theorem fits_trans {m₂ : PlaylistManager} (h : OnlyCurrent m₂ m')
    (h₂ : m₂.current = m.current ∨ m₂.current ≤ kInvalidIndex) :
    m'.current = m.current ∨ m'.current ≤ kInvalidIndex := by
  rcases h.fits with hsame | hle
  · rw [hsame]
    exact h₂
  · exact .inr hle

theorem masterList (h : OnlyCurrent m m') : m'.masterList = m.masterList := by
  rw [h.lists]

theorem playing (h : OnlyCurrent m m') : m'.playing = m.playing := by
  rw [h.lists]
  rfl

theorem sound (h : OnlyCurrent m m') (hs : m.Sound) : m'.Sound := by
  rw [h.lists]
  exact { hs with }

end OnlyCurrent

/-! ## Reading the current item -/

theorem getCurrentItem_meets (hs : m.Sound) (hcur : m.CurrentValid ∨ E .badCurrent) :
    Meets m.getCurrentItem E fun x => m.getCurrentItem = .ok x := by
  refine Meets.intro (fun x hx => hx) fun f hf => ?_
  rcases hcur with hok | hE
  · rcases Playlists.getCurrentItem_ok hs hok with ⟨-, hx⟩ | ⟨x, -, -, -, hx⟩
    · rw [hx] at hf
      simp at hf
    · rw [hx] at hf
      simp at hf
  · unfold Playlists.getCurrentItem at hf
    split at hf
    · split at hf
      · simp at hf
      · obtain rfl := by simpa using hf
        exact hE
    · simp at hf

theorem current_cases (hs : m.Sound) {x : Ptr} (hx : m.getCurrentItem = .ok x) :
    (m.masterList = [] ∧ x = null) ∨
      (m.masterList ≠ [] ∧ x ≠ null ∧ m.playing[m.current]? = some x ∧ x ∈ m.masterList ∧
        m.current ≠ kInvalidIndex) := by
  rcases eq_or_ne m.masterList [] with hnil | hne
  · rw [Playlists.getCurrentItem_empty hnil] at hx
    exact .inl ⟨hnil, by simpa using hx.symm⟩
  · have hplay := (Playlists.getCurrentItem_eq_iff hs hne).mp hx
    have hlt := (List.getElem?_eq_some_iff.mp hplay).1
    rw [hs.playing_length] at hlt
    exact .inr ⟨hne, hs.playing_nonnull hplay, hplay, hs.current_mem hplay,
      Nat.ne_of_lt (Nat.lt_trans hlt hs.length_lt)⟩

/-! ## Setting the current index -/

theorem internalSetCurrentIndex_meets {i : Nat}
    (hi : i = kInvalidIndex ∨ m.masterList = [] ∨ i < m.playing.length ∨ E .badCurrent)
    (hfits : i = m.current ∨ i ≤ kInvalidIndex) :
    Meets (m.internalSetCurrentIndex i) E fun m' => OnlyCurrent m m' ∧ m'.current = i := by
  unfold internalSetCurrentIndex
  simp only
  split
  · rename_i hvalid
    rw [Meets.bind_iff]
    refine Meets.intro (fun item hitem => ⟨⟨rfl, rfl, hfits⟩, rfl⟩) fun f hf => ?_
    unfold Playlists.getCurrentItem at hf
    split at hf
    · rename_i hne
      have hplaying : ({ m.toPlaylists with current := i } : Playlists).playing = m.playing := rfl
      simp only [hplaying] at hf
      split at hf
      · simp at hf
      · rename_i hnone
        obtain rfl := by simpa using hf
        rcases hi with hi | hi | hi | hE
        · exact absurd hi hvalid
        · exact absurd (congrArg List.length hi) hne
        · exact absurd (List.getElem?_eq_none_iff.mp hnone) (Nat.not_le.mpr hi)
        · exact hE
    · simp at hf
  · exact ⟨⟨rfl, rfl, hfits⟩, rfl⟩

theorem OnlyCurrent.at_index (h : OnlyCurrent m m') (hs : m.Sound) {x : Ptr}
    (hx : m.playing[m'.current]? = some x) :
    m'.CurrentOk ∧ m'.getCurrentItem = .ok x := by
  have hplay : m'.playing[m'.current]? = some x := by
    rw [h.playing]
    exact hx
  have hs' := h.sound hs
  have hlt := (List.getElem?_eq_some_iff.mp hplay).1
  rw [hs'.playing_length] at hlt
  refine ⟨⟨fun hnil => ?_, fun _ => hlt⟩, Playlists.getCurrentItem_of_getElem? hs' hplay⟩
  rw [hnil] at hlt
  simp at hlt

theorem OnlyCurrent.at_nothing (h : OnlyCurrent m m') (hnil : m.masterList = [])
    (hcur : m'.current = kInvalidIndex) : m'.CurrentOk := by
  refine ⟨fun _ => hcur, fun hne => ?_⟩
  rw [h.masterList] at hne
  exact absurd hnil hne

/-- `SetCurrentIndex` on the master playlist makes the item at the index the current one,
in both modes; out of range it leaves no current item. -/
theorem setCurrentIndex_meets (hs : m.Sound) (hm : m.onMaster = true) (i : Nat) :
    Meets (m.setCurrentIndex i) E fun m' => OnlyCurrent m m' ∧
      (m.masterList = [] ∨ i < m.masterList.length → m'.CurrentOk) ∧
      ∀ x, m.masterList[i]? = some x → m'.getCurrentItem = .ok x := by
  have hact := hs.active_eq hm
  have hsize := hs.active_size
  unfold setCurrentIndex
  simp only
  rcases Nat.lt_or_ge i m.masterList.length with hlt | hge
  · have hx := List.getElem?_eq_getElem hlt
    have hnull : m.masterList[i] ≠ null := fun h => hs.nonnull (h ▸ List.getElem_mem hlt)
    have hx' : m.active[i]? = some m.masterList[i] := by
      rw [hact]
      exact hx
    rw [Playlists.checkIndex_of_lt hsize (hact ▸ hlt), Playlists.itemAt_of_getElem? hsize hx']
    -- in both modes the item stands at the new index of the list being played
    have hplay : m.playing[if m.shuffle = true then internalIndexOf m.shuffleList m.masterList[i]
        else i]? = some m.masterList[i] := by
      unfold Playlists.playing
      split
      · exact getElem?_internalIndexOf hs.shuffle_size hnull
          (hs.perm.mem_iff.mpr (List.getElem_mem hlt))
      · exact hx
    have hrange := (List.getElem?_eq_some_iff.mp hplay).1
    refine (internalSetCurrentIndex_meets (.inr (.inr (.inl hrange)))
      (.inr (hs.index_le hrange))).mono ?_
    rintro m' ⟨honly, hcur⟩
    obtain ⟨hok, hitem⟩ := honly.at_index hs (by rw [hcur]; exact hplay)
    refine ⟨honly, fun _ => hok, fun x hx' => ?_⟩
    rw [hx] at hx'
    obtain rfl := Option.some.inj hx'
    exact hitem
  · have hinvalid : m.itemAt kInvalidIndex = null := by
      refine Playlists.itemAt_invalid hsize ?_
      rw [hact]
      exact Nat.le_of_lt hs.length_lt
    rw [Playlists.checkIndex_of_ge hsize (hact ▸ hge), hinvalid, internalIndexOf_null, ite_self]
    refine (internalSetCurrentIndex_meets (.inl rfl) (.inr (Nat.le_refl _))).mono ?_
    rintro m' ⟨honly, hcur⟩
    refine ⟨honly, ?_, ?_⟩
    · rintro (hnil | hlt)
      · exact honly.at_nothing hnil hcur
      · exact absurd hlt (Nat.not_lt.mpr hge)
    · intro x hx
      exact absurd (List.getElem?_eq_some_iff.mp hx).1 (Nat.not_lt.mpr hge)

/-- `SetCurrentIndex(IndexOf(item))` makes the item the current one, if it is there. -/
theorem setCurrentItem_meets (hs : m.Sound) (hm : m.onMaster = true) (x : Ptr) :
    Meets (m.setCurrentIndex (m.indexOf x)) E fun m' => OnlyCurrent m m' ∧
      (m.masterList = [] → m'.CurrentOk) ∧
      (x ≠ null → x ∈ m.masterList → m'.CurrentOk ∧ m'.getCurrentItem = .ok x) := by
  have hact := hs.active_eq hm
  refine (setCurrentIndex_meets hs hm _).mono ?_
  rintro m' ⟨honly, hok, hitem⟩
  refine ⟨honly, fun hnil => hok (.inl hnil), fun hnull hmem => ?_⟩
  have hx : m.masterList[m.indexOf x]? = some x := by
    unfold Playlists.indexOf
    rw [hact]
    exact getElem?_internalIndexOf hs.size hnull hmem
  exact ⟨hok (.inr (List.getElem?_eq_some_iff.mp hx).1), hitem x hx⟩

/-! ## After adding -/

theorem internalSetCurrentIndex_zero (hs : m.Sound) (hne : m.masterList.length ≠ 0) :
    Meets (m.internalSetCurrentIndex 0) E fun m' => OnlyCurrent m m' ∧ m'.CurrentOk := by
  have hpos : 0 < m.playing.length := by
    rw [hs.playing_length]
    exact Nat.pos_of_ne_zero hne
  refine (internalSetCurrentIndex_meets (.inr (.inr (.inl hpos)))
    (.inr (Nat.zero_le _))).mono ?_
  rintro m' ⟨honly, hcur⟩
  exact ⟨honly, (honly.at_index hs (by rw [hcur]; exact List.getElem?_eq_getElem hpos)).1⟩

theorem firstCurrent_meets (hs : m.Sound) (hm : m.onMaster = true) :
    Meets m.firstCurrent E fun m' => OnlyCurrent m m' ∧
      (m.current = kInvalidIndex → m'.CurrentOk) ∧
      (m.current ≠ kInvalidIndex → m'.current = m.current) := by
  have hact := hs.active_eq hm
  unfold firstCurrent
  rw [hact]
  split
  · rename_i hfirst
    refine (internalSetCurrentIndex_zero hs hfirst.2).mono ?_
    rintro m' ⟨honly, hcur⟩
    exact ⟨honly, fun _ => hcur, fun hne => absurd hfirst.1 hne⟩
  · rename_i hnot
    refine ⟨.rfl', fun hcur => ?_, fun _ => rfl⟩
    have hnil : m.masterList = [] := by simpa [hcur] using hnot
    exact OnlyCurrent.rfl'.at_nothing hnil hcur

theorem keepCurrent_meets (hs : m.Sound) (hm : m.onMaster = true) (i : Nat) (x : Ptr)
    (hi : i ≤ m.masterList.length) :
    Meets (m.keepCurrent i x) E fun m' => OnlyCurrent m m' ∧
      (m.current = kInvalidIndex → m'.CurrentOk) ∧
      (m.current ≠ kInvalidIndex → x ≠ null → x ∈ m.masterList →
        (m.current < i → m.playing[m.current]? = some x) →
          m'.CurrentOk ∧ m'.getCurrentItem = .ok x) := by
  have hact := hs.active_eq hm
  unfold keepCurrent
  rw [hact]
  split
  · rename_i hfirst
    refine (internalSetCurrentIndex_zero hs hfirst.2).mono ?_
    rintro m' ⟨honly, hcur⟩
    exact ⟨honly, fun _ => hcur, fun hne => absurd hfirst.1 hne⟩
  · rename_i hnot
    split
    · refine (setCurrentItem_meets hs hm x).mono ?_
      rintro m' ⟨honly, hempty, hfound⟩
      refine ⟨honly, fun hcur => ?_, fun _ hnull hmem _ => hfound hnull hmem⟩
      exact hempty (by simpa [hcur] using hnot)
    · rename_i hbefore
      refine ⟨.rfl', fun hcur => ?_, fun _ _ _ hplay => ?_⟩
      · have hlt := hs.length_lt
        rw [hcur] at hbefore
        omega
      · exact OnlyCurrent.rfl'.at_index hs (hplay (Nat.not_le.mp hbefore))

/-! ## After removing -/

/-- The item at an index, or the last one when the index is past the end. -/
def itemAtOrLast (list : List Ptr) (index : Nat) : Ptr :=
  list.getD (min index (list.length - 1)) null

theorem getElem?_min {list : List Ptr} (hne : list ≠ []) (index : Nat) :
    list[min index (list.length - 1)]? = some (itemAtOrLast list index) := by
  have hpos := List.length_pos_iff.mpr hne
  have hlt : min index (list.length - 1) < list.length := by omega
  rw [itemAtOrLast, List.getD_eq_getElem?_getD, List.getElem?_eq_getElem hlt]
  rfl

theorem repairCurrent_meets (hs : m.Sound) (hm : m.onMaster = true) (x : Ptr) :
    Meets (m.repairCurrent x) E fun m' => OnlyCurrent m m' ∧
      (m.masterList = [] ∨ m.current ≠ kInvalidIndex → m'.CurrentOk) ∧
      (x ≠ null → x ∈ m.masterList → m'.CurrentOk ∧ m'.getCurrentItem = .ok x) ∧
      (x ∉ m.masterList → m.masterList = [] ∨ m.current ≠ kInvalidIndex →
        m'.getCurrentItem = .ok (itemAtOrLast m.masterList m.current)) := by
  have hact := hs.active_eq hm
  have hfound : m.indexOf x ≠ kInvalidIndex ↔ x ≠ null ∧ x ∈ m.masterList := by
    unfold Playlists.indexOf
    rw [hact, ← internalIndexOf_lt_iff hs.size]
    constructor
    · intro hne
      by_contra hge
      refine hne (internalIndexOf_of_not_mem fun hmem => ?_)
      refine hge ((internalIndexOf_lt_iff hs.size).mpr ⟨?_, hmem⟩)
      rintro rfl
      exact hs.nonnull hmem
    · intro hlt
      exact Nat.ne_of_lt (Nat.lt_trans hlt hs.length_lt)
  unfold repairCurrent
  simp only [hact]
  split
  · rename_i hnew
    obtain ⟨hnull, hmem⟩ := hfound.mp hnew
    refine (setCurrentItem_meets hs hm x).mono ?_
    rintro m' ⟨honly, -, hitem⟩
    exact ⟨honly, fun _ => (hitem hnull hmem).1, fun _ _ => hitem hnull hmem,
      fun hout => absurd hmem hout⟩
  · rename_i hgone
    have hnone : ¬ (x ≠ null ∧ x ∈ m.masterList) := mt hfound.mpr hgone
    split
    · rename_i hpast
      refine (setCurrentIndex_meets hs hm _).mono ?_
      rintro m' ⟨honly, hok, hitem⟩
      rcases eq_or_ne m.masterList [] with hnil | hne
      · refine ⟨honly, fun _ => hok (.inl hnil), fun hnull hmem => absurd ⟨hnull, hmem⟩ hnone,
          fun _ _ => ?_⟩
        rw [Playlists.getCurrentItem_empty (honly.masterList.trans hnil), hnil]
        rfl
      · have hpos := List.length_pos_iff.mpr hne
        have hlt := hs.length_lt
        rw [kInvalidIndex_eq] at hlt
        have hlast : predUint32 m.masterList.length = m.masterList.length - 1 :=
          predUint32_of_pos hpos (by omega)
        refine ⟨honly, fun _ => hok (.inr (by omega)),
          fun hnull hmem => absurd ⟨hnull, hmem⟩ hnone, fun _ _ => hitem _ ?_⟩
        rw [hlast, ← getElem?_min hne m.current, Nat.min_eq_right (by omega)]
    · rename_i hin
      refine (setCurrentIndex_meets hs hm _).mono ?_
      rintro m' ⟨honly, hok, hitem⟩
      have hlt : m.current ≠ kInvalidIndex → m.current < m.masterList.length :=
        fun hvalid => Nat.not_le.mp fun hle => hin ⟨hvalid, hle⟩
      refine ⟨honly, fun hcond => hok (hcond.imp_right hlt),
        fun hnull hmem => absurd ⟨hnull, hmem⟩ hnone, fun _ hcond => ?_⟩
      rcases eq_or_ne m.masterList [] with hnil | hne
      · rw [Playlists.getCurrentItem_empty (honly.masterList.trans hnil), hnil]
        rfl
      · have hlt := hlt (hcond.resolve_left hne)
        refine hitem _ ?_
        rw [← getElem?_min hne m.current, Nat.min_eq_left (by omega)]

end PlaylistManager

end FreeAmp.Base
