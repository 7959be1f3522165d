/-
  Base/PlaylistKeeps.lean --- the current item under editing.

  While the master playlist is active an edit that does not remove the current item
  is to leave it the current item; while the external playlist is active an edit is
  to leave the master playlist alone altogether.  Each holds of a call exactly under
  a condition on the state before it.
-/
import FreeAmp.Base.PlaylistInvariant

namespace FreeAmp.Base

open FreeAmp.Lib

namespace PlaylistManager

variable {E : Fault → Prop} {m m' m₂ : PlaylistManager} {c : Call}

/-- The faults of an index out of range. -/
def InRange (f : Fault) : Prop := f ≠ .badCurrent ∧ f ≠ .badIndex

theorem inRange_tolerates : Tolerates InRange := by
  constructor <;> simp [InRange]

theorem currentOk_of_valid (hne : m.masterList ≠ []) (hvalid : m.CurrentValid) : m.CurrentOk :=
  ⟨fun hnil => absurd hnil hne, hvalid⟩

/-! ## Editing the master playlist -/

/-- The edits with arguments in range that do not remove the current item. -/
def Edits (m : PlaylistManager) : Call → Prop
  | .addItemAt item index _ => NewItems m [item] ∧ index ≤ m.active.length
  | .addItemsAt list index _ _ => NewItems m list ∧ index ≤ m.active.length
  | .removeItem index => index < m.active.length ∧ m.playing[m.current]? ≠ m.active[index]?
  | .removeRange index count => index < m.active.length ∧ index + count ≤ m.active.length ∧
      ∀ x ∈ m.playing[m.current]?, x ∉ (m.active.drop index).take count
  | .removeItems items => Members m items ∧ ∀ x ∈ m.playing[m.current]?, x ∉ items
  | .swapItems index1 index2 => index1 < m.active.length ∧ index2 < m.active.length
  | .moveItem oldIndex newIndex => oldIndex < m.active.length ∧ newIndex < m.active.length
  | .moveItems items _ => Members m items
  | .sort _ _ _ => True
  | .setShuffleMode _ _ => True
  | _ => False

/-- The current index follows the current item. -/
def Follows (m : PlaylistManager) : Call → Prop
  | .swapItems index1 index2 => SwapKeeps m.toPlaylists index1 index2
  | .moveItem oldIndex newIndex => MoveKeeps m.toPlaylists oldIndex newIndex
  | _ => True

instance (m : PlaylistManager) (c : Call) : Decidable (Follows m c) := by
  apply @Call.casesOn (fun c => Decidable (Follows m c)) c <;> intros <;> unfold Follows <;>
    infer_instance

/-- There is a current item, and it is the same after the call. -/
def KeepsCurrent (m : PlaylistManager) (c : Call) : Prop :=
  ∃ x, m.getCurrentItem = .ok x ∧ Meets (m.call c) InRange fun m' => m'.getCurrentItem = .ok x

theorem Edits.wellFormed (h : Edits m c) : WellFormed m c := by
  cases c with
  | addItemAt item index queryForMetaData => exact h.1
  | addItemsAt list index queryForMetaData draws => exact h.1
  | removeRange index count => exact fun _ => h.2.1
  | removeItems items => exact h.1
  | moveItems items index => exact h
  | removeItem index => trivial
  | swapItems index1 index2 => trivial
  | moveItem oldIndex newIndex => trivial
  | sort key type draws => trivial
  | setShuffleMode shuffle draws => trivial
  | _ => exact h.elim

theorem Edits.keepsItem (h : Edits m c) (hm : m.onMaster = true) (hfollow : Follows m c) :
    KeepsItem m c := by
  cases c with
  | removeItem index => exact fun _ => h.2
  | removeRange index count => exact fun _ => h.2.2
  | removeItems items => exact fun _ => h.2
  | swapItems index1 index2 => exact fun _ _ _ => hfollow
  | moveItem oldIndex newIndex => exact fun _ _ _ => hfollow
  | setShuffleMode shuffle draws =>
    intro hext
    exact absurd (hm.symm.trans hext) (by simp)
  | addItemAt item index queryForMetaData => trivial
  | addItemsAt list index queryForMetaData draws => trivial
  | moveItems items index => trivial
  | sort key type draws => trivial
  | _ => exact h.elim

theorem Edits.setsInRange (h : Edits m c) : SetsInRange m c := by
  cases c with
  | setCurrentIndex index => exact h.elim
  | _ => trivial

theorem keepsCurrent_of_follows (hs : m.Sound) (hm : m.onMaster = true)
    (hne : m.masterList ≠ []) (hc : Edits m c) (hok : m.CurrentOk) (hfollow : Follows m c) :
    KeepsCurrent m c := by
  rcases Playlists.getCurrentItem_ok hs hok.2 with ⟨hnil, -⟩ | ⟨x, -, -, -, hx⟩
  · exact absurd hnil hne
  · refine ⟨x, hx, ?_⟩
    refine (call_meets inRange_tolerates hs (fun _ => hc.wellFormed) (.inl hok.2)
      (.inl hc.setsInRange) (.inl hm)).mono fun m' h => ?_
    rw [h.item (hc.keepsItem hm hfollow) hok hne]
    exact hx

/-- Two things known of a computation that does not fault are known of its result. -/
theorem follows_of_meets {r : Checked (Error × PlaylistManager)} {x : Ptr} {P : Prop}
    (hkeep : Meets (Prod.snd <$> r) InRange fun m' => m'.getCurrentItem = .ok x)
    (hspec : Meets r (fun _ => False) fun r => r.2.getCurrentItem = .ok x → P) : P := by
  cases r with
  | ok r => exact hspec hkeep
  | error f => exact hspec.elim

theorem follows_of_keepsCurrent (hs : m.Sound) (hm : m.onMaster = true)
    (hne : m.masterList ≠ []) (hc : Edits m c) (hkeep : KeepsCurrent m c) :
    m.CurrentOk ∧ Follows m c := by
  obtain ⟨x, hx, hmeets⟩ := hkeep
  have hok := (Playlists.getCurrentItem_ok_iff hs hne).mp ⟨x, hx⟩
  refine ⟨hok, ?_⟩
  cases c with
  | swapItems index1 index2 =>
    have hspec := swapItems_meets hs (E := fun _ => False) (R := fun _ => True)
      (List.getElem?_eq_getElem hc.1) (List.getElem?_eq_getElem hc.2) trivial
    refine follows_of_meets hmeets (hspec.mono fun r h hsame => ?_)
    exact h.2.2.2 hm hok (hsame.trans hx.symm)
  | moveItem oldIndex newIndex =>
    have hspec := moveItem_meets hs (E := fun _ => False) (R := fun _ => True)
      (List.getElem?_eq_getElem hc.1) hc.2 trivial
    refine follows_of_meets hmeets (hspec.mono fun r h hsame => ?_)
    exact h.2.2.2 hm hok (hsame.trans hx.symm)
  | _ => trivial

/-- When an edit of the master playlist leaves the current item alone. -/
theorem edit_keeps_current_iff (h : Reachable m) (hm : m.onMaster = true)
    (hne : m.masterList ≠ []) (hc : Edits m c) :
    KeepsCurrent m c ↔ m.CurrentOk ∧ Follows m c := by
  constructor
  · exact follows_of_keepsCurrent h.sound hm hne hc
  · rintro ⟨hok, hfollow⟩
    exact keepsCurrent_of_follows h.sound hm hne hc hok hfollow

/-- Four items, of which the second is the current one. -/
def fourItems : List Call :=
  [.addItem 1 false, .addItem 2 false, .addItem 3 false, .addItem 4 false, .setCurrentIndex 1]

theorem fourItems_run : ∃ m : PlaylistManager,
    Run (Guarded Proper (Steps next)) (init false .repeatNone fun _ => default) fourItems m ∧
      m.onMaster = true ∧ m.masterList = [1, 2, 3, 4] ∧ m.active = m.masterList ∧
      m.current = 1 ∧ m.shuffle = false ∧ m.getCurrentItem = .ok 2 ∧
      ∃ m', m.call (.moveItem 0 3) = .ok m' ∧ m'.getCurrentItem = .ok 3 :=
  ⟨_, .cons ⟨by decide, rfl⟩ <| .cons ⟨by decide, rfl⟩ <| .cons ⟨by decide, rfl⟩ <|
    .cons ⟨by decide, rfl⟩ <| .cons ⟨by decide, rfl⟩ <| .refl _, rfl, rfl, rfl, rfl, rfl, rfl, _,
    rfl, rfl⟩

/-- Swapping the first two of four items leaves the second the current one. -/
theorem edit_keeps_current_iff_fourItems : ∃ m : PlaylistManager,
    Run (Guarded Proper (Steps next)) (init false .repeatNone fun _ => default) fourItems m ∧
      m.getCurrentItem = .ok 2 ∧ KeepsCurrent m (.swapItems 0 1) := by
  obtain ⟨m, hrun, hm, hlist, hactive, hcur, hoff, hitem, -⟩ := fourItems_run
  have hne : m.masterList ≠ [] := by
    rw [hlist]
    exact List.cons_ne_nil _ _
  have hc : Edits m (.swapItems 0 1) := by simp [Edits, hactive, hlist]
  refine ⟨m, hrun, hitem, ?_⟩
  refine (edit_keeps_current_iff ⟨_, _, _, _, hrun⟩ hm hne hc).mpr ⟨⟨?_, ?_⟩, ?_⟩
  · exact fun hnil => absurd hnil hne
  · rw [hcur, hlist]
    decide
  · intro hon
    rw [hoff] at hon
    exact absurd hon Bool.false_ne_true

/-- `MoveItem(0, 3)` takes an item past the current one, and the one behind that becomes the
current item. -/
theorem moveItem_changes_current : ∃ m : PlaylistManager,
    Run (Guarded Proper (Steps next)) (init false .repeatNone fun _ => default) fourItems m ∧
      m.onMaster = true ∧ m.masterList = [1, 2, 3, 4] ∧ Edits m (.moveItem 0 3) ∧
      ¬ KeepsCurrent m (.moveItem 0 3) := by
  obtain ⟨m, hrun, hm, hlist, hactive, -, -, hitem, m', hmove, hitem'⟩ := fourItems_run
  refine ⟨m, hrun, hm, hlist, ?_, ?_⟩
  · simp [Edits, hactive, hlist]
  · rintro ⟨x, hx, hmeets⟩
    rw [hitem] at hx
    rw [hmove, Meets.ok_iff, hitem', ← hx] at hmeets
    simp at hmeets

/-! ## Editing the external playlist -/

/-- The edits that are made while the external or the portable playlist is active. -/
def ExternalEdit : Call → Prop
  | .addItem _ _ | .addItemAt _ _ _ | .addItems _ _ _ | .addItemsAt _ _ _ _ => True
  | .removeItem _ | .removeRange _ _ | .removeItems _ | .removeAll => True
  | .moveItem _ _ | .moveItems _ _ | .swapItems _ _ | .sort _ _ _ => True
  | .setShuffleMode _ _ | .setCurrentIndex _ => True
  | _ => False

/-- All of them but `SetCurrentIndex` edit the playlist. -/
def SetsIndex : Call → Prop
  | .setCurrentIndex _ => True
  | _ => False

/-- The call keeps to the external playlist: what it looks up there it does not use as an
index into another list. -/
def KeepsToExternal (m : PlaylistManager) : Call → Prop
  | .setShuffleMode shuffle _ => shuffle = false →
      ∀ x ∈ m.playing[m.current]?, m.indexOf x = internalIndexOf m.masterList x
  | .setCurrentIndex index => m.masterList ≠ [] → SetsValid m.toPlaylists index
  | _ => True

instance (m : PlaylistManager) (c : Call) : Decidable (KeepsToExternal m c) := by
  apply @Call.casesOn (fun c => Decidable (KeepsToExternal m c)) c <;> intros <;> unfold KeepsToExternal <;>
    infer_instance

/-- The master playlist has been left alone: its items, those of the shuffle list, and a valid
current index. -/
structure MasterFrame (m m' : PlaylistManager) : Prop where
  masterList : m'.masterList = m.masterList
  shuffleList : m'.shuffleList.Perm m.shuffleList
  valid : m'.CurrentValid

/-- The frame of one call: there is a current item, the call leaves the master playlist alone,
and unless it is `SetCurrentIndex` the item is the current one afterwards. -/
def KeepsMaster (m : PlaylistManager) (c : Call) : Prop :=
  ∃ x, m.getCurrentItem = .ok x ∧ Meets (m.call c) (fun f => f ≠ .badCurrent) fun m' =>
    MasterFrame m m' ∧ (¬ SetsIndex c → m'.getCurrentItem = .ok x)

theorem MasterFrame.refl (hvalid : m.CurrentValid) : MasterFrame m m := ⟨rfl, .refl _, hvalid⟩

theorem MasterFrame.trans (h : MasterFrame m m₂) (h' : MasterFrame m₂ m') : MasterFrame m m' :=
  ⟨h'.masterList.trans h.masterList, h'.shuffleList.trans h.shuffleList, h'.valid⟩

theorem KeepsToExternal.keepsItem (h : KeepsToExternal m c) (hm : m.onMaster = false)
    (hedit : ExternalEdit c) (hc : ¬ SetsIndex c) : KeepsItem m c := by
  have hext : ∀ {P : Prop}, m.onMaster = true → P := fun h => absurd (hm.symm.trans h) (by simp)
  cases c with
  | removeItem index => exact hext
  | removeRange index count => exact hext
  | removeItems items => exact hext
  | removeAll => exact hm
  | swapItems index1 index2 => exact hext
  | moveItem oldIndex newIndex => exact hext
  | setShuffleMode shuffle draws => exact fun _ => h
  | setCurrentIndex index => exact absurd trivial hc
  | gotoNextItem userAction draws => exact hedit.elim
  | gotoPreviousItem userAction draws => exact hedit.elim
  | _ => trivial

/-- What an effect on the lists says about the master playlist. -/
theorem frame_of_effect (hs : m.Sound) (hm : m.onMaster = false) (hvalid : m.CurrentValid)
    (hedit : ExternalEdit c) (hkeep : KeepsToExternal m c) (h : Effect m c m') :
    MasterFrame m m' ∧ (¬ SetsIndex c → m'.getCurrentItem = m.getCurrentItem) := by
  obtain ⟨hmaster, hperm⟩ := h.frame hm
  rcases eq_or_ne m.masterList [] with hnil | hne
  · have hnil' : m'.masterList = [] := hmaster.trans hnil
    refine ⟨⟨hmaster, hperm, fun hne => absurd hnil' hne⟩, fun _ => ?_⟩
    rw [Playlists.getCurrentItem_empty hnil, Playlists.getCurrentItem_empty hnil']
  · have hok := currentOk_of_valid hne hvalid
    have hitem : ¬ SetsIndex c → m'.getCurrentItem = m.getCurrentItem :=
      fun hc => h.item (hkeep.keepsItem hm hedit hc) hok hne
    have hne' : m'.masterList ≠ [] := by
      rw [hmaster]
      exact hne
    refine ⟨⟨hmaster, hperm, ?_⟩, hitem⟩
    cases c with
    | setCurrentIndex index =>
      have hindex : KeepsIndex m (.setCurrentIndex index) := by
        intro _
        rw [if_neg hne]
        exact hkeep hne
      exact (h.currentOk hindex hok).2
    | _ =>
      have hsame := hitem fun h => h
      rcases Playlists.getCurrentItem_ok hs hvalid with ⟨hnil, -⟩ | ⟨x, -, -, -, hx⟩
      · exact absurd hnil hne
      · exact ((Playlists.getCurrentItem_ok_iff h.sound hne').mp ⟨x, hsame.trans hx⟩).2

theorem KeepsToExternal.setsInRange (h : KeepsToExternal m c) : SetsInRange m c := by
  cases c with
  | setCurrentIndex index => exact fun _ => h
  | _ => trivial

theorem keepsMaster_of_keepsToExternal (hs : m.Sound) (hm : m.onMaster = false)
    (hvalid : m.CurrentValid) (hedit : ExternalEdit c) (hkeep : KeepsToExternal m c) :
    KeepsMaster m c := by
  have hE : Tolerates fun f => f ≠ .badCurrent := by constructor <;> simp
  have hproper : Proper m c := fun h => absurd (hm.symm.trans h) (by simp)
  have hitem : ∃ x, m.getCurrentItem = .ok x := by
    rcases Playlists.getCurrentItem_ok hs hvalid with ⟨-, hx⟩ | ⟨x, -, -, -, hx⟩
    · exact ⟨null, hx⟩
    · exact ⟨x, hx⟩
  obtain ⟨x, hx⟩ := hitem
  refine ⟨x, hx, ?_⟩
  refine (call_meets hE hs hproper (.inl hvalid) (.inl hkeep.setsInRange) (.inr ?_)).mono
    fun m' h => ?_
  · simp
  · obtain ⟨hframe, hsame⟩ := frame_of_effect hs hm hvalid hedit hkeep h
    exact ⟨hframe, fun hc => (hsame hc).trans hx⟩

/-- `SetShuffleMode(false)` does not fault when there is a current item. -/
theorem setShuffleMode_off {x : Ptr} (hx : m.getCurrentItem = .ok x) (hnull : x ≠ null)
    (draws : List Rand) : m.setShuffleMode false draws =
      .ok ({ m with shuffle := false, current := m.indexOf x }.acceptEvent (.shuffle false)) := by
  unfold setShuffleMode
  rw [hx]
  simp only [bind, Except.bind, Bool.false_eq_true, if_false, if_pos hnull]
  rfl

theorem keepsToExternal_of_keepsMaster (hs : m.Sound) (h : KeepsMaster m c) :
    m.CurrentValid ∧ KeepsToExternal m c := by
  obtain ⟨x, hx, hmeets⟩ := h
  have hvalid : m.CurrentValid := fun hne =>
    ((Playlists.getCurrentItem_ok_iff hs hne).mp ⟨x, hx⟩).2 hne
  refine ⟨hvalid, ?_⟩
  cases c with
  | setShuffleMode shuffle draws =>
    rintro rfl y hplay
    have hne : m.masterList ≠ [] := List.ne_nil_of_mem (hs.current_mem hplay)
    have hy := Playlists.getCurrentItem_of_getElem? hs hplay
    have hnull := hs.playing_nonnull hplay
    obtain rfl : x = y := Except.ok.inj (hx.symm.trans hy)
    rw [call, setShuffleMode_off hx hnull, Meets.ok_iff] at hmeets
    have hsame := hmeets.2 fun h => h
    have hs' : ({ m with shuffle := false, current := m.indexOf x }.acceptEvent
        (.shuffle false) : PlaylistManager).Sound := { hs with }
    have hplay' := (Playlists.getCurrentItem_eq_iff hs' hne).mp hsame
    exact (internalIndexOf_getElem? hs.size hs.nodup hnull hplay').symm
  | setCurrentIndex index =>
    intro hne
    have hsets : Meets (m.setCurrentIndex index) (fun f => f = .badCurrent) fun m' =>
        OnlyCurrent m m' ∧ m'.current = setIndex m.toPlaylists index :=
      setCurrentIndex_sets hs (.inr (.inr rfl))
    rw [call] at hmeets
    cases hcall : m.setCurrentIndex index with
    | error f =>
      rw [hcall] at hsets hmeets
      exact absurd hsets hmeets
    | ok m' =>
      rw [hcall] at hsets hmeets
      obtain ⟨⟨hmaster, -, hvalid'⟩, -⟩ := hmeets
      refine (setIndex_lt_iff hs).mp ?_
      rw [← hsets.2, ← hmaster]
      refine hvalid' ?_
      rw [hmaster]
      exact hne
  | _ => trivial

/-- When an edit of the external playlist leaves the master playlist alone. -/
theorem keepsMaster_iff (hs : m.Sound) (hm : m.onMaster = false) (hedit : ExternalEdit c) :
    KeepsMaster m c ↔ m.CurrentValid ∧ KeepsToExternal m c := by
  constructor
  · exact keepsToExternal_of_keepsMaster hs
  · rintro ⟨hvalid, hkeep⟩
    exact keepsMaster_of_keepsToExternal hs hm hvalid hedit hkeep

/-- The edits that keep to the external playlist. -/
def EditsExternal (m : PlaylistManager) (c : Call) : Prop := ExternalEdit c ∧ KeepsToExternal m c

theorem ExternalEdit.not_setActivePlaylist (h : ExternalEdit c) (key : PlaylistKey) :
    c ≠ .setActivePlaylist key := by
  rintro rfl
  exact h

theorem run_frame (hs : m.Sound) (hm : m.onMaster = false) (hvalid : m.CurrentValid)
    {calls : List Call} (h : Run (Guarded EditsExternal (Steps next)) m calls m') :
    MasterFrame m m' ∧
      ((∀ c ∈ calls, ¬ SetsIndex c) → m'.getCurrentItem = m.getCurrentItem) := by
  induction h with
  | refl m => exact ⟨.refl hvalid, fun _ => rfl⟩
  | @cons m₁ m₂ m₃ c calls first rest ih =>
    obtain ⟨⟨hedit, hkeep⟩, hstep⟩ := first
    have hproper : Proper m₁ c := fun h => absurd (hm.symm.trans h) (by simp)
    have heffect := effect_of_next hs hproper hstep
    obtain ⟨hframe, hitem⟩ := frame_of_effect hs hm hvalid hedit hkeep heffect
    have hm₂ := (heffect.key hedit.not_setActivePlaylist).trans hm
    obtain ⟨hframe', hitem'⟩ := ih heffect.sound hm₂ hframe.valid
    refine ⟨hframe.trans hframe', fun hcalls => ?_⟩
    rw [hitem' fun c' hc' => hcalls c' (List.mem_cons_of_mem _ hc')]
    exact hitem (hcalls c List.mem_cons_self)

/-- Editing the external playlist leaves the master playlist alone, over whole sequences of
edits that keep to the external playlist; and of a single edit it holds only of these. -/
theorem external_edits_keep_master (h : Reachable m) (hm : m.onMaster = false) :
    (∀ calls m', m.CurrentValid → Run (Guarded EditsExternal (Steps next)) m calls m' →
      MasterFrame m m' ∧
        ((∀ c ∈ calls, ¬ SetsIndex c) → m'.getCurrentItem = m.getCurrentItem)) ∧
      ∀ c, ExternalEdit c → (KeepsMaster m c ↔ m.CurrentValid ∧ KeepsToExternal m c) :=
  ⟨fun _ _ hvalid hrun => run_frame h.sound hm hvalid hrun,
    fun _ hedit => keepsMaster_iff h.sound hm hedit⟩

/-- Two items to play and three in the external playlist. -/
def twoLists : List Call :=
  [.addItem 1 false, .addItem 2 false, .setActivePlaylist .external, .addItem 3 false,
    .addItem 4 false, .addItem 5 false]

theorem twoLists_run : ∃ m : PlaylistManager,
    Run (Guarded Proper (Steps next)) (init false .repeatNone fun _ => default) twoLists m ∧
      m.onMaster = false ∧ m.masterList = [1, 2] ∧ m.externalList = [3, 4, 5] ∧ m.current = 0 ∧
      m.getCurrentItem = .ok 1 ∧
      (∃ m', Run (Guarded EditsExternal (Steps next)) m [.removeItem 0, .moveItem 0 1] m' ∧
        m'.externalList = [5, 4]) ∧
      (∃ m', m.call (.setShuffleMode false []) = .ok m' ∧ m'.masterList = [1, 2] ∧
        m'.current = kInvalidIndex) ∧
      m.call (.setCurrentIndex 2) = .error .badCurrent :=
  ⟨_, .cons ⟨by decide, rfl⟩ <| .cons ⟨by decide, rfl⟩ <| .cons ⟨by decide, rfl⟩ <|
    .cons ⟨by decide, rfl⟩ <| .cons ⟨by decide, rfl⟩ <| .cons ⟨by decide, rfl⟩ <| .refl _,
    rfl, rfl, rfl, rfl, rfl,
    ⟨_, .cons ⟨⟨trivial, trivial⟩, rfl⟩ <| .cons ⟨⟨trivial, trivial⟩, rfl⟩ <| .refl _, rfl⟩,
    ⟨_, rfl, rfl, rfl⟩, rfl⟩

theorem external_edits_keep_master_twoLists : ∃ m m' : PlaylistManager,
    Run (Guarded Proper (Steps next)) (init false .repeatNone fun _ => default) twoLists m ∧
      Run (Guarded EditsExternal (Steps next)) m [.removeItem 0, .moveItem 0 1] m' ∧
      m'.externalList = [5, 4] ∧ m'.masterList = [1, 2] ∧ m'.getCurrentItem = .ok 1 := by
  obtain ⟨m, hrun, hm, hlist, -, hcur, hitem, ⟨m', hrun', hlist'⟩, -⟩ := twoLists_run
  have hvalid : m.CurrentValid := by
    intro _
    rw [hcur, hlist]
    decide
  obtain ⟨hframe, hsame⟩ :=
    (external_edits_keep_master ⟨_, _, _, _, hrun⟩ hm).1 _ m' hvalid hrun'
  refine ⟨m, m', hrun, hrun', hlist', hframe.masterList.trans hlist, (hsame ?_).trans hitem⟩
  intro c hc
  simp only [List.mem_cons, List.not_mem_nil, or_false] at hc
  rcases hc with rfl | rfl
  · exact fun h => h
  · exact fun h => h

/-- `SetShuffleMode(false)` loses the current item, and `SetCurrentIndex(2)` indexes past the
two items to play. -/
theorem external_edits_lose_current : ∃ m : PlaylistManager,
    Run (Guarded Proper (Steps next)) (init false .repeatNone fun _ => default) twoLists m ∧
      m.onMaster = false ∧ m.masterList = [1, 2] ∧ m.externalList = [3, 4, 5] ∧
      m.getCurrentItem = .ok 1 ∧ ¬ KeepsMaster m (.setShuffleMode false []) ∧
      ¬ KeepsMaster m (.setCurrentIndex 2) := by
  obtain ⟨m, hrun, hm, hlist, hext, -, hitem, -, ⟨m', hshuffle, hlist', hlost⟩, hindex⟩ :=
    twoLists_run
  refine ⟨m, hrun, hm, hlist, hext, hitem, ?_, ?_⟩
  · rintro ⟨x, -, hmeets⟩
    rw [hshuffle] at hmeets
    have hlt := hmeets.1.valid
    unfold Playlists.CurrentValid at hlt
    rw [hlist', hlost] at hlt
    exact absurd (hlt (List.cons_ne_nil _ _)) (by decide)
  · rintro ⟨x, -, hmeets⟩
    rw [hindex] at hmeets
    exact hmeets rfl

end PlaylistManager

end FreeAmp.Base
