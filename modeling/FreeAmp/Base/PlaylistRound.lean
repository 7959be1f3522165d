/-
  Base/PlaylistRound.lean --- going through the playlist.

  In `RepeatAll` a round of as many calls of `GotoNextItem` as there are items plays
  the list being played from its head to its end, and the last call begins the next
  round; `GotoPreviousItem` goes back inside a round.  In `RepeatNone`
  `HasAnotherItem` is to say whether there is a next item, which it does exactly as
  long as the current index is valid.
-/
import FreeAmp.Base.PlaylistInvariant

namespace FreeAmp.Base

open FreeAmp.Lib

namespace PlaylistManager

variable {E : Fault → Prop} {m m' : PlaylistManager}

/-- The only fault of these functions: `ShuffleIt` is still drawing. -/
def Drawing (f : Fault) : Prop := f = .drawing

/-- `GetCurrentItem(); GotoNextItem(false)`, once for each list of draws: the items that were
current before the calls, and the manager after them. -/
def playRound : List (List Rand) → PlaylistManager → Checked (List Ptr × PlaylistManager)
  | [], m => pure ([], m)
  | draws :: rest, m => do
      let item ← m.getCurrentItem
      let m ← m.gotoNextItem false draws
      let (items, m) ← playRound rest m
      pure (item :: items, m)

/-! ## A round -/

theorem Turned.repeatMode (h : Turned m m') : m'.repeatMode = m.repeatMode := by
  rw [h.lists]

/-- The list being played is the same, unless it has been shuffled. -/
theorem Turned.playing (h : Turned m m') (hshuffle : m'.shuffle = m.shuffle)
    (hlist : m'.shuffleList = m.shuffleList) : m'.playing = m.playing := by
  unfold Playlists.playing
  rw [hshuffle, hlist, h.masterList]

/-- In `RepeatAll` the next index is the one behind the current one, or the first. -/
theorem nextIndex_repeatAll (hs : m.Sound) (hall : m.repeatMode = .repeatAll)
    (hlt : m.current < m.masterList.length) :
    m.nextIndex false = (if m.current + 1 < m.masterList.length then m.current + 1 else 0) ∧
      (m.nextWraps false ↔ m.current + 1 = m.masterList.length) := by
  have hne : m.masterList ≠ [] := List.ne_nil_of_length_pos (Nat.zero_lt_of_lt hlt)
  have hbound := hs.length_lt
  rw [kInvalidIndex_eq] at hbound
  have hone : ¬ (m.repeatMode = .repeatOne ∧ false = false) := by
    rw [hall]
    simp
  have hmode : m.repeatMode = .repeatAll ∨ false = true := .inl hall
  unfold Playlists.nextIndex Playlists.nextWraps
  rw [if_neg hne, if_neg hone, if_pos hmode, toUint32_of_lt (by omega)]
  refine ⟨rfl, fun h => ?_, fun h => ⟨hne, ?_, hmode⟩⟩
  · have hpast := h.2.1
    omega
  · omega

theorem playRound_from {draws : List (List Rand)} :
    ∀ {m : PlaylistManager}, m.Sound → m.repeatMode = .repeatAll → draws ≠ [] →
      m.current + draws.length = m.masterList.length →
      Meets (playRound draws m) Drawing fun r =>
        r.1 = m.playing.drop m.current ∧ r.2.current = 0 ∧ r.2.Sound ∧
          r.2.masterList = m.masterList ∧ r.2.repeatMode = .repeatAll := by
  induction draws with
  | nil =>
    intro m _ _ hne
    exact absurd rfl hne
  | cons draw rest ih =>
    intro m hs hall _ hlen
    rw [List.length_cons] at hlen
    have hlt : m.current < m.masterList.length := by omega
    have hne : m.masterList ≠ [] := List.ne_nil_of_length_pos (Nat.zero_lt_of_lt hlt)
    obtain ⟨hindex, hwraps⟩ := nextIndex_repeatAll hs hall hlt
    have hplay : m.current < m.playing.length := by
      rw [hs.playing_length]
      exact hlt
    rw [playRound, Meets.bind_iff]
    refine (getCurrentItem_meets hs (.inl fun _ => hlt)).mono ?_
    intro item hitem
    have hhead := (Playlists.getCurrentItem_eq_iff hs hne).mp hitem
    rw [List.getElem?_eq_getElem hplay] at hhead
    rw [List.drop_eq_getElem_cons hplay, Option.some.inj hhead]
    simp only [Meets.bind_iff]
    refine (gotoNextItem_meets (E := Drawing) hs (fun _ => rfl) (.inl fun _ => hlt)).mono ?_
    rintro m₂ ⟨hturned, hshuffle, hcur, hlist⟩
    rw [hindex] at hcur
    have hs₂ := hturned.sound hs
    have hall₂ : m₂.repeatMode = .repeatAll := hturned.repeatMode.trans hall
    rcases eq_or_ne rest [] with rfl | hrest
    · -- the last call of the round
      have hend : m.current + 1 = m.masterList.length := by simpa using hlen
      rw [if_neg (by omega)] at hcur
      have hnone : m.playing.drop (m.current + 1) = [] := by
        rw [hend, ← hs.playing_length]
        exact List.drop_length
      simp only [playRound, Meets.pure_iff]
      rw [hnone]
      exact ⟨rfl, hcur, hs₂, hturned.masterList, hall₂⟩
    · have hmore : m.current + 1 < m.masterList.length := by
        have hpos := List.length_pos_iff.mpr hrest
        omega
      rw [if_pos hmore] at hcur
      have hsame : m₂.shuffleList = m.shuffleList := by
        refine hlist fun hwrap => ?_
        rw [hwraps] at hwrap
        omega
      have hlen₂ : m₂.current + rest.length = m₂.masterList.length := by
        rw [hcur, hturned.masterList]
        omega
      refine (ih hs₂ hall₂ hrest hlen₂).mono ?_
      rintro ⟨items, m'⟩ ⟨hitems, hfirst, hs', hmaster, hall'⟩
      rw [hturned.playing hshuffle hsame, hcur] at hitems
      exact ⟨congrArg _ hitems, hfirst, hs', hmaster.trans hturned.masterList, hall'⟩

/-- A round plays every item once, in the order of the list being played, and ends where the
next round begins. -/
theorem playRound_covers (hs : m.Sound) (hall : m.repeatMode = .repeatAll)
    (hne : m.masterList ≠ []) (hfirst : m.current = 0) {draws : List (List Rand)}
    (hlen : draws.length = m.masterList.length) :
    Meets (playRound draws m) Drawing fun r =>
      r.1 = m.playing ∧ r.1.Perm m.masterList ∧ r.2.current = 0 ∧ r.2.Sound ∧
        r.2.masterList = m.masterList ∧ r.2.repeatMode = .repeatAll := by
  have hdraws : draws ≠ [] := by
    refine List.ne_nil_of_length_pos ?_
    rw [hlen]
    exact List.length_pos_iff.mpr hne
  refine (playRound_from hs hall hdraws (by omega)).mono ?_
  rintro r ⟨hitems, hrest⟩
  rw [hfirst, List.drop_zero] at hitems
  refine ⟨hitems, ?_, hrest⟩
  rw [hitems]
  exact hs.playing_perm

/-! ## Going back -/

/-- `GotoPreviousItem(false)` goes back to the item `GotoNextItem(false)` has come from,
inside a round. -/
theorem previous_undoes_next (hs : m.Sound) (hall : m.repeatMode = .repeatAll)
    (hmore : m.current + 1 < m.masterList.length) (draws draws' : List Rand) :
    Meets (do
        let m ← m.gotoNextItem false draws
        m.gotoPreviousItem false draws') (fun _ => False) fun m' =>
      m'.current = m.current ∧ m'.getCurrentItem = m.getCurrentItem := by
  have hlt : m.current < m.masterList.length := by omega
  have hne : m.masterList ≠ [] := List.ne_nil_of_length_pos (Nat.zero_lt_of_lt hlt)
  obtain ⟨hindex, hwraps⟩ := nextIndex_repeatAll hs hall hlt
  have hnowrap : ¬ m.nextWraps false := by
    rw [hwraps]
    omega
  rw [Meets.bind_iff]
  refine (gotoNextItem_meets hs (fun h => absurd h hnowrap) (.inl fun _ => hlt)).mono ?_
  rintro m₂ ⟨hturned, hshuffle, hcur, hlist⟩
  rw [hindex, if_pos hmore] at hcur
  have hnoback : ¬ m₂.previousWraps false := by
    intro hback
    have hzero := hback.2.1
    omega
  have hvalid₂ : m₂.CurrentValid := by
    intro _
    rw [hcur, hturned.masterList]
    exact hmore
  refine (gotoPreviousItem_meets (hturned.sound hs) (fun h => absurd h hnoback)
    (.inl hvalid₂)).mono ?_
  rintro m' ⟨hturned', hshuffle', hcur', hlist'⟩
  have hback : m'.current = m.current := by
    have hbound := hs.length_lt
    rw [kInvalidIndex_eq] at hbound
    have hne₂ : m₂.masterList ≠ [] := by
      rw [hturned.masterList]
      exact hne
    have hone : ¬ (m₂.repeatMode = .repeatOne ∧ false = false) := by
      rw [hturned.repeatMode, hall]
      simp
    rw [hcur']
    unfold Playlists.previousIndex
    rw [if_neg hne₂, if_neg hone, if_pos (by omega), predUint32_of_pos (by omega) (by omega)]
    omega
  have hplaying := (hturned'.playing hshuffle' (hlist' hnoback)).trans
    (hturned.playing hshuffle (hlist hnowrap))
  refine ⟨hback, ?_⟩
  unfold Playlists.getCurrentItem
  rw [hplaying, hback, hturned'.masterList, hturned.masterList]

/-! ## Another item -/

/-- `HasAnotherItem` tells whether `GotoNextItem(false)` changes the current index. -/
def TellsNext (m : PlaylistManager) (draws : List Rand) : Prop :=
  ∃ m', m.gotoNextItem false draws = .ok m' ∧ (m.hasAnotherItem = true ↔ m'.current ≠ m.current)

/-- In `RepeatNone` the next index is the one behind the current one, if there is one. -/
theorem nextIndex_repeatNone (hs : m.Sound) (hnone : m.repeatMode = .repeatNone)
    (hlt : m.current < m.masterList.length) :
    m.nextIndex false =
      if m.current + 1 < m.masterList.length then m.current + 1 else m.current := by
  have hne : m.masterList ≠ [] := List.ne_nil_of_length_pos (Nat.zero_lt_of_lt hlt)
  have hbound := hs.length_lt
  rw [kInvalidIndex_eq] at hbound
  have hone : ¬ (m.repeatMode = .repeatOne ∧ false = false) := by
    rw [hnone]
    simp
  have hmode : ¬ (m.repeatMode = .repeatAll ∨ false = true) := by
    rw [hnone]
    simp
  unfold Playlists.nextIndex
  rw [if_neg hne, if_neg hone, if_neg hmode, toUint32_of_lt (by omega)]

theorem hasAnotherItem_repeatNone (hnone : m.repeatMode = .repeatNone) :
    m.hasAnotherItem = true ↔ m.current < predUint32 m.masterList.length := by
  unfold Playlists.hasAnotherItem
  rw [hnone]
  simp

theorem tellsNext_of_valid (hs : m.Sound) (hfits : m.current ≤ kInvalidIndex)
    (hnone : m.repeatMode = .repeatNone) (hvalid : m.CurrentValid) (draws : List Rand) :
    TellsNext m draws := by
  have hnowrap : ¬ m.nextWraps false := by
    rintro ⟨-, -, hmode⟩
    rw [hnone] at hmode
    simp at hmode
  have hgo : Meets (m.gotoNextItem false draws) (fun _ => False) _ :=
    gotoNextItem_meets hs (fun h => absurd h hnowrap) (.inl hvalid)
  cases hnext : m.gotoNextItem false draws with
  | error f =>
    rw [hnext] at hgo
    exact hgo.elim
  | ok m' =>
    rw [hnext] at hgo
    obtain ⟨-, -, hcur, -⟩ := hgo
    refine ⟨m', hnext, ?_⟩
    rw [hasAnotherItem_repeatNone hnone, hcur]
    rcases eq_or_ne m.masterList [] with hnil | hne
    · -- size() - 1 is the invalid index
      have hnext : m.nextIndex false = kInvalidIndex := by
        unfold Playlists.nextIndex
        rw [if_pos hnil]
      rw [hnext, hnil, List.length_nil, predUint32_zero]
      omega
    · have hlt := hvalid hne
      have hbound := hs.length_lt
      rw [kInvalidIndex_eq] at hbound
      rw [nextIndex_repeatNone hs hnone hlt, predUint32_of_pos (by omega) (by omega)]
      split <;> omega

/-- `InternalSetCurrentIndex` reads the item at the index it sets. -/
theorem internalSetCurrentIndex_reads (hs : m.Sound) (hne : m.masterList ≠ []) {i : Nat}
    (hi : i ≠ kInvalidIndex) (h : m.internalSetCurrentIndex i = .ok m') :
    i < m.masterList.length := by
  have hs' : ({ m with current := i } : PlaylistManager).Sound := { hs with }
  unfold internalSetCurrentIndex at h
  simp only [if_pos hi] at h
  cases hitem : ({ m with current := i } : PlaylistManager).getCurrentItem with
  | error f =>
    rw [hitem] at h
    simp [bind, Except.bind] at h
  | ok x => exact ((Playlists.getCurrentItem_ok_iff hs' hne).mp ⟨x, hitem⟩).2 hne

/-- In `RepeatNone` a current index past the end is set again. -/
theorem gotoNextItem_past (hnone : m.repeatMode = .repeatNone) (hne : m.masterList ≠ [])
    (hpast : m.masterList.length ≤ toUint32 (m.current + 1)) (draws : List Rand) :
    m.gotoNextItem false draws = m.internalSetCurrentIndex m.current := by
  have hlen : m.masterList.length ≠ 0 := fun h => hne (List.length_eq_zero_iff.mp h)
  have hmode : ¬ (m.masterList.length ≤ toUint32 (m.current + 1) ∧
      (m.repeatMode = .repeatAll ∨ false = true)) := by
    rw [hnone]
    simp
  have hgo : m.repeatMode ≠ .repeatOne ∨ false = true := by
    rw [hnone]
    simp
  unfold gotoNextItem
  simp only [if_pos hlen, if_pos hgo, if_neg hmode, if_pos hpast]

/-- Of an invalid index `GotoNextItem` either makes a valid one, or it uses it. -/
theorem valid_of_tellsNext (hs : m.Sound) (hfits : m.current ≤ kInvalidIndex)
    (hnone : m.repeatMode = .repeatNone) {draws : List Rand} (h : TellsNext m draws) :
    m.CurrentValid := by
  intro hne
  by_contra hinvalid
  obtain ⟨m', hnext, htells⟩ := h
  rw [hasAnotherItem_repeatNone hnone] at htells
  have hbound := hs.length_lt
  rw [kInvalidIndex_eq] at hbound hfits
  have hpos := List.length_pos_iff.mpr hne
  rcases eq_or_ne m.current kInvalidIndex with hcur | hcur
  · -- the next index is the first one, and `HasAnotherItem` does not see it
    have hnowrap : ¬ m.nextWraps false := by
      rintro ⟨-, -, hmode⟩
      rw [hnone] at hmode
      simp at hmode
    have hgo : Meets (m.gotoNextItem false draws) (fun _ => True) _ :=
      gotoNextItem_meets hs (fun h => absurd h hnowrap) (.inr trivial)
    rw [hnext] at hgo
    have hzero : toUint32 (m.current + 1) = 0 := by
      rw [hcur]
      rfl
    have hfirst : m'.current = 0 := by
      rw [hgo.2.2.1]
      unfold Playlists.nextIndex
      rw [if_neg hne, if_neg (by rw [hnone]; simp), hzero, if_pos hpos]
    have hother : m'.current ≠ m.current := by
      rw [hfirst, hcur, kInvalidIndex_eq]
      omega
    have hlt := htells.mpr hother
    rw [hcur, kInvalidIndex_eq, predUint32_of_pos hpos (by omega)] at hlt
    omega
  · have hpast : m.masterList.length ≤ toUint32 (m.current + 1) := by
      rw [kInvalidIndex_eq] at hcur
      rw [toUint32_of_lt (by omega)]
      omega
    rw [gotoNextItem_past hnone hne hpast] at hnext
    exact hinvalid (internalSetCurrentIndex_reads hs hne hcur hnext)

/-- A round of `RepeatAll` covers the playlist, `GotoPreviousItem` undoes `GotoNextItem` inside
a round, and in `RepeatNone` `HasAnotherItem` is right exactly while the current index is
valid. -/
theorem goto_through_playlist (m : PlaylistManager) :
    (∀ draws : List (List Rand), m.Sound → m.masterList ≠ [] → m.repeatMode = .repeatAll →
      m.current = 0 → draws.length = m.masterList.length →
      Meets (playRound draws m) Drawing fun r =>
        r.1 = m.playing ∧ r.1.Perm m.masterList ∧ r.2.current = 0 ∧ r.2.Sound ∧
          r.2.masterList = m.masterList ∧ r.2.repeatMode = .repeatAll) ∧
    (∀ draws draws' : List Rand, m.Sound → m.repeatMode = .repeatAll →
      m.current + 1 < m.masterList.length →
      Meets (do
          let m ← m.gotoNextItem false draws
          m.gotoPreviousItem false draws') (fun _ => False) fun m' =>
        m'.current = m.current ∧ m'.getCurrentItem = m.getCurrentItem) ∧
    ∀ draws : List Rand, Reachable m → m.repeatMode = .repeatNone →
      (TellsNext m draws ↔ m.CurrentValid) := by
  refine ⟨?_, ?_, ?_⟩
  · intro draws hs hne hall hfirst hlen
    exact playRound_covers hs hall hne hfirst hlen
  · intro draws draws' hs hall hmore
    exact previous_undoes_next hs hall hmore draws draws'
  · intro draws h hnone
    constructor
    · exact valid_of_tellsNext h.sound h.fits hnone
    · exact fun hvalid => tellsNext_of_valid h.sound h.fits hnone hvalid draws

/-- Three items to play over and over. -/
def threeItems : List Call := [.addItem 1 false, .addItem 2 false, .addItem 3 false]

theorem threeItems_run : ∃ m : PlaylistManager,
    Run (Guarded Proper (Steps next)) (init false .repeatAll fun _ => default) threeItems m ∧
      m.masterList = [1, 2, 3] ∧ m.repeatMode = .repeatAll ∧ m.current = 0 :=
  ⟨_, .cons ⟨by decide, rfl⟩ <| .cons ⟨by decide, rfl⟩ <| .cons ⟨by decide, rfl⟩ <| .refl _,
    rfl, rfl, rfl⟩

theorem goto_through_playlist_threeItems : ∃ m : PlaylistManager,
    Run (Guarded Proper (Steps next)) (init false .repeatAll fun _ => default) threeItems m ∧
      Meets (playRound [[], [], []] m) Drawing fun r =>
        r.1.Perm [1, 2, 3] ∧ r.2.current = 0 := by
  obtain ⟨m, hrun, hlist, hall, hfirst⟩ := threeItems_run
  have hne : m.masterList ≠ [] := by
    rw [hlist]
    exact List.cons_ne_nil _ _
  have hs : m.Sound := Reachable.sound ⟨_, _, _, _, hrun⟩
  have hround := (goto_through_playlist m).1 [[], [], []] hs hne hall hfirst (by rw [hlist]; rfl)
  refine ⟨m, hrun, hround.mono ?_⟩
  rintro r ⟨-, hperm, hcur, -⟩
  rw [hlist] at hperm
  exact ⟨hperm, hcur⟩

/-- An index that has been lost is followed by the first one. -/
theorem gotoNextItem_lost (hs : m.Sound) (hnone : m.repeatMode = .repeatNone)
    (hne : m.masterList ≠ []) (hcur : m.current = kInvalidIndex) (draws : List Rand) :
    ∃ m', m.gotoNextItem false draws = .ok m' ∧ m'.current = 0 := by
  have hpos := List.length_pos_iff.mpr hne
  have hlen : m.masterList.length ≠ 0 := Nat.ne_of_gt hpos
  have hgo : m.repeatMode ≠ .repeatOne ∨ false = true := by
    rw [hnone]
    simp
  have hzero : toUint32 (m.current + 1) = 0 := by
    rw [hcur]
    rfl
  have hmore : ¬ m.masterList.length ≤ 0 := Nat.not_le.mpr hpos
  have hstep : m.gotoNextItem false draws = m.internalSetCurrentIndex 0 := by
    unfold gotoNextItem
    simp only [if_pos hlen, if_pos hgo, hzero, hmore, false_and, if_false]
  have hset := internalSetCurrentIndex_meets (E := fun _ => False) (m := m) (i := 0)
    (.inr (.inr (.inl (by rw [hs.playing_length]; exact hpos)))) (.inr (Nat.zero_le _))
  rw [hstep]
  cases hok : m.internalSetCurrentIndex 0 with
  | error f =>
    rw [hok] at hset
    exact hset.elim
  | ok m' =>
    rw [hok] at hset
    exact ⟨m', rfl, hset.2⟩

theorem lostIndex_run : ∃ m : PlaylistManager,
    Run (Guarded Proper (Steps next)) (init false .repeatNone fun _ => default)
        [.addItem 1 false, .setActivePlaylist .external, .setShuffleMode false []] m ∧
      m.masterList = [1] ∧ m.repeatMode = .repeatNone ∧ m.current = kInvalidIndex :=
  ⟨_, .cons ⟨by decide, rfl⟩ <| .cons ⟨by decide, rfl⟩ <| .cons ⟨by decide, rfl⟩ <| .refl _,
    rfl, rfl, rfl⟩

/-- `HasAnotherItem` denies that there is another item, and `GotoNextItem` goes to the
first. -/
theorem hasAnotherItem_misses_first : ∃ m : PlaylistManager,
    Run (Guarded Proper (Steps next)) (init false .repeatNone fun _ => default)
        [.addItem 1 false, .setActivePlaylist .external, .setShuffleMode false []] m ∧
      m.masterList = [1] ∧ m.repeatMode = .repeatNone ∧ m.current = kInvalidIndex ∧
      m.hasAnotherItem = false ∧
      ∃ m', m.gotoNextItem false [] = .ok m' ∧ m'.current = 0 := by
  obtain ⟨m, hrun, hlist, hnone, hcur⟩ := lostIndex_run
  have hs : m.Sound := Reachable.sound ⟨_, _, _, _, hrun⟩
  refine ⟨m, hrun, hlist, hnone, hcur, ?_, ?_⟩
  · rw [Bool.eq_false_iff]
    intro hanother
    rw [hasAnotherItem_repeatNone hnone, hcur] at hanother
    exact absurd hanother (Nat.not_lt.mpr (predUint32_le _))
  · refine gotoNextItem_lost hs hnone ?_ hcur []
    rw [hlist]
    exact List.cons_ne_nil _ _

end PlaylistManager

end FreeAmp.Base
