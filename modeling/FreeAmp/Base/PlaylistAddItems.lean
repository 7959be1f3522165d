/-
  Base/PlaylistAddItems.lean --- the order in which `AddItems` adds.

  Both functions insert the items in the order given.  On the master playlist they then
  pass the vector on to `ShuffleIt`, which shuffles it in place, and go on with it: the
  caller's vector and the event have the shuffled order.  They have the order given when
  the random numbers happen to give it back, which they can do for 50 items at most.
-/
import FreeAmp.Base.PlaylistInvariant
import FreeAmp.Base.ShuffleItEnds

namespace FreeAmp.Base

open FreeAmp.Lib

/-! ## Draws that keep the order -/

/-- The indices drawn are `k`, `k + 1` and so on, with some that are used between them. -/
def InOrder (max : Nat) : List Rand → Nat → Prop
  | [], k => max ≤ k
  | rand :: draws, k => max ≤ k ∨ (drawIndex max rand = k ∧ InOrder max draws (k + 1)) ∨
      (drawIndex max rand < k ∧ InOrder max draws k)

instance (max : Nat) : ∀ (draws : List Rand) (k : Nat), Decidable (InOrder max draws k)
  | [], k => inferInstanceAs (Decidable (max ≤ k))
  | rand :: draws, k =>
    have := instDecidableInOrder max draws k
    have := instDecidableInOrder max draws (k + 1)
    inferInstanceAs (Decidable (_ ∨ (_ ∧ _) ∨ (_ ∧ _)))

theorem shuffleLoop_front {list : List Ptr} : ∀ {draws : List Rand} {usedList : List Bool}
    {lastindex : Nat} {tempShuffled shuffled : List Ptr},
    shuffleLoop list draws usedList lastindex tempShuffled = .ok shuffled →
      tempShuffled <+: shuffled := by
  intro draws
  induction draws with
  | nil =>
    intro usedList lastindex tempShuffled shuffled h
    unfold shuffleLoop at h
    split at h
    · cases h
    · obtain rfl := Except.ok.inj h
      exact List.prefix_refl _
  | cons rand draws ih =>
    intro usedList lastindex tempShuffled shuffled h
    by_cases hmore : tempShuffled.length < list.length
    · have hlt := drawIndex_lt (Nat.lt_of_le_of_lt (Nat.zero_le _) hmore) rand
      cases haccept : acceptIndex usedList (list.length - tempShuffled.length) lastindex
          (drawIndex list.length rand) with
      | true =>
        rw [shuffleLoop_accept hmore haccept (List.getElem?_eq_getElem hlt)] at h
        exact (List.prefix_append _ _).trans (ih h)
      | false =>
        rw [shuffleLoop_reject hmore haccept] at h
        exact ih h
    · rw [shuffleLoop_done hmore] at h
      obtain rfl := Except.ok.inj h
      exact List.prefix_refl _

/-- Of distinct items only the next one in order leads back to the order. -/
theorem next_of_front {list : List Ptr} (hnodup : list.Nodup) {k index : Nat}
    (hindex : index < list.length) (hk : k < list.length)
    (h : list.take k ++ [list[index]] <+: list) : index = k := by
  obtain ⟨rest, hrest⟩ := h
  have hlen : (list.take k).length = k := by
    rw [List.length_take]
    omega
  have hplace : list[k]? = some list[index] := by
    have hget := congrArg (fun l : List Ptr => l[k]?) hrest
    simp only [List.append_assoc] at hget
    rw [List.getElem?_append_right (by omega), hlen, Nat.sub_self] at hget
    exact hget.symm
  have hplace' := List.getElem?_eq_getElem hindex
  exact ((List.getElem?_inj hk hnodup).mp (hplace.trans hplace'.symm)).symm

theorem acceptIndex_few {usedList : List Bool} {left lastindex index : Nat}
    (hfree : usedList[index]? = some false) (hfew : left ≤ 50) :
    acceptIndex usedList left lastindex index = true := by
  unfold acceptIndex
  simp [hfree, Nat.not_lt.mpr hfew]

theorem acceptIndex_used {usedList : List Bool} {left lastindex index : Nat}
    (hused : usedList[index]? = some true) : acceptIndex usedList left lastindex index = false := by
  unfold acceptIndex
  simp [hused]

/-- With few items the loop gives them in order exactly for draws in order. -/
theorem shuffleLoop_inOrder_iff {list : List Ptr} (hnodup : list.Nodup)
    (hfew : list.length ≤ 50) : ∀ {draws : List Rand} {k : Nat} {usedList : List Bool}
    {lastindex : Nat}, k ≤ list.length → Drawn list usedList (list.take k) (List.range k) →
    (shuffleLoop list draws usedList lastindex (list.take k) = .ok list ↔
      InOrder list.length draws k) := by
  intro draws
  induction draws with
  | nil =>
    intro k usedList lastindex hk h
    unfold shuffleLoop InOrder
    rw [List.length_take, Nat.min_eq_left hk]
    rcases Nat.lt_or_eq_of_le hk with hlt | rfl
    · rw [if_pos hlt]
      exact ⟨(fun hloop => by cases hloop), fun hle => absurd hlt (Nat.not_lt.mpr hle)⟩
    · rw [if_neg (Nat.lt_irrefl _), List.take_length]
      exact ⟨fun _ => Nat.le_refl _, fun _ => rfl⟩
  | cons rand draws ih =>
    intro k usedList lastindex hk h
    have hlen : (list.take k).length = k := by
      rw [List.length_take, Nat.min_eq_left hk]
    rcases Nat.lt_or_eq_of_le hk with hlt | rfl
    · have hmore : (list.take k).length < list.length := by
        rw [hlen]
        exact hlt
      have hdraw := drawIndex_lt (Nat.lt_of_le_of_lt (Nat.zero_le _) hlt) rand
      have hitem := List.getElem?_eq_getElem hdraw
      have hleft : list.length - (list.take k).length ≤ 50 := by omega
      have hin : drawIndex list.length rand ∈ List.range k ↔ drawIndex list.length rand < k :=
        List.mem_range
      rw [InOrder]
      rcases Nat.lt_trichotomy (drawIndex list.length rand) k with hused | hnext | hlater
      · have hmark := (h.used_iff _ hdraw).mpr (hin.mpr hused)
        rw [shuffleLoop_reject hmore (acceptIndex_used hmark), ih hk h]
        constructor
        · exact fun hrest => .inr (.inr ⟨hused, hrest⟩)
        · rintro (hdone | ⟨heq, -⟩ | ⟨-, hrest⟩)
          · exact absurd hlt (Nat.not_lt.mpr hdone)
          · exact absurd hused (by omega)
          · exact hrest
      · have hfree := h.used_false hdraw (fun hmem => absurd (hin.mp hmem) (by omega))
        have hpush := h.push hfree hitem
        have htake : list.take k ++ [list[drawIndex list.length rand]] = list.take (k + 1) := by
          rw [← List.take_append_getElem hlt]
          simp only [hnext]
        rw [shuffleLoop_accept hmore (acceptIndex_few hfree hleft) hitem]
        rw [htake, hnext, ← List.range_succ] at hpush
        rw [htake, hnext, ih hlt hpush]
        constructor
        · exact fun hrest => .inr (.inl ⟨rfl, hrest⟩)
        · rintro (hdone | ⟨-, hrest⟩ | ⟨hless, -⟩)
          · exact absurd hlt (Nat.not_lt.mpr hdone)
          · exact hrest
          · exact absurd hless (Nat.lt_irrefl _)
      · have hfree := h.used_false hdraw (fun hmem => absurd (hin.mp hmem) (by omega))
        rw [shuffleLoop_accept hmore (acceptIndex_few hfree hleft) hitem]
        constructor
        · intro hloop
          have hnext := next_of_front hnodup hdraw hlt (shuffleLoop_front hloop)
          omega
        · rintro (hdone | ⟨heq, -⟩ | ⟨hless, -⟩)
          · exact absurd hlt (Nat.not_lt.mpr hdone)
          · omega
          · omega
    · rw [shuffleLoop_done (by rw [hlen]; exact Nat.lt_irrefl _), List.take_length, InOrder]
      exact ⟨fun _ => .inl (Nat.le_refl _), fun _ => rfl⟩

theorem shuffleLoop_many {list : List Ptr} (hnodup : list.Nodup) (hmany : 50 < list.length)
    (usedList : List Bool) : ∀ {draws : List Rand},
    shuffleLoop list draws usedList 0 [] ≠ .ok list := by
  intro draws
  have hmore : ([] : List Ptr).length < list.length := Nat.lt_trans (Nat.zero_lt_succ _) hmany
  induction draws with
  | nil =>
    unfold shuffleLoop
    rw [if_pos hmore]
    intro hloop
    cases hloop
  | cons rand draws ih =>
    have hdraw := drawIndex_lt hmore rand
    cases haccept : acceptIndex usedList (list.length - ([] : List Ptr).length) 0
        (drawIndex list.length rand) with
    | true =>
      rw [shuffleLoop_accept hmore haccept (List.getElem?_eq_getElem hdraw)]
      intro hloop
      have hfirst := @next_of_front list hnodup 0 _ hdraw hmore (shuffleLoop_front hloop)
      rw [hfirst] at haccept
      unfold acceptIndex distance at haccept
      simp [hmany] at haccept
    | false =>
      rw [shuffleLoop_reject hmore haccept]
      exact ih

/-- When `ShuffleIt` leaves distinct items in their order. -/
theorem shuffleIt_eq_self_iff {list : List Ptr} (hnodup : list.Nodup) (draws : List Rand) :
    shuffleIt list draws = .ok list ↔ list.length ≤ 50 ∧ InOrder list.length draws 0 := by
  unfold shuffleIt
  constructor
  · intro h
    have hfew : list.length ≤ 50 := by
      by_contra hmany
      exact shuffleLoop_many hnodup (Nat.not_le.mp hmany) _ h
    exact ⟨hfew, (shuffleLoop_inOrder_iff hnodup hfew (Nat.zero_le _) (Drawn.init list)).mp h⟩
  · rintro ⟨hfew, horder⟩
    exact (shuffleLoop_inOrder_iff hnodup hfew (Nat.zero_le _) (Drawn.init list)).mpr horder

namespace PlaylistManager

variable {E : Fault → Prop} {m : PlaylistManager} {list : List Ptr} {index : Nat}
  {draws : List Rand} {r : Error × List Ptr × PlaylistManager}

/-! ## The thread that is started -/

theorem markRetrieving_live {h h' : ItemHeap} {p : Ptr} (hlive : h.live p)
    (hfreed : h'.freed = h.freed) :
    Meets (h'.markRetrieving p) E fun h'' =>
      h''.freed = h'.freed ∧ h''.threads = h'.threads := by
  have hlive' : h'.live p := by
    unfold ItemHeap.live at hlive ⊢
    rw [hfreed]
    exact hlive
  unfold ItemHeap.markRetrieving ItemHeap.getState
  rw [if_pos hlive.1, if_pos hlive', Meets.bind_iff, Meets.ok_iff]
  split
  · exact ⟨rfl, rfl⟩
  · exact ⟨rfl, rfl⟩

/-- `RetrieveMetaData` starts one thread for the items. -/
theorem retrieveMetaData_live {h : ItemHeap} {items : List Ptr} (hlive : ∀ p ∈ items, h.live p) :
    Meets (h.retrieveMetaData items) E fun h' => h'.threads = h.threads ++ [⟨items, none, []⟩] := by
  have hloop : Meets (items.foldlM ItemHeap.markRetrieving h) E fun h' =>
      h'.freed = h.freed ∧ h'.threads = h.threads := by
    refine Meets.foldlM items (fun h' p hp hkept => ?_) ⟨rfl, rfl⟩
    refine (markRetrieving_live (hlive p hp) hkept.1).mono ?_
    rintro h'' ⟨hfreed, hthreads⟩
    exact ⟨hfreed.trans hkept.1, hthreads.trans hkept.2⟩
  unfold ItemHeap.retrieveMetaData
  rw [Meets.bind_iff]
  refine hloop.mono ?_
  rintro h' ⟨-, hthreads⟩
  rw [Meets.pure_iff, hthreads]

/-- A thread for exactly these items has been started. -/
def Retrieves (m : PlaylistManager) (list : List Ptr) (h : ItemHeap) : Prop :=
  ∃ items, items.Perm list ∧ h.threads = m.threads ++ [⟨items, none, []⟩]

theorem queried_live (hlive : ∀ p ∈ list, m.toItemHeap.live p) {items : List Ptr}
    (hperm : items.Perm list) : Queried m E (Retrieves m list) true items := by
  unfold Queried
  rw [if_pos rfl]
  refine (retrieveMetaData_live fun p hp => hlive p (hperm.mem_iff.mp hp)).mono ?_
  exact fun h' hthreads => ⟨items, hperm, hthreads⟩

/-! ## Adding in order -/

/-- The items stand in the playlist as a block in the order given, the caller's vector is as it
was, a thread is started for exactly these items, and the event that is sent last lists them as
they stand. -/
structure AddsInOrder (m : PlaylistManager) (list : List Ptr) (index : Nat)
    (r : Error × List Ptr × PlaylistManager) : Prop where
  noErr : r.1 = .noErr
  inserted : r.2.2.active = m.active.take index ++ list ++ m.active.drop index
  vector : r.2.1 = list
  retrieval : Retrieves m list r.2.2.toItemHeap
  event : r.2.2.events.getLast? = some (.itemsAdded list)

/-- The items are added to a playlist that is not shuffled, or the shuffle gives them back in
their order. -/
def KeepsOrder (m : PlaylistManager) (list : List Ptr) (draws : List Rand) : Prop :=
  m.onMaster = true → list.length ≤ 50 ∧ InOrder list.length draws 0

theorem room_of_insertItems {l items l' : List Ptr} {i : Nat}
    (h : insertItems l i items = .ok l') : l.length + items.length ≤ vecMaxSize := by
  unfold insertItems at h
  split at h
  · exact absurd h nofun
  · rename_i hroom
    exact Nat.not_lt.mp hroom

theorem addItems_ok (h : m.addItems list true draws = .ok r) :
    m.active.length + list.length ≤ vecMaxSize ∧
      (if m.onMaster = true then shuffleIt list draws else pure list) = .ok r.2.1 ∧
      r.1 = .noErr ∧ r.2.2.events.getLast? = some (.itemsAdded r.2.1) := by
  unfold addItems at h
  obtain ⟨active, hinsert, h⟩ := bind_eq_ok.mp h
  obtain ⟨items, hshuffle, h⟩ := bind_eq_ok.mp h
  obtain ⟨m₁, -, h⟩ := bind_eq_ok.mp h
  obtain ⟨m₂, -, h⟩ := bind_eq_ok.mp h
  obtain rfl := Except.ok.inj h
  rw [onMaster_setActiveList] at hshuffle
  exact ⟨room_of_insertItems hinsert, hshuffle, rfl, List.getLast?_concat⟩

theorem addItemsAt_ok (hs : m.Sound) (h : m.addItemsAt list index true draws = .ok r) :
    (∃ x, m.getCurrentItem = .ok x) ∧ m.active.length + list.length ≤ vecMaxSize ∧
      (if m.onMaster = true then shuffleIt list draws else pure list) = .ok r.2.1 ∧
      r.1 = .noErr ∧ r.2.2.events.getLast? = some (.itemsAdded r.2.1) := by
  unfold addItemsAt at h
  rw [if_pos (insertIndex_ne hs index)] at h
  obtain ⟨x, hx, h⟩ := bind_eq_ok.mp h
  obtain ⟨active, hinsert, h⟩ := bind_eq_ok.mp h
  obtain ⟨items, hshuffle, h⟩ := bind_eq_ok.mp h
  obtain ⟨m₁, -, h⟩ := bind_eq_ok.mp h
  obtain ⟨m₂, -, h⟩ := bind_eq_ok.mp h
  obtain rfl := Except.ok.inj h
  rw [onMaster_setActiveList] at hshuffle
  exact ⟨⟨x, hx⟩, room_of_insertItems hinsert, hshuffle, rfl, List.getLast?_concat⟩

/-- The caller's vector is as it was when the order is kept. -/
theorem vector_eq_iff {l : List Ptr} (hnodup : list.Nodup)
    (h : (if m.onMaster = true then shuffleIt list draws else pure list) = .ok l) :
    l = list ↔ KeepsOrder m list draws := by
  unfold KeepsOrder
  rw [← shuffleIt_eq_self_iff hnodup]
  cases hm : m.onMaster with
  | false =>
    rw [hm] at h
    obtain rfl := Except.ok.inj h
    exact ⟨fun _ => nofun, fun _ => rfl⟩
  | true =>
    rw [hm, if_pos rfl] at h
    rw [h]
    exact ⟨fun heq _ => congrArg _ heq, fun heq => Except.ok.inj (heq rfl)⟩

/-- The shuffle ends that gives the items back in their order. -/
theorem ends_of_keepsOrder (hnodup : list.Nodup) (horder : KeepsOrder m list draws)
    (hm : m.onMaster = true) : ∃ shuffled, shuffleIt list draws = .ok shuffled :=
  ⟨list, (shuffleIt_eq_self_iff hnodup draws).mpr (horder hm)⟩

/-- A manager without any items. -/
def emptyManager : PlaylistManager := init false .repeatNone fun _ => default

end PlaylistManager

end FreeAmp.Base
