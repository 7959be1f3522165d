/-
  Base/PlaylistLifetime.lean --- every item is freed once, and not before it has left
  the playlists.

  `Lifetime m gone allSettled` says that the ledger of the items holds with the items of
  the two lists on the one side and those in `gone` on the other.  Every call moves
  items from the lists to `gone`, or takes new ones in: `Accounts` says that nothing
  else appears or gets lost.  `call_accounts` proves it for every call, from what the
  call is known to do to the lists and what its steps on the items do to the ledger.
-/
import FreeAmp.Base.PlaylistInvariant
import FreeAmp.Base.ItemLedger

namespace FreeAmp.Base

open FreeAmp.Lib

namespace PlaylistManager

variable {E : Fault → Prop} {m m' m₂ : PlaylistManager} {c : Call}
  {list shuffled gone removed kept new items : List Ptr} {keeps allSettled : Prop}

/-! ## The items of the playlists -/

/-- The items of both lists. -/
def listed (m : PlaylistManager) : List Ptr := m.masterList ++ m.externalList

/-- The list that `m_activeList` does not point to. -/
def inactive (m : PlaylistManager) : List Ptr :=
  if m.onMaster then m.externalList else m.masterList

theorem listed_perm (hs : m.Sound) : m.listed.Perm (m.active ++ m.inactive) := by
  unfold listed inactive
  cases hm : m.onMaster with
  | true =>
    rw [hs.active_eq hm, if_pos rfl]
  | false =>
    rw [hs.active_external hm, if_neg Bool.false_ne_true]
    exact List.perm_append_comm

theorem Outcome.listed_perm {R : ItemHeap → Prop} (h : Outcome m list shuffled keeps R m') :
    m'.listed.Perm (list ++ m.inactive) := by
  unfold PlaylistManager.listed inactive
  cases hm : m.onMaster with
  | true =>
    rw [h.master hm, if_pos rfl]
  | false =>
    rw [h.external hm, if_neg Bool.false_ne_true]
    exact List.perm_append_comm

theorem Outcome.portableList {R : ItemHeap → Prop} (h : Outcome m list shuffled keeps R m') :
    m'.portableList = m.portableList := by
  cases hm : m.onMaster with
  | true => rw [h.master hm]
  | false => rw [h.external hm]

/-- The items that a call takes in. -/
def added : Call → List Ptr
  | .addItem item _ => [item]
  | .addItemAt item _ _ => [item]
  | .addItems list _ _ => list
  | .addItemsAt list _ _ _ => list
  | .setExternalPlaylist read => read.items
  | .setPortablePlaylist read _ => read.items
  | .readPortablePlaylist itemsGiven read _ => if itemsGiven then [] else read.items
  | _ => []

/-- The items that calls take in. -/
def entered (calls : List Call) : List Ptr := calls.flatMap added

/-- The items that a call drops. -/
def dropped (m : PlaylistManager) : Call → List Ptr
  | .removeItem index => m.active[index]?.toList
  | .removeRange index count => (m.active.drop index).take count
  | .removeItems items => items
  | .removeAll => m.active
  | .setExternalPlaylist _ => m.externalList
  | _ => []

/-! ## The account of a manager -/

/-- The ledger holds of the items in the lists and those that have left them. -/
structure Lifetime (m : PlaylistManager) (gone : List Ptr) (allSettled : Prop) : Prop where
  sound : m.Sound
  portable : m.portableList = []
  ledger : m.toItemHeap.Ledger m.listed gone allSettled

/-- The items are those there were before and the new ones. -/
def Accounts (m : PlaylistManager) (gone : List Ptr) (allSettled : Prop) (new : List Ptr)
    (m' : PlaylistManager) : Prop :=
  ∃ gone', Lifetime m' gone' allSettled ∧ (m'.listed ++ gone').Perm (new ++ (m.listed ++ gone))

theorem regroup (a b c d : List Ptr) : (a ++ b ++ (c ++ d)).Perm (c ++ a ++ (b ++ d)) := by
  have hswap : (a ++ b ++ c).Perm (c ++ (a ++ b)) := List.perm_append_comm
  have hright := hswap.append_right d
  simpa only [List.append_assoc] using hright

theorem Lifetime.of_outcome (hl : Lifetime m gone allSettled)
    (h : Outcome m kept shuffled keeps
      (fun heap => heap.Ledger (kept ++ m.inactive) (removed ++ gone) allSettled) m')
    (hperm : (removed ++ kept).Perm (new ++ m.active)) : Accounts m gone allSettled new m' := by
  have hlisted := h.listed_perm
  refine ⟨removed ++ gone, ⟨h.sound, ?_, h.heap.perm hlisted (.refl _)⟩, ?_⟩
  · rw [h.portableList]
    exact hl.portable
  · have hbefore := ((listed_perm hl.sound).symm.append_right gone).append_left new
    rw [List.append_assoc m.active, ← List.append_assoc new] at hbefore
    refine (hlisted.append_right _).trans ?_
    refine (regroup kept m.inactive removed gone).trans ?_
    exact (hperm.append_right _).trans hbefore

theorem Lifetime.of_lists (hl : Lifetime m gone allSettled)
    (hlists : m'.toPlaylists = m.toPlaylists)
    (hledger : m'.toItemHeap.Ledger m.listed gone allSettled) :
    Accounts m gone allSettled [] m' := by
  have hlisted : m'.listed = m.listed := by
    unfold listed
    rw [hlists]
  refine ⟨gone, ⟨?_, ?_, ?_⟩, ?_⟩
  · rw [hlists]
    exact hl.sound
  · rw [hlists]
    exact hl.portable
  · rw [hlisted]
    exact hledger
  · rw [hlisted]
    exact .refl _

theorem Lifetime.settled (hl : Lifetime m gone allSettled) (hall : allSettled) {p : Ptr}
    (hp : p ∈ m.listed) : m.toItemHeap.Settled p :=
  hl.ledger.settled hall p (hl.ledger.ne_null (List.mem_append_left _ hp)) (hl.ledger.not_gone hp)

theorem mem_listed_of_active (hs : m.Sound) {p : Ptr} (hp : p ∈ m.active) : p ∈ m.listed :=
  (listed_perm hs).mem_iff.mpr (List.mem_append_left _ hp)

/-! ## Adding -/

/-- The items taken in are new to the lists and have not left them before. -/
structure Fresh (m : PlaylistManager) (gone items : List Ptr) : Prop where
  nodup : (items ++ (m.listed ++ gone)).Nodup
  nonnull : null ∉ items

theorem Fresh.newItems (h : Fresh m gone items) : NewItems m items := by
  obtain ⟨hnodup, -, hdisjoint⟩ := List.nodup_append.mp h.nodup
  refine ⟨hnodup, h.nonnull, fun p hp hmem => ?_⟩
  exact hdisjoint p hp p (List.mem_append_left _ (List.mem_append_left _ hmem)) rfl

theorem Lifetime.queried (hl : Lifetime m gone allSettled) (hfresh : Fresh m gone items)
    (hlist : list.Perm (items ++ m.active)) {items' : List Ptr} (hperm : items'.Perm items)
    (queryForMetaData : Bool) :
    Queried m E (fun heap => heap.Ledger (list ++ m.inactive) ([] ++ gone) allSettled)
      queryForMetaData items' := by
  have hledger := hl.ledger.perm (listed_perm hl.sound).symm (.refl gone)
  have howned : (list ++ m.inactive).Perm (items ++ (m.active ++ m.inactive)) := by
    rw [← List.append_assoc]
    exact hlist.append_right _
  have hnodup : (items ++ (m.active ++ m.inactive) ++ gone).Nodup := by
    have hall := ((listed_perm hl.sound).append_right gone).append_left items
    rw [List.append_assoc]
    exact hall.nodup_iff.mp hfresh.nodup
  unfold Queried
  cases queryForMetaData with
  | true =>
    rw [if_pos rfl]
    exact (ItemHeap.enter_ledger hledger hnodup hfresh.nonnull hperm).mono
      fun heap h => h.perm howned (.refl _)
  | false =>
    rw [if_neg Bool.false_ne_true]
    exact (hledger.enter hnodup hfresh.nonnull).perm howned (.refl _)

theorem addItems_accounts (hl : Lifetime m gone allSettled) (hlen : E .lengthError)
    (hdraw : E .drawing) (hfresh : Fresh m gone items) (queryForMetaData : Bool)
    (draws : List Rand) :
    Meets (m.addItems items queryForMetaData draws) E fun r =>
      Accounts m gone allSettled items r.2.2 := by
  have hperm : (m.active ++ items).Perm (items ++ m.active) := List.perm_append_comm
  refine (addItems_meets hl.sound (.inr hlen) (.inr hdraw) (fun _ => hfresh.newItems)
    fun items' hitems => hl.queried hfresh hperm hitems _).mono ?_
  exact fun r h => hl.of_outcome h.2 hperm

/-! ## Removing -/

theorem Lifetime.release (hl : Lifetime m gone allSettled)
    (hperm : (removed ++ kept).Perm m.active) (hset : ∀ p ∈ removed, m.toItemHeap.Settled p) :
    Meets (removed.foldlM ItemHeap.releaseItem m.toItemHeap) E fun heap =>
      heap.Ledger (kept ++ m.inactive) (removed ++ gone) allSettled := by
  have howned : (removed ++ (kept ++ m.inactive)).Perm m.listed := by
    rw [← List.append_assoc]
    exact (hperm.append_right _).trans (listed_perm hl.sound).symm
  exact ItemHeap.release_ledger removed (hl.ledger.perm howned (.refl _)) hset

theorem removeItem_accounts (hl : Lifetime m gone allSettled) (hcur : E .badCurrent)
    (index : Nat) (hset : ∀ p ∈ m.active[index]?, m.toItemHeap.Settled p) :
    Meets (m.removeItem index) E fun r => Accounts m gone allSettled [] r.2 := by
  rcases Nat.lt_or_ge index m.active.length with hlt | hge
  · have hitem := List.getElem?_eq_getElem hlt
    have hperm : ([m.active[index]] ++ m.active.eraseIdx index).Perm m.active :=
      List.getElem_cons_eraseIdx_perm hlt
    have hR := hl.release (E := E) hperm fun p hp => by
      rw [List.mem_singleton.mp hp]
      exact hset _ hitem
    simp only [List.foldlM_cons, List.foldlM_nil, bind_pure] at hR
    exact (removeItem_meets hl.sound (.inr hcur) hitem hR).mono
      fun r h => hl.of_outcome h.2.2 hperm
  · rw [removeItem_invalid hl.sound hge]
    exact hl.of_lists rfl hl.ledger

theorem removeRange_accounts (hl : Lifetime m gone allSettled) (hcur : E .badCurrent)
    {index count : Nat} (hin : index < m.active.length → index + count ≤ m.active.length)
    (hset : ∀ p ∈ (m.active.drop index).take count, m.toItemHeap.Settled p) :
    Meets (m.removeRange index count) E fun r => Accounts m gone allSettled [] r.2 := by
  rcases Nat.lt_or_ge index m.active.length with hlt | hge
  · have hperm := range_perm m.active index count
    refine (removeRange_meets hl.sound (.inr hcur) hlt (.inl (hin hlt))
      (hl.release hperm hset)).mono ?_
    exact fun r h => hl.of_outcome h.2.2.2 hperm
  · rw [removeRange_invalid hl.sound hge]
    exact hl.of_lists rfl hl.ledger

theorem nonNull_eq (hnull : null ∉ items) : nonNull items = items := by
  refine List.filter_eq_self.mpr fun p hp => ?_
  have hne : p ≠ null := fun h => hnull (h ▸ hp)
  simpa using hne

theorem removeItems_accounts (hl : Lifetime m gone allSettled) (hcur : E .badCurrent)
    (hmem : Members m items) (hset : ∀ p ∈ items, m.toItemHeap.Settled p) :
    Meets (m.removeItems items) E fun r => Accounts m gone allSettled [] r.2 := by
  have hsub := hmem.subperm
  have hperm : (nonNull items ++ m.active.diff (nonNull items)).Perm m.active :=
    List.subperm_append_diff_self_of_count_le (List.subperm_ext_iff.mp hsub)
  have hset' : ∀ p ∈ nonNull items, m.toItemHeap.Settled p := by
    rw [nonNull_eq hmem.nonnull]
    exact hset
  refine (removeItems_meets hl.sound (.inr hcur) (.inl hsub) (hl.release hperm hset')).mono ?_
  exact fun r h => hl.of_outcome h.2.2.2 hperm

theorem removeAll_accounts (hl : Lifetime m gone allSettled)
    (hset : ∀ p ∈ m.active, m.toItemHeap.Settled p) :
    Meets m.removeAll E (Accounts m gone allSettled []) := by
  have hperm : (m.active.reverse ++ []).Perm m.active := by
    rw [List.append_nil]
    exact List.reverse_perm _
  have hnull : null ∉ m.active.reverse := fun hmem => hl.ledger.nonnull
    (List.mem_append_left _ (mem_listed_of_active hl.sound (List.mem_reverse.mp hmem)))
  refine (removeAll_meets hl.sound ?_).mono fun m' h => hl.of_outcome h hperm
  rw [ItemHeap.releaseItems_eq hnull]
  exact hl.release hperm fun p hp => hset p (List.mem_reverse.mp hp)

/-! ## Choosing the playlist -/

theorem setActivePlaylist_accounts (hl : Lifetime m gone allSettled) (key : PlaylistKey) :
    Accounts m gone allSettled [] (m.setActivePlaylist key).2 := by
  refine ⟨gone, ⟨setActivePlaylist_sound hl.sound key, ?_, ?_⟩, ?_⟩
  · cases key <;> exact hl.portable
  · cases key <;> exact hl.ledger
  · cases key <;> exact .refl _

/-- The old items of the external playlist go and the new ones take their place. -/
theorem setExternalPlaylist_accounts (hl : Lifetime m gone allSettled) (hlen : E .lengthError)
    {read : PlugInResult} (hfresh : Fresh m gone read.items)
    (hset : ∀ p ∈ m.externalList, m.toItemHeap.Settled p) :
    Meets (m.setExternalPlaylist read) E fun r => Accounts m gone allSettled read.items r.2 := by
  have hledger : m.toItemHeap.Ledger (m.externalList ++ m.masterList) gone allSettled :=
    hl.ledger.perm List.perm_append_comm (.refl _)
  unfold setExternalPlaylist
  simp only [Meets.bind_iff, onHeap_iff]
  refine (ItemHeap.releaseItems_ledger hledger hset).mono fun heap hledger' => ?_
  refine (insertItems_meets (.inr hlen) (Nat.le_refl _)).mono ?_
  rintro externalList ⟨hlist, hsize⟩
  have hitems : externalList = read.items := by
    simpa using hlist
  have hmid : (m.masterList ++ (m.externalList ++ gone)).Perm (m.listed ++ gone) := by
    rw [← List.append_assoc]
    exact .refl _
  have hnodup : (read.items ++ m.masterList ++ (m.externalList ++ gone)).Nodup := by
    rw [List.append_assoc]
    exact (hmid.append_left read.items).nodup_iff.mpr hfresh.nodup
  rw [hitems] at hsize ⊢
  refine (ItemHeap.enter_ledger hledger' hnodup hfresh.nonnull (.refl _)).mono
    fun heap' hledger'' => ?_
  have hlisted : (m.masterList ++ read.items).Perm (read.items ++ m.masterList) :=
    List.perm_append_comm
  refine ⟨m.externalList ++ gone, ⟨{ hl.sound with external_size := hsize }, hl.portable,
    hledger''.perm hlisted (.refl _)⟩, ?_⟩
  refine (hlisted.append_right _).trans ?_
  rw [List.append_assoc]
  exact hmid.append_left read.items

/-- With nothing in the external list `ReadPortablePlaylist` only adds items. -/
theorem readPortablePlaylist_accounts (hl : Lifetime m gone allSettled) (hlen : E .lengthError)
    (hdraw : E .drawing) {itemsGiven : Bool} {read : PlugInResult} {draws : List Rand}
    (hempty : itemsGiven = false → m.externalList = [])
    (hfresh : Fresh m gone (if itemsGiven then [] else read.items)) :
    Meets (m.readPortablePlaylist itemsGiven read draws) E fun r =>
      Accounts m gone allSettled (if itemsGiven then [] else read.items) r.2 := by
  unfold readPortablePlaylist
  cases itemsGiven with
  | true => exact hl.of_lists rfl hl.ledger
  | false =>
    have hnone : m.onHeap (m.toItemHeap.releaseItems []) = pure m := rfl
    simp only [Bool.false_eq_true, if_false] at hfresh ⊢
    rw [hempty rfl, hnone, pure_bind, Meets.bind_iff]
    exact addItems_accounts hl hlen hdraw hfresh true draws

/-! ## Every call -/

/-- The arguments of a call that edits the playlists are well formed; a step of a thread can
be taken at any time. -/
def LifetimeCall (m : PlaylistManager) : Call → Prop
  | .addItem _ _ => True
  | .addItemAt _ _ _ => True
  | .addItems _ _ _ => True
  | .addItemsAt _ _ _ _ => True
  | .removeItem _ => True
  | .removeRange index count => index < m.active.length → index + count ≤ m.active.length
  | .removeItems items => Members m items
  | .removeAll => True
  | .setActivePlaylist _ => True
  | .setExternalPlaylist _ => True
  | .setPortablePlaylist _ _ => True
  | .readPortablePlaylist _ _ _ => True
  | .threadRead _ _ => True
  | .threadComplete _ => True
  | .threadFinish _ => True
  | _ => False

instance (m : PlaylistManager) (c : Call) : Decidable (LifetimeCall m c) := by
  apply @Call.casesOn (fun c => Decidable (LifetimeCall m c)) c <;> intros <;> unfold LifetimeCall <;>
    infer_instance

/-- A portable playlist is read only when the external list has nothing in it. -/
def ClearedFirst (m : PlaylistManager) : Call → Prop
  | .setPortablePlaylist _ _ => m.externalList = []
  | .readPortablePlaylist itemsGiven _ _ => itemsGiven = false → m.externalList = []
  | _ => True

instance (m : PlaylistManager) (c : Call) : Decidable (ClearedFirst m c) := by
  apply @Call.casesOn (fun c => Decidable (ClearedFirst m c)) c <;> intros <;> unfold ClearedFirst <;>
    infer_instance

/-- The faults that say nothing about the items. -/
def NotPointer (f : Fault) : Prop := f ≠ .badPointer

theorem call_accounts (hl : Lifetime m gone allSettled) (hc : LifetimeCall m c)
    (hclear : ClearedFirst m c) (hfresh : Fresh m gone (added c))
    (hset : ∀ p ∈ dropped m c, m.toItemHeap.Settled p) :
    Meets (m.call c) NotPointer (Accounts m gone allSettled (added c)) := by
  have hlen : NotPointer .lengthError := by simp [NotPointer]
  have hdraw : NotPointer .drawing := by simp [NotPointer]
  have hcur : NotPointer .badCurrent := by simp [NotPointer]
  have hs := hl.sound
  cases c with
  | addItem item queryForMetaData =>
    have hnull : item ≠ null := fun h => hfresh.nonnull (h ▸ List.mem_cons_self)
    have hperm : (m.active ++ [item]).Perm ([item] ++ m.active) := List.perm_append_comm
    rw [call, map_iff]
    exact (addItem_meets hs hlen hnull (fun _ => hfresh.newItems)
      (hl.queried hfresh hperm (.refl _) _)).mono fun r h => hl.of_outcome h hperm
  | addItemAt item index queryForMetaData =>
    have hnull : item ≠ null := fun h => hfresh.nonnull (h ▸ List.mem_cons_self)
    have hperm := (insert_perm m.active [item] index).trans List.perm_append_comm
    rw [call, map_iff]
    exact (addItemAt_meets hs (.inr hcur) hlen hnull (fun _ => hfresh.newItems)
      (hl.queried hfresh hperm (.refl _) _)).mono fun r h => hl.of_outcome h hperm
  | addItems list queryForMetaData draws =>
    rw [call, map_iff]
    exact addItems_accounts hl hlen hdraw hfresh queryForMetaData draws
  | addItemsAt list index queryForMetaData draws =>
    have hperm := (insert_perm m.active list index).trans List.perm_append_comm
    rw [call, map_iff]
    exact (addItemsAt_meets hs (.inr hcur) (.inr hlen) (.inr hdraw) (fun _ => hfresh.newItems)
      fun items' hitems => hl.queried hfresh hperm hitems _).mono
      fun r h => hl.of_outcome h.2 hperm
  | removeItem index =>
    rw [call, map_iff]
    refine removeItem_accounts hl hcur index fun p hp => hset p ?_
    exact Option.mem_toList.mpr hp
  | removeRange index count =>
    rw [call, map_iff]
    exact removeRange_accounts hl hcur hc hset
  | removeItems items =>
    rw [call, map_iff]
    exact removeItems_accounts hl hcur hc hset
  | removeAll => exact removeAll_accounts hl hset
  | setActivePlaylist key => exact setActivePlaylist_accounts hl key
  | setExternalPlaylist read =>
    rw [call, map_iff]
    exact setExternalPlaylist_accounts hl hlen hfresh hset
  | setPortablePlaylist read draws =>
    rw [call, map_iff, setPortablePlaylist]
    exact readPortablePlaylist_accounts hl hlen hdraw (fun _ => hclear) hfresh
  | readPortablePlaylist itemsGiven read draws =>
    rw [call, map_iff]
    exact readPortablePlaylist_accounts hl hlen hdraw hclear hfresh
  | threadRead k found =>
    exact (threadRead_ledger hl.ledger k found).mono fun m' h => hl.of_lists h.1 h.2
  | threadComplete k =>
    exact (threadComplete_ledger hl.ledger hs (.inr hcur) k).mono
      fun m' h => hl.of_lists h.1 h.2
  | threadFinish k => exact hl.of_lists (threadFinish_lists k) (threadFinish_ledger hl.ledger k)
  | _ => exact hc.elim

/-! ## Runs -/

theorem init_lifetime (shuffle : Bool) (mode : RepeatMode) (contents : Ptr → Text × MetaData) :
    Lifetime (init shuffle mode contents) [] allSettled where
  sound := init_sound shuffle mode contents
  portable := rfl
  ledger :=
    { nodup := .nil
      nonnull := List.not_mem_nil
      usable := fun p _ _ => ⟨rfl, by simp [init, PlaylistItem.create]⟩
      freedOnce := fun p hp => absurd hp List.not_mem_nil
      settled := fun _ p _ _ => rfl
      unheld := fun _ p _ _ => rfl
      heads := fun t ht => absurd ht List.not_mem_nil }

/-- What every call accounts for, every run accounts for. -/
theorem run_accounts {guard : PlaylistManager → Call → Prop} {calls : List Call}
    (hstep : ∀ {m gone c}, Lifetime m gone allSettled → guard m c → Fresh m gone (added c) →
      Meets (m.call c) NotPointer (Accounts m gone allSettled (added c)))
    (h : Run (Guarded guard (Steps next)) m calls m') :
    ∀ {gone}, Lifetime m gone allSettled → Fresh m gone (entered calls) →
      Accounts m gone allSettled (entered calls) m' := by
  induction h with
  | refl m =>
    intro gone hl _
    exact hl.of_lists rfl hl.ledger
  | @cons m m₁ m' c calls first rest ih =>
    intro gone hl hfresh
    have hentered : entered (c :: calls) = added c ++ entered calls := List.flatMap_cons
    rw [hentered] at hfresh ⊢
    have hnow : Fresh m gone (added c) := by
      refine ⟨?_, fun hmem => hfresh.nonnull (List.mem_append_left _ hmem)⟩
      have hnodup := hfresh.nodup
      rw [List.append_assoc] at hnodup
      exact hnodup.sublist ((List.sublist_append_right _ _).append_left _)
    obtain ⟨gone₁, hl₁, hperm⟩ := (hstep hl first.1 hnow).of_ok (next_iff.mp first.2)
    have hmid : (entered calls ++ (m₁.listed ++ gone₁)).Perm
        (added c ++ entered calls ++ (m.listed ++ gone)) := by
      refine (hperm.append_left _).trans ?_
      rw [← List.append_assoc]
      exact List.perm_append_comm.append_right _
    have hlater : Fresh m₁ gone₁ (entered calls) :=
      ⟨hmid.nodup_iff.mpr hfresh.nodup,
        fun hmem => hfresh.nonnull (List.mem_append_right _ hmem)⟩
    obtain ⟨gone', hl', hperm'⟩ := ih hl₁ hlater
    exact ⟨gone', hl', hperm'.trans hmid⟩

/-- Every call of a run is one that accounts for the items. -/
theorem run_lifetime {guard : PlaylistManager → Call → Prop} {calls : List Call} {shuffle : Bool}
    {mode : RepeatMode} {contents : Ptr → Text × MetaData}
    (hstep : ∀ {m gone c}, Lifetime m gone allSettled → guard m c → Fresh m gone (added c) →
      Meets (m.call c) NotPointer (Accounts m gone allSettled (added c)))
    (h : Run (Guarded guard (Steps next)) (init shuffle mode contents) calls m)
    (hnodup : (entered calls).Nodup) (hnull : null ∉ entered calls) :
    ∃ gone, Lifetime m gone allSettled ∧ (m.listed ++ gone).Perm (entered calls) := by
  have hfresh : Fresh (init shuffle mode contents) [] (entered calls) := by
    refine ⟨?_, hnull⟩
    have hnil : entered calls ++ ((init shuffle mode contents).listed ++ []) = entered calls :=
      List.append_nil _
    rwa [hnil]
  obtain ⟨gone, hl, hperm⟩ := run_accounts hstep h (init_lifetime _ _ _) hfresh
  refine ⟨gone, hl, hperm.trans ?_⟩
  rw [show (init shuffle mode contents).listed ++ [] = [] from rfl, List.append_nil]

theorem fresh_of_run {calls : List Call} (hperm : (m.listed ++ gone).Perm (entered calls))
    (hnodup : (entered (calls ++ [c])).Nodup) (hnull : null ∉ added c) :
    Fresh m gone (added c) := by
  have hentered : entered (calls ++ [c]) = entered calls ++ added c := by
    unfold entered
    rw [List.flatMap_append, List.flatMap_singleton]
  rw [hentered] at hnodup
  have hswap := List.perm_append_comm.trans (hperm.append_right (added c))
  exact ⟨hswap.nodup_iff.mpr hnodup, hnull⟩

/-! ## The destructor -/

theorem destruct_meets (hl : Lifetime m gone allSettled)
    (hset : ∀ p ∈ m.listed, m.toItemHeap.Settled p) :
    Meets m.destruct E fun m' => ∀ p ∈ m.listed ++ gone, m'.toItemHeap.FreedOnce p := by
  have hledger : m.toItemHeap.Ledger (m.masterList ++ m.externalList ++ []) gone allSettled := by
    rw [List.append_nil]
    exact hl.ledger
  have hrelease := ItemHeap.releaseItems_ledger (E := E) hledger hset
  unfold ItemHeap.releaseItems at hrelease
  rw [List.foldlM_append, Meets.bind_iff] at hrelease
  unfold destruct
  simp only [Meets.bind_iff, onHeap_iff, hl.portable]
  refine hrelease.mono fun heap h => h.mono fun heap' hledger' => ?_
  exact hledger'.freedOnce

/-! ## Every item is freed once -/

theorem dropped_listed (hs : m.Sound) (hc : LifetimeCall m c) :
    ∀ p ∈ dropped m c, p ∈ m.listed := by
  intro p hp
  cases c with
  | removeItem index =>
    exact mem_listed_of_active hs (List.mem_of_getElem? (Option.mem_toList.mp hp))
  | removeRange index count =>
    exact mem_listed_of_active hs (List.mem_of_mem_drop (List.mem_of_mem_take hp))
  | removeItems items => exact mem_listed_of_active hs (hc.sub p hp)
  | removeAll => exact mem_listed_of_active hs hp
  | setExternalPlaylist read => exact List.mem_append_right _ hp
  | _ => exact absurd hp List.not_mem_nil

/-- A call as meant, and not one that reads a portable playlist over an external one. -/
def Clearing (m : PlaylistManager) (c : Call) : Prop := LifetimeCall m c ∧ ClearedFirst m c

instance (m : PlaylistManager) (c : Call) : Decidable (Clearing m c) :=
  inferInstanceAs (Decidable (_ ∧ _))

theorem clearing_accounts (hl : Lifetime m gone True) (hc : Clearing m c)
    (hfresh : Fresh m gone (added c)) :
    Meets (m.call c) NotPointer (Accounts m gone True (added c)) :=
  call_accounts hl hc.1 hc.2 hfresh fun p hp =>
    hl.settled trivial (dropped_listed hl.sound hc.1 p hp)

/-- No playlist holds an item that has been freed or is to be, no call follows a pointer to
one, and with what the destructor does every item that has been added is freed once: by the
manager, or by the one metadata thread that has it to do and finds it marked. -/
theorem items_freedOnce {shuffle : Bool} {mode : RepeatMode} {contents : Ptr → Text × MetaData}
    {calls : List Call}
    (h : Run (Guarded Clearing (Steps next)) (init shuffle mode contents) calls m)
    (hnodup : (entered calls).Nodup) (hnull : null ∉ entered calls) :
    (∀ p ∈ m.masterList ++ m.externalList ++ m.portableList ++ m.shuffleList,
        m.toItemHeap.Usable p) ∧
      (∀ c, Clearing m c → (entered (calls ++ [c])).Nodup → null ∉ added c →
        m.call c ≠ .error .badPointer) ∧
      Meets m.destruct (fun _ => False) fun m' => ∀ p ∈ entered calls,
        m'.toItemHeap.FreedOnce p := by
  obtain ⟨gone, hl, hperm⟩ := run_lifetime clearing_accounts h hnodup hnull
  refine ⟨fun p hp => ?_, fun c hc hnew hadded hfault => ?_, ?_⟩
  · have hlisted : p ∈ m.listed := by
      rw [hl.portable, List.append_nil] at hp
      rcases List.mem_append.mp hp with hp | hp
      · exact hp
      · exact List.mem_append_left _ (hl.sound.perm.mem_iff.mp hp)
    exact hl.ledger.usable p (hl.ledger.ne_null (List.mem_append_left _ hlisted))
      (hl.ledger.not_gone hlisted)
  · exact (clearing_accounts hl hc (fresh_of_run hperm hnew hadded)).of_error hfault rfl
  · refine (destruct_meets hl fun p hp => hl.settled trivial hp).mono fun m' hfreed p hp => ?_
    exact hfreed p (hperm.mem_iff.mpr hp)

/-- Two items are added and asked for; one is removed while its thread is at it. -/
def handoverCalls : List Call :=
  [.addItem 1 true, .addItem 2 true, .threadRead 0 default, .removeItem 0, .threadComplete 0]

theorem handoverCalls_run : ∃ m, Run (Guarded Clearing (Steps next))
      (init false .repeatNone fun _ => default) handoverCalls m ∧
    m.masterList = [2] ∧ m.freed = [1] :=
  ⟨_, .cons ⟨by decide, rfl⟩ <| .cons ⟨by decide, rfl⟩ <| .cons ⟨by decide, rfl⟩ <|
    .cons ⟨by decide, rfl⟩ <| .cons ⟨by decide, rfl⟩ <| .refl _, rfl, rfl⟩

theorem items_freedOnce_handedOver : ∃ m : PlaylistManager, m.masterList = [2] ∧ m.freed = [1] ∧
    m.toItemHeap.Usable 2 ∧
    Meets m.destruct (fun _ => False) fun m' => ∀ p ∈ [1, 2], m'.toItemHeap.FreedOnce p := by
  obtain ⟨m, hrun, hlist, hfreed⟩ := handoverCalls_run
  obtain ⟨husable, -, hdestruct⟩ := items_freedOnce hrun (by decide) (by decide)
  refine ⟨m, hlist, hfreed, husable 2 ?_, hdestruct⟩
  rw [hlist]
  simp

/-- `ReadPortablePlaylist` frees the items of the external list, in which a portable playlist
is kept, and leaves them in it. -/
def reloadCalls : List Call :=
  [.setActivePlaylist .external, .addItem 1 false, .setPortablePlaylist ⟨[], .noErr⟩ []]

/-- The list holds an item that has been freed, and the destructor frees it again. -/
theorem portable_keeps_freed : ∃ m, Run (Guarded LifetimeCall (Steps next))
      (init false .repeatNone fun _ => default) reloadCalls m ∧
    (entered reloadCalls).Nodup ∧ null ∉ entered reloadCalls ∧
    m.externalList = [1] ∧ m.freed = [1] ∧ ¬ m.toItemHeap.Usable 1 ∧
    m.destruct = .error .badPointer :=
  ⟨_, .cons ⟨by decide, rfl⟩ <| .cons ⟨by decide, rfl⟩ <| .cons ⟨by decide, rfl⟩ <| .refl _,
    by decide, by decide, rfl, rfl, by decide, rfl⟩

end PlaylistManager

end FreeAmp.Base
