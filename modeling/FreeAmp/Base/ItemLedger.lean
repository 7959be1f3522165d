/-
  Base/ItemLedger.lean --- who has to free an item.

  An item is freed by the function that drops it from a playlist, or, when its state
  says that a metadata thread is at it, by that thread.  The state is a flag; how many
  threads still have the item to do is not kept anywhere.  `held` counts them, and
  the hand-over is right when the count is the one the flag stands for, `Settled`.

  `Ledger h owned gone allSettled` is the account of all items: those in `owned` belong
  to the playlists, and those in `gone` have been dropped and are freed once, or marked
  for the one thread that has them to do.  Each step on the items moves an item from
  one column to the next, or leaves the ledger as it is.
-/
import FreeAmp.Base.PlaylistCurrent

namespace FreeAmp.Base

open FreeAmp.Lib

/-! ## Threads and the items they hold -/

/-- How many times the threads have the item still to do. -/
def heldBy : List MetaDataThread → Ptr → Nat
  | [], _ => 0
  | t :: ts, p => t.list.count p + heldBy ts p

section Threads

variable {ts : List MetaDataThread} {t t' : MetaDataThread} {k : Nat} {p : Ptr}

theorem heldBy_append (ts ts' : List MetaDataThread) (p : Ptr) :
    heldBy (ts ++ ts') p = heldBy ts p + heldBy ts' p := by
  induction ts with
  | nil => simp [heldBy]
  | cons t ts ih =>
    rw [List.cons_append, heldBy, heldBy, ih]
    omega

/-- A thread that changes changes the count by what it has to do. -/
theorem heldBy_set (h : ts[k]? = some t) :
    heldBy (ts.set k t') p + t.list.count p = heldBy ts p + t'.list.count p := by
  induction ts generalizing k with
  | nil => simp at h
  | cons u ts ih =>
    cases k with
    | zero =>
      obtain rfl : u = t := by simpa using h
      rw [List.set_cons_zero, heldBy, heldBy]
      omega
    | succ k =>
      have hrest := ih (k := k) (by simpa using h)
      rw [List.set_cons_succ, heldBy, heldBy]
      omega

theorem count_le_heldBy (h : ts[k]? = some t) : t.list.count p ≤ heldBy ts p := by
  have hset : heldBy (ts.set k ⟨[], none, []⟩) p + t.list.count p =
      heldBy ts p + [].count p := heldBy_set h
  rw [List.count_nil] at hset
  omega

theorem heldBy_eraseIdx (h : ts[k]? = some t) (hdone : t.list = []) :
    heldBy (ts.eraseIdx k) p = heldBy ts p := by
  induction ts generalizing k with
  | nil => simp at h
  | cons u ts ih =>
    cases k with
    | zero =>
      obtain rfl : u = t := by simpa using h
      rw [List.eraseIdx_cons_zero, heldBy, hdone, List.count_nil, Nat.zero_add]
    | succ k =>
      rw [List.eraseIdx_cons_succ, heldBy, heldBy, ih (by simpa using h)]

theorem heldBy_advance {item : Ptr} {rest updated : List Ptr} {found : Option MetaData}
    (h : ts[k]? = some ⟨item :: rest, found, updated⟩) (updated' : List Ptr) :
    heldBy (ts.set k ⟨rest, none, updated'⟩) item + 1 = heldBy ts item ∧
      ∀ q, q ≠ item → heldBy (ts.set k ⟨rest, none, updated'⟩) q = heldBy ts q := by
  constructor
  · have hset : heldBy (ts.set k ⟨rest, none, updated'⟩) item + (item :: rest).count item =
        heldBy ts item + rest.count item := heldBy_set h
    rw [List.count_cons_self] at hset
    omega
  · intro q hne
    have hset : heldBy (ts.set k ⟨rest, none, updated'⟩) q + (item :: rest).count q =
        heldBy ts q + rest.count q := heldBy_set h
    rw [List.count_cons_of_ne hne.symm] at hset
    omega

/-- A thread that has found metadata has an item to give it to. -/
def Heads (ts : List MetaDataThread) : Prop :=
  ∀ t ∈ ts, t.found ≠ none → ∃ item rest, t.list = item :: rest ∧ item ≠ null

theorem Heads.set (hheads : Heads ts)
    (ht : t'.found ≠ none → ∃ item rest, t'.list = item :: rest ∧ item ≠ null) :
    Heads (ts.set k t') := by
  intro t hmem
  rcases List.mem_or_eq_of_mem_set hmem with hold | rfl
  · exact hheads t hold
  · exact ht

end Threads

namespace ItemHeap

variable {E : Fault → Prop} {h h' h'' : ItemHeap} {p q : Ptr} {owned gone ps : List Ptr}
  {allSettled : Prop}

def held (h : ItemHeap) (p : Ptr) : Nat := heldBy h.threads p

/-- The state of the item says how many threads have it to do. -/
def Settled (h : ItemHeap) (p : Ptr) : Prop :=
  h.held p = if (h.items p).state = .retrievingMetaData then 1 else 0

instance (h : ItemHeap) (p : Ptr) : Decidable (h.Settled p) := inferInstanceAs (Decidable (_ = _))

/-- The item may be used. -/
def Usable (h : ItemHeap) (p : Ptr) : Prop := h.freed.count p = 0 ∧ (h.items p).state ≠ .delete

instance (h : ItemHeap) (p : Ptr) : Decidable (h.Usable p) :=
  inferInstanceAs (Decidable (_ ∧ _))

/-- The item is freed once, or marked for the one thread that has it to do. -/
def FreedOnce (h : ItemHeap) (p : Ptr) : Prop :=
  (h.freed.count p = 1 ∧ h.held p = 0) ∨
    (h.freed.count p = 0 ∧ (h.items p).state = .delete ∧ h.held p = 1)

/-! ## What a step leaves alone -/

/-- Nothing has changed about an item. -/
structure Same (h h' : ItemHeap) (p : Ptr) : Prop where
  freed : h'.freed.count p = h.freed.count p
  state : (h'.items p).state = (h.items p).state
  held : h'.held p = h.held p

namespace Same

theorem trans (h₁ : Same h h' p) (h₂ : Same h' h'' p) : Same h h'' p :=
  ⟨h₂.freed.trans h₁.freed, h₂.state.trans h₁.state, h₂.held.trans h₁.held⟩

theorem settled (hsame : Same h h' p) (hp : h.Settled p) : h'.Settled p := by
  unfold Settled
  rw [hsame.held, hsame.state]
  exact hp

theorem usable (hsame : Same h h' p) (hp : h.Usable p) : h'.Usable p := by
  unfold Usable
  rw [hsame.freed, hsame.state]
  exact hp

theorem freedOnce (hsame : Same h h' p) (hp : h.FreedOnce p) : h'.FreedOnce p := by
  unfold FreedOnce
  rw [hsame.freed, hsame.state, hsame.held]
  exact hp

end Same

theorem same_setState (h : ItemHeap) {p q : Ptr} (hne : q ≠ p) (state : PlaylistItemState) :
    Same h (h.setState p state) q where
  freed := rfl
  state := by
    simp only [setState, Function.update_of_ne hne]
  held := rfl

theorem state_setState (h : ItemHeap) (p : Ptr) (state : PlaylistItemState) :
    ((h.setState p state).items p).state = state := by
  simp only [setState, Function.update_self]

theorem same_setMetaData (h : ItemHeap) (p q : Ptr) (metadata : MetaData) :
    Same h (h.setMetaData p metadata) q where
  freed := rfl
  state := by
    rcases eq_or_ne q p with rfl | hne
    · simp only [setMetaData, Function.update_self]
    · simp only [setMetaData, Function.update_of_ne hne]
  held := rfl

theorem same_delete (h : ItemHeap) {p q : Ptr} (hne : q ≠ p) : Same h (h.delete p) q where
  freed := by
    unfold delete
    rw [List.count_append, List.count_singleton]
    simp [hne.symm]
  state := rfl
  held := rfl

theorem count_delete (h : ItemHeap) (p : Ptr) :
    (h.delete p).freed.count p = h.freed.count p + 1 := by
  unfold delete
  rw [List.count_append, List.count_singleton_self]

/-! ## The ledger -/

/-- The account of all items.  With `allSettled` the states are right as well, and the threads
have only items to do that have been taken in. -/
structure Ledger (h : ItemHeap) (owned gone : List Ptr) (allSettled : Prop) : Prop where
  nodup : (owned ++ gone).Nodup
  nonnull : null ∉ owned ++ gone
  usable : ∀ p, p ≠ null → p ∉ gone → h.Usable p
  freedOnce : ∀ p ∈ gone, h.FreedOnce p
  settled : allSettled → ∀ p, p ≠ null → p ∉ gone → h.Settled p
  unheld : allSettled → ∀ p, p ≠ null → p ∉ owned ++ gone → h.held p = 0
  heads : Heads h.threads

namespace Ledger

theorem perm (hl : Ledger h owned gone allSettled) {owned' gone' : List Ptr}
    (ho : owned'.Perm owned) (hg : gone'.Perm gone) : Ledger h owned' gone' allSettled where
  nodup := (ho.append hg).nodup_iff.mpr hl.nodup
  nonnull hmem := hl.nonnull ((ho.append hg).mem_iff.mp hmem)
  usable p hne hp := hl.usable p hne fun hmem => hp (hg.mem_iff.mpr hmem)
  freedOnce p hp := hl.freedOnce p (hg.mem_iff.mp hp)
  settled hset p hne hp := hl.settled hset p hne fun hmem => hp (hg.mem_iff.mpr hmem)
  unheld hset p hne hp := hl.unheld hset p hne fun hmem => hp ((ho.append hg).mem_iff.mpr hmem)
  heads := hl.heads

theorem ne_null (hl : Ledger h owned gone allSettled) (hp : p ∈ owned ++ gone) : p ≠ null := by
  rintro rfl
  exact hl.nonnull hp

theorem not_gone (hl : Ledger h owned gone allSettled) (hp : p ∈ owned) : p ∉ gone := by
  intro hgone
  exact (List.nodup_append.mp hl.nodup).2.2 p hp p hgone rfl

theorem not_gone_of_usable (hl : Ledger h owned gone allSettled) (hp : h.Usable p) : p ∉ gone := by
  intro hgone
  obtain ⟨hfree, hstate⟩ := hp
  rcases hl.freedOnce p hgone with ⟨honce, -⟩ | ⟨-, hdelete, -⟩
  · omega
  · exact hstate hdelete

theorem live (hl : Ledger h owned gone allSettled) (hne : p ≠ null) (hp : p ∉ gone) :
    h.live p :=
  ⟨hne, List.count_eq_zero.mp (hl.usable p hne hp).1⟩

/-- An item that a thread has still to do has not been freed. -/
theorem live_of_held (hl : Ledger h owned gone allSettled) (hne : p ≠ null)
    (hheld : 0 < h.held p) : h.live p := by
  by_cases hgone : p ∈ gone
  · refine ⟨hne, List.count_eq_zero.mp ?_⟩
    rcases hl.freedOnce p hgone with ⟨-, hnone⟩ | ⟨hfree, -⟩
    · omega
    · exact hfree
  · exact hl.live hne hgone

/-- A step that changes at most one item, and leaves that one in its column. -/
theorem update (hl : Ledger h owned gone allSettled)
    (hsame : ∀ q, q ≠ null → q ≠ p → Same h h' q) (hheads : Heads h'.threads)
    (hkept : p ≠ null → p ∉ gone → h'.Usable p ∧ (allSettled → h'.Settled p))
    (hgone : p ∈ gone → h'.FreedOnce p)
    (hunheld : allSettled → p ≠ null → p ∉ owned ++ gone → h'.held p = 0) :
    Ledger h' owned gone allSettled where
  nodup := hl.nodup
  nonnull := hl.nonnull
  usable q hne hq := by
    rcases eq_or_ne q p with rfl | hother
    · exact (hkept hne hq).1
    · exact (hsame q hne hother).usable (hl.usable q hne hq)
  freedOnce q hq := by
    rcases eq_or_ne q p with rfl | hother
    · exact hgone hq
    · have hne := hl.ne_null (List.mem_append_right _ hq)
      exact (hsame q hne hother).freedOnce (hl.freedOnce q hq)
  settled hset q hne hq := by
    rcases eq_or_ne q p with rfl | hother
    · exact (hkept hne hq).2 hset
    · exact (hsame q hne hother).settled (hl.settled hset q hne hq)
  unheld hset q hne hq := by
    rcases eq_or_ne q p with rfl | hother
    · exact hunheld hset hne hq
    · exact (hsame q hne hother).held.trans (hl.unheld hset q hne hq)
  heads := hheads

theorem of_same (hl : Ledger h owned gone allSettled) (hsame : ∀ q, q ≠ null → Same h h' q)
    (hheads : Heads h'.threads) : Ledger h' owned gone allSettled := by
  have hnull : null ∉ gone := fun hgone => hl.nonnull (List.mem_append_right _ hgone)
  exact hl.update (p := null) (fun q hne _ => hsame q hne) hheads (fun hne => absurd rfl hne)
    (fun hgone => absurd hgone hnull) fun _ hne => absurd rfl hne

theorem drop (hl : Ledger h (p :: owned) gone allSettled)
    (hsame : ∀ q, q ≠ p → Same h h' q) (hheads : Heads h'.threads) (hp : h'.FreedOnce p) :
    Ledger h' owned (p :: gone) allSettled := by
  have hmid : (owned ++ p :: gone).Perm (p :: owned ++ gone) := List.perm_middle
  have hnot : p ∉ gone := hl.not_gone List.mem_cons_self
  refine
    { nodup := hmid.nodup_iff.mpr hl.nodup
      nonnull := fun hmem => hl.nonnull (hmid.mem_iff.mp hmem)
      usable := fun q hne hq => ?_
      freedOnce := fun q hq => ?_
      settled := fun hset q hne hq => ?_
      unheld := fun hset q hne hq => ?_
      heads := hheads }
  · rw [List.mem_cons, not_or] at hq
    obtain ⟨hother, hq⟩ := hq
    exact (hsame q hother).usable (hl.usable q hne hq)
  · rcases List.mem_cons.mp hq with rfl | hq
    · exact hp
    · have hother : q ≠ p := fun heq => hnot (heq ▸ hq)
      exact (hsame q hother).freedOnce (hl.freedOnce q hq)
  · rw [List.mem_cons, not_or] at hq
    obtain ⟨hother, hq⟩ := hq
    exact (hsame q hother).settled (hl.settled hset q hne hq)
  · rw [hmid.mem_iff] at hq
    have hother : q ≠ p := fun heq => hq (heq ▸ List.mem_cons_self)
    exact (hsame q hother).held.trans (hl.unheld hset q hne hq)

theorem enter (hl : Ledger h owned gone allSettled) (hnodup : (ps ++ owned ++ gone).Nodup)
    (hnull : null ∉ ps) : Ledger h (ps ++ owned) gone allSettled where
  nodup := hnodup
  nonnull := by
    rw [List.append_assoc, List.mem_append]
    rintro (hp | hp)
    · exact hnull hp
    · exact hl.nonnull hp
  usable := hl.usable
  freedOnce := hl.freedOnce
  settled := hl.settled
  unheld hset p hne hp := by
    refine hl.unheld hset p hne fun hmem => hp ?_
    rw [List.append_assoc]
    exact List.mem_append_right _ hmem
  heads := hl.heads

end Ledger

/-! ## Dropping items -/

theorem getState_live (hlive : h.live p) :
    Meets (h.getState p) E fun state => state = (h.items p).state := by
  unfold getState
  rw [if_pos hlive]
  rfl

/-- Whoever drops an item frees it, or marks it for the thread that has it to do. -/
theorem releaseItem_ledger (hl : Ledger h (p :: owned) gone allSettled) (hset : h.Settled p) :
    Meets (h.releaseItem p) E fun h' =>
      Ledger h' owned (p :: gone) allSettled ∧ ∀ q, q ≠ p → Same h h' q := by
  have hmem : p ∈ p :: owned := List.mem_cons_self
  have hne : p ≠ null := hl.ne_null (List.mem_append_left _ hmem)
  obtain ⟨hfree, -⟩ := hl.usable p hne (hl.not_gone hmem)
  unfold releaseItem
  rw [Meets.bind_iff]
  refine (getState_live (hl.live hne (hl.not_gone hmem))).mono ?_
  rintro state rfl
  unfold Settled at hset
  split
  · rename_i hstate
    rw [if_pos hstate] at hset
    have hsame : ∀ q, q ≠ p → Same h (h.setState p .delete) q :=
      fun q hne => same_setState h hne _
    exact ⟨hl.drop hsame hl.heads (.inr ⟨hfree, state_setState h p _, hset⟩), hsame⟩
  · rename_i hstate
    rw [if_neg hstate] at hset
    have hsame : ∀ q, q ≠ p → Same h (h.delete p) q := fun q hne => same_delete h hne
    refine ⟨hl.drop hsame hl.heads (.inl ⟨?_, hset⟩), hsame⟩
    rw [count_delete, hfree]

theorem release_ledger : ∀ (ps : List Ptr) {h : ItemHeap} {gone : List Ptr},
    Ledger h (ps ++ owned) gone allSettled → (∀ p ∈ ps, h.Settled p) →
    Meets (ps.foldlM releaseItem h) E fun h' => Ledger h' owned (ps ++ gone) allSettled := by
  intro ps
  induction ps with
  | nil =>
    intro h gone hl _
    exact hl
  | cons p ps ih =>
    intro h gone hl hset
    rw [List.foldlM_cons, Meets.bind_iff]
    have hnot : p ∉ ps := fun hmem =>
      (List.nodup_cons.mp hl.nodup).1 (List.mem_append_left _ (List.mem_append_left _ hmem))
    refine (releaseItem_ledger hl (hset p List.mem_cons_self)).mono ?_
    rintro h₂ ⟨hl₂, hsame⟩
    have hset₂ : ∀ q ∈ ps, h₂.Settled q := by
      intro q hq
      have hne : q ≠ p := fun heq => hnot (heq ▸ hq)
      exact (hsame q hne).settled (hset q (List.mem_cons_of_mem _ hq))
    refine (ih hl₂ hset₂).mono fun h' hl' => ?_
    exact hl'.perm (.refl _) List.perm_middle.symm

theorem releaseItems_eq {ps : List Ptr} (hnull : null ∉ ps) (h : ItemHeap) :
    h.releaseItems ps = ps.foldlM releaseItem h := by
  unfold releaseItems
  induction ps generalizing h with
  | nil => rfl
  | cons p ps ih =>
    have hne : p ≠ null := fun heq => hnull (heq ▸ List.mem_cons_self)
    have hrest : null ∉ ps := fun hmem => hnull (List.mem_cons_of_mem _ hmem)
    rw [List.foldlM_cons, List.foldlM_cons, if_pos hne]
    exact bind_congr fun h' => ih hrest h'

theorem releaseItems_ledger {ps : List Ptr} (hl : Ledger h (ps ++ owned) gone allSettled)
    (hset : ∀ p ∈ ps, h.Settled p) :
    Meets (h.releaseItems ps) E fun h' => Ledger h' owned (ps ++ gone) allSettled := by
  have hnull : null ∉ ps := fun hmem =>
    hl.nonnull (List.mem_append_left _ (List.mem_append_left _ hmem))
  rw [releaseItems_eq hnull]
  exact release_ledger ps hl hset

/-! ## Asking for metadata -/

theorem markRetrieving_meets (hlive : p ≠ null → h.live p) :
    Meets (h.markRetrieving p) E fun h' => h'.freed = h.freed ∧ h'.threads = h.threads ∧
      ∀ q, (h'.items q).state =
        if q = p ∧ q ≠ null ∧ (h.items q).state = .normal then .retrievingMetaData
        else (h.items q).state := by
  unfold markRetrieving
  split
  · rename_i hnull
    rw [Meets.bind_iff]
    refine (getState_live (hlive hnull)).mono ?_
    rintro state rfl
    split
    · rename_i hnormal
      refine ⟨rfl, rfl, fun q => ?_⟩
      rcases eq_or_ne q p with rfl | hne
      · rw [if_pos ⟨rfl, hnull, hnormal⟩]
        exact state_setState h q _
      · rw [if_neg fun hq => hne hq.1]
        exact (same_setState h hne _).state
    · rename_i hother
      refine ⟨rfl, rfl, fun q => ?_⟩
      rw [if_neg]
      rintro ⟨rfl, -, hnormal⟩
      exact hother hnormal
  · rename_i hnull
    refine ⟨rfl, rfl, fun q => ?_⟩
    rw [if_neg]
    rintro ⟨rfl, hne, -⟩
    exact hnull hne

theorem live_of_freed (hfreed : h'.freed = h.freed) (hlive : h.live p) : h'.live p := by
  unfold live
  rw [hfreed]
  exact hlive

/-- The loop of `RetrieveMetaData` marks the items that are in the normal state. -/
theorem markItems_meets : ∀ (list : List Ptr) {h : ItemHeap}, (∀ p ∈ list, p ≠ null → h.live p) →
    Meets (list.foldlM markRetrieving h) E fun h' => h'.freed = h.freed ∧ h'.threads = h.threads ∧
      ∀ q, (h'.items q).state =
        if q ∈ list ∧ q ≠ null ∧ (h.items q).state = .normal then .retrievingMetaData
        else (h.items q).state := by
  intro list
  induction list with
  | nil =>
    intro h _
    refine ⟨rfl, rfl, fun q => ?_⟩
    rw [if_neg fun hq => absurd hq.1 List.not_mem_nil]
  | cons p list ih =>
    intro h hlive
    rw [List.foldlM_cons, Meets.bind_iff]
    refine (markRetrieving_meets (hlive p List.mem_cons_self)).mono ?_
    rintro h₂ ⟨hfreed, hthreads, hstate⟩
    have hlive₂ : ∀ q ∈ list, q ≠ null → h₂.live q := fun q hq hne =>
      live_of_freed hfreed (hlive q (List.mem_cons_of_mem _ hq) hne)
    refine (ih hlive₂).mono ?_
    rintro h' ⟨hfreed', hthreads', hstate'⟩
    refine ⟨hfreed'.trans hfreed, hthreads'.trans hthreads, fun q => ?_⟩
    rw [hstate' q, hstate q]
    rcases eq_or_ne q p with rfl | hne
    · by_cases hnormal : q ≠ null ∧ (h.items q).state = .normal
      · simp [hnormal]
      · have hnot : ∀ P : Prop, ¬ (P ∧ q ≠ null ∧ (h.items q).state = .normal) :=
          fun P hq => hnormal hq.2
        simp only [hnot, if_false]
    · simp only [hne, false_and, if_false, List.mem_cons, false_or]

/-- A settled item that no thread has to do is in the normal state. -/
theorem normal_of_settled (hset : h.Settled p) (husable : h.Usable p) (hnone : h.held p = 0) :
    (h.items p).state = .normal := by
  unfold Settled at hset
  rw [hnone] at hset
  cases hstate : (h.items p).state with
  | normal => rfl
  | retrievingMetaData =>
    rw [hstate] at hset
    simp at hset
  | delete => exact absurd hstate husable.2

/-- The items asked for have not been dropped.  The ledger stays settled if they are items of
the playlists that no thread has to do yet. -/
theorem retrieveMetaData_ledger {list : List Ptr} (hl : Ledger h owned gone allSettled)
    (hmem : ∀ p ∈ list, p ≠ null → p ∉ gone)
    (hset : allSettled → list.Nodup ∧ ∀ p ∈ list, p ∈ owned ∧ h.held p = 0) :
    Meets (h.retrieveMetaData list) E fun h' => Ledger h' owned gone allSettled := by
  unfold retrieveMetaData
  rw [Meets.bind_iff]
  refine (markItems_meets list fun p hp hne => hl.live hne (hmem p hp hne)).mono ?_
  rintro h₂ ⟨hfreed, hthreads, hstate⟩
  have hheld : ∀ q, heldBy (h₂.threads ++ [⟨list, none, []⟩]) q = h.held q + list.count q := by
    intro q
    rw [heldBy_append, hthreads]
    rfl
  have hother : ∀ q, q ≠ null → q ∉ list →
      Same h { h₂ with threads := h₂.threads ++ [⟨list, none, []⟩] } q := by
    intro q hne hq
    refine ⟨by rw [hfreed], ?_, ?_⟩
    · rw [hstate q, if_neg fun h => hq h.1]
    · refine (hheld q).trans ?_
      rw [List.count_eq_zero_of_not_mem hq, Nat.add_zero]
  refine
    { nodup := hl.nodup
      nonnull := hl.nonnull
      usable := fun q hne hq => ?_
      freedOnce := fun q hq => ?_
      settled := fun hall q hne hq => ?_
      unheld := fun hall q hne hq => ?_
      heads := ?_ }
  · obtain ⟨hfree, hnot⟩ := hl.usable q hne hq
    refine ⟨by rw [hfreed]; exact hfree, ?_⟩
    rw [hstate q]
    split
    · simp
    · exact hnot
  · have hne := hl.ne_null (List.mem_append_right _ hq)
    exact (hother q hne fun hlist => hmem q hlist hne hq).freedOnce (hl.freedOnce q hq)
  · by_cases hlist : q ∈ list
    · -- the new thread is the one the state speaks of
      obtain ⟨hnodup, hnew⟩ := hset hall
      have hnone := (hnew q hlist).2
      have hnormal := normal_of_settled (hl.settled hall q hne hq) (hl.usable q hne hq) hnone
      have hret : (h₂.items q).state = .retrievingMetaData := by
        rw [hstate q, if_pos ⟨hlist, hne, hnormal⟩]
      unfold Settled
      rw [if_pos hret]
      refine (hheld q).trans ?_
      rw [hnone, List.count_eq_one_of_mem hnodup hlist]
    · exact (hother q hne hlist).settled (hl.settled hall q hne hq)
  · have hlist : q ∉ list := fun hlist =>
      hq (List.mem_append_left _ ((hset hall).2 q hlist).1)
    exact (hother q hne hlist).held.trans (hl.unheld hall q hne hq)
  · intro t ht hfound
    rcases List.mem_append.mp ht with hold | hnew
    · rw [hthreads] at hold
      exact hl.heads t hold hfound
    · obtain rfl := List.mem_singleton.mp hnew
      exact absurd rfl hfound

theorem enter_ledger {list : List Ptr} (hl : Ledger h owned gone allSettled)
    (hnodup : (ps ++ owned ++ gone).Nodup) (hnull : null ∉ ps) (hperm : list.Perm ps) :
    Meets (h.retrieveMetaData list) E fun h' => Ledger h' (ps ++ owned) gone allSettled := by
  have henter := hl.enter hnodup hnull
  have hmem : ∀ p ∈ list, p ∈ ps ++ owned := fun p hp =>
    List.mem_append_left _ (hperm.mem_iff.mp hp)
  refine retrieveMetaData_ledger henter (fun p hp _ => henter.not_gone (hmem p hp)) ?_
  refine fun hall => ⟨?_, fun p hp => ⟨hmem p hp, ?_⟩⟩
  · rw [List.append_assoc] at hnodup
    exact hperm.nodup_iff.mpr (List.nodup_append.mp hnodup).1
  · have hps := hperm.mem_iff.mp hp
    refine hl.unheld hall p (henter.ne_null (List.mem_append_left _ (hmem p hp))) fun hold => ?_
    rw [List.append_assoc] at hnodup
    exact (List.nodup_append.mp hnodup).2.2 p hps p hold rfl

/-- `RetrieveMetaDataNow` takes no account of the threads. -/
theorem retrieveMetaDataNow_ledger (hl : Ledger h owned gone allSettled) (hnot : ¬ allSettled)
    (hmem : p ≠ null → p ∉ gone) (found : MetaData) :
    Meets (h.retrieveMetaDataNow p found) E fun h' => Ledger h' owned gone allSettled := by
  unfold retrieveMetaDataNow
  split
  · rename_i hne
    have hp := hmem hne
    rw [if_pos (hl.live hne hp)]
    have hstate := state_setState (h.setMetaData p found) p .normal
    refine hl.update (p := p) (fun q _ hother => ?_) hl.heads (fun _ _ => ⟨⟨?_, ?_⟩, ?_⟩)
      (fun hgone => absurd hgone hp) (fun hall => absurd hall hnot)
    · exact (same_setMetaData h p q found).trans (same_setState _ hother _)
    · exact (hl.usable p hne hp).1
    · rw [hstate]
      simp
    · exact fun hall => absurd hall hnot
  · exact hl

end ItemHeap

/-! ## The steps of the threads -/

namespace PlaylistManager

variable {E : Fault → Prop} {m : PlaylistManager} {owned gone : List Ptr} {allSettled : Prop}

/-- A thread that looks at an item does not follow a pointer that has been freed. -/
theorem threadRead_ledger (hl : m.toItemHeap.Ledger owned gone allSettled) (k : Nat)
    (found : MetaData) :
    Meets (m.threadRead k found) E fun m' =>
      m'.toPlaylists = m.toPlaylists ∧ m'.toItemHeap.Ledger owned gone allSettled := by
  unfold threadRead
  split
  · rename_i item rest updated hk
    split
    · rename_i hne
      have hheld : 0 < m.toItemHeap.held item :=
        Nat.lt_of_lt_of_le (List.count_pos_iff.mpr List.mem_cons_self) (count_le_heldBy hk)
      rw [if_pos (hl.live_of_held hne hheld)]
      refine ⟨rfl, hl.of_same (fun q _ => ⟨rfl, rfl, ?_⟩) (hl.heads.set fun _ => ?_)⟩
      · have hset : heldBy (m.threads.set k ⟨item :: rest, some found, updated⟩) q +
            (item :: rest).count q = heldBy m.threads q + (item :: rest).count q :=
          heldBy_set hk
        exact Nat.add_right_cancel hset
      · exact ⟨item, rest, rfl, hne⟩
    · rename_i hnull
      obtain rfl : item = null := not_not.mp hnull
      refine ⟨rfl, hl.of_same (fun q hq => ⟨rfl, rfl, ?_⟩) (hl.heads.set fun h => absurd rfl h)⟩
      exact (heldBy_advance hk updated).2 q hq
  · exact ⟨rfl, hl⟩

/-- A thread that is done with an item frees it if it is marked, and only then. -/
theorem threadComplete_ledger (hl : m.toItemHeap.Ledger owned gone allSettled) (hs : m.Sound)
    (hcur : m.CurrentValid ∨ E .badCurrent) (k : Nat) :
    Meets (m.threadComplete k) E fun m' =>
      m'.toPlaylists = m.toPlaylists ∧ m'.toItemHeap.Ledger owned gone allSettled := by
  unfold threadComplete
  split
  · rename_i item rest found updated hk
    have hne : item ≠ null := by
      obtain ⟨item', rest', heq, hne⟩ := hl.heads _ (List.mem_of_getElem? hk) (by simp)
      rwa [(List.cons.inj heq).1]
    have hheld : 0 < m.toItemHeap.held item :=
      Nat.lt_of_lt_of_le (List.count_pos_iff.mpr List.mem_cons_self) (count_le_heldBy hk)
    have hlive := hl.live_of_held hne hheld
    have hfree : m.freed.count item = 0 := List.count_eq_zero.mpr hlive.2
    rw [Meets.bind_iff]
    refine (ItemHeap.getState_live hlive).mono ?_
    rintro state rfl
    split
    · rename_i hdelete
      have hgone : item ∈ gone := by
        by_contra hnot
        exact (hl.usable item hne hnot).2 hdelete
      obtain ⟨hself, hother⟩ := heldBy_advance hk updated
      refine ⟨rfl, hl.update (p := item) (fun q _ hq => ?_) (hl.heads.set fun h => absurd rfl h)
        (fun _ hnot => absurd hgone hnot) (fun _ => ?_)
        (fun _ _ hnot => absurd (List.mem_append_right _ hgone) hnot)⟩
      · exact ⟨(ItemHeap.same_delete _ hq).freed, rfl, hother q hq⟩
      · rcases hl.freedOnce item hgone with ⟨honce, -⟩ | ⟨-, -, hone⟩
        · omega
        · refine .inl ⟨?_, ?_⟩
          · exact (ItemHeap.count_delete _ _).trans (by rw [hfree])
          · exact Nat.succ.inj (hself.trans hone)
    · rename_i hnot
      have hkept : item ∉ gone := by
        intro hgone
        rcases hl.freedOnce item hgone with ⟨honce, -⟩ | ⟨-, hdelete, -⟩
        · omega
        · exact hnot hdelete
      rw [Meets.bind_iff]
      refine (getCurrentItem_meets (m := { m with
        toItemHeap := (m.toItemHeap.setMetaData item found).setState item .normal }) hs
        hcur).mono fun currentItem _ => ?_
      obtain ⟨hself, hother⟩ := heldBy_advance hk
        (if item = currentItem then item :: updated else updated ++ [item])
      have hnormal := ItemHeap.state_setState (m.toItemHeap.setMetaData item found) item .normal
      refine ⟨rfl, hl.update (p := item) (fun q _ hq => ?_) (hl.heads.set fun h => absurd rfl h)
        (fun _ _ => ⟨⟨hfree, ?_⟩, fun hall => ?_⟩) (fun hgone => absurd hgone hkept)
        (fun hall _ hnew => ?_)⟩
      · have hsame := (ItemHeap.same_setMetaData m.toItemHeap item q found).trans
          (ItemHeap.same_setState _ hq .normal)
        exact ⟨hsame.freed, hsame.state, hother q hq⟩
      · exact fun hdelete => absurd (hnormal.symm.trans hdelete) (by simp)
      · -- this thread was the one the state spoke of
        have hset := hl.settled hall item hne hkept
        unfold ItemHeap.Settled at hset ⊢
        rw [if_neg fun hret => absurd (hnormal.symm.trans hret) (by simp)]
        split at hset
        · exact Nat.succ.inj (hself.trans hset)
        · omega
      · have hnone := hl.unheld hall item hne hnew
        omega
  · exact ⟨rfl, hl⟩

theorem threadFinish_ledger (hl : m.toItemHeap.Ledger owned gone allSettled) (k : Nat) :
    (m.threadFinish k).toItemHeap.Ledger owned gone allSettled := by
  unfold threadFinish
  split
  · rename_i found updated hk
    have hl' : ItemHeap.Ledger { m.toItemHeap with threads := m.threads.eraseIdx k } owned gone
        allSettled := by
      refine hl.of_same (fun q _ => ⟨rfl, rfl, heldBy_eraseIdx hk rfl⟩) fun t ht => ?_
      exact hl.heads t (List.mem_of_mem_eraseIdx ht)
    split
    · exact hl'
    · exact hl'
  · exact hl

end PlaylistManager

end FreeAmp.Base
