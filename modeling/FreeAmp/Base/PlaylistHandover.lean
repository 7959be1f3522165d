/-
  Base/PlaylistHandover.lean --- the hand-over of an item to a metadata thread.

  An item that is dropped while it is being retrieved is marked, and the thread frees
  it.  That is right when the state says how many threads have the item still to do:
  one, or none.  `RetrieveMetaData` for an item that a thread has already, and
  `RetrieveMetaDataNow`, make the state wrong: the first thread to complete, or
  `RetrieveMetaDataNow` itself, sets it back to normal while another thread has the
  item still to do.  The runs below call them at will, and drop only items whose state
  is right.
-/
import FreeAmp.Base.PlaylistLifetime

namespace FreeAmp.Base

open FreeAmp.Lib

namespace PlaylistManager

variable {E : Fault → Prop} {m m' : PlaylistManager} {c : Call} {gone : List Ptr}

/-- The calls that are considered: those that edit the playlists, but for reading a portable
one, the steps of the threads, and asking for the metadata of items that are there. -/
def RetrievalCall (m : PlaylistManager) : Call → Prop
  | .retrieveMetaData list => ∀ p ∈ list, p ≠ null → m.toItemHeap.Usable p
  | .retrieveMetaDataNow item _ => item ≠ null → m.toItemHeap.Usable item
  | .setPortablePlaylist _ _ => False
  | .readPortablePlaylist _ _ _ => False
  | c => LifetimeCall m c

instance (m : PlaylistManager) (c : Call) : Decidable (RetrievalCall m c) := by
  apply @Call.casesOn (fun c => Decidable (RetrievalCall m c)) c <;> intros <;> unfold RetrievalCall <;>
    infer_instance

/-- The states of the items that a call drops say how many threads have them still to do. -/
def DropsSettled (m : PlaylistManager) (c : Call) : Prop :=
  ∀ p ∈ dropped m c, m.toItemHeap.Settled p

instance (m : PlaylistManager) (c : Call) : Decidable (DropsSettled m c) :=
  inferInstanceAs (Decidable (∀ p ∈ dropped m c, m.toItemHeap.Settled p))

/-- A call as meant, and not one that drops an item with a wrong state. -/
def HandsOver (m : PlaylistManager) (c : Call) : Prop := RetrievalCall m c ∧ DropsSettled m c

instance (m : PlaylistManager) (c : Call) : Decidable (HandsOver m c) :=
  inferInstanceAs (Decidable (_ ∧ _))

theorem handsOver_accounts (hl : Lifetime m gone False) (hc : HandsOver m c)
    (hfresh : Fresh m gone (added c)) :
    Meets (m.call c) NotPointer (Accounts m gone False (added c)) := by
  obtain ⟨hcall, hset⟩ := hc
  cases c with
  | retrieveMetaData list =>
    rw [call, onHeap_iff]
    refine (ItemHeap.retrieveMetaData_ledger hl.ledger (fun p hp hne => ?_)
      fun hall => hall.elim).mono fun heap h => hl.of_lists rfl h
    exact hl.ledger.not_gone_of_usable (hcall p hp hne)
  | retrieveMetaDataNow item found =>
    rw [call, onHeap_iff]
    refine (ItemHeap.retrieveMetaDataNow_ledger hl.ledger id (fun hne => ?_) found).mono
      fun heap h => hl.of_lists rfl h
    exact hl.ledger.not_gone_of_usable (hcall hne)
  | setPortablePlaylist read draws => exact hcall.elim
  | readPortablePlaylist itemsGiven read draws => exact hcall.elim
  | _ => exact call_accounts hl hcall trivial hfresh hset

/-- Every item that has been dropped is freed once, or marked for the one thread that has it
still to do, and no step of a thread, nor any call, follows a pointer to an item that has been
freed. -/
theorem removed_freedOnce {shuffle : Bool} {mode : RepeatMode}
    {contents : Ptr → Text × MetaData} {calls : List Call}
    (h : Run (Guarded HandsOver (Steps next)) (init shuffle mode contents) calls m)
    (hnodup : (entered calls).Nodup) (hnull : null ∉ entered calls) :
    (∀ p ∈ entered calls, p ∉ m.masterList ++ m.externalList → m.toItemHeap.FreedOnce p) ∧
      (m.threads = [] → ∀ p ∈ entered calls, p ∉ m.masterList ++ m.externalList →
        m.freed.count p = 1) ∧
      (∀ k found, m.threadRead k found ≠ .error .badPointer) ∧
      (∀ k, m.threadComplete k ≠ .error .badPointer) ∧
      (∀ c, HandsOver m c → (entered (calls ++ [c])).Nodup → null ∉ added c →
        m.call c ≠ .error .badPointer) := by
  obtain ⟨gone, hl, hperm⟩ := run_lifetime handsOver_accounts h hnodup hnull
  have hfreed : ∀ p ∈ entered calls, p ∉ m.masterList ++ m.externalList →
      m.toItemHeap.FreedOnce p := by
    intro p hp hnot
    rcases List.mem_append.mp (hperm.mem_iff.mpr hp) with hlisted | hgone
    · exact absurd hlisted hnot
    · exact hl.ledger.freedOnce p hgone
  have hcall : ∀ c, HandsOver m c → (entered (calls ++ [c])).Nodup → null ∉ added c →
      m.call c ≠ .error .badPointer := by
    intro c hc hnew hadded hfault
    exact (handsOver_accounts hl hc (fresh_of_run hperm hnew hadded)).of_error hfault rfl
  refine ⟨hfreed, fun hdone p hp hnot => ?_, fun k found hfault => ?_, fun k hfault => ?_, hcall⟩
  · rcases hfreed p hp hnot with ⟨honce, -⟩ | ⟨-, -, hheld⟩
    · exact honce
    · unfold ItemHeap.held at hheld
      rw [hdone] at hheld
      exact absurd hheld (by simp [heldBy])
  · exact (threadRead_ledger (E := NotPointer) hl.ledger k found).of_error hfault rfl
  · have hcur : NotPointer .badCurrent := by simp [NotPointer]
    exact (threadComplete_ledger hl.ledger hl.sound (.inr hcur) k).of_error hfault rfl

/-- An item is asked for twice and removed when both threads are done with it. -/
def retrievedTwiceCalls : List Call :=
  [.addItem 1 true, .retrieveMetaData [1], .threadRead 0 default, .threadComplete 0,
    .threadRead 1 default, .threadComplete 1, .threadFinish 1, .threadFinish 0, .removeItem 0]

theorem retrievedTwiceCalls_run : ∃ m, Run (Guarded HandsOver (Steps next))
      (init false .repeatNone fun _ => default) retrievedTwiceCalls m ∧
    m.masterList = [] ∧ m.externalList = [] ∧ m.threads = [] :=
  ⟨_, .cons ⟨by decide, rfl⟩ <| .cons ⟨by decide, rfl⟩ <| .cons ⟨by decide, rfl⟩ <|
    .cons ⟨by decide, rfl⟩ <| .cons ⟨by decide, rfl⟩ <| .cons ⟨by decide, rfl⟩ <|
    .cons ⟨by decide, rfl⟩ <| .cons ⟨by decide, rfl⟩ <| .cons ⟨by decide, rfl⟩ <| .refl _,
    rfl, rfl, rfl⟩

theorem removed_freedOnce_retrievedTwice : ∃ m : PlaylistManager, m.freed.count 1 = 1 ∧
    ∀ k found, m.threadRead k found ≠ .error .badPointer := by
  obtain ⟨m, hrun, hmaster, hexternal, hdone⟩ := retrievedTwiceCalls_run
  obtain ⟨-, hfreed, hread, -, -⟩ := removed_freedOnce hrun (by decide) (by decide)
  refine ⟨m, hfreed hdone 1 (by decide) ?_, hread⟩
  rw [hmaster, hexternal]
  exact List.not_mem_nil

/-- The first of two threads is done with the item, and the item is removed. -/
def freedEarlyCalls : List Call :=
  [.addItem 1 true, .retrieveMetaData [1], .threadRead 0 default, .threadComplete 0,
    .removeItem 0]

/-- The second thread then follows a pointer to it. -/
theorem thread_reads_freed : ∃ m, Run (Guarded RetrievalCall (Steps next))
      (init false .repeatNone fun _ => default) freedEarlyCalls m ∧
    (entered freedEarlyCalls).Nodup ∧ null ∉ entered freedEarlyCalls ∧
    m.freed = [1] ∧ m.threadRead 1 default = .error .badPointer :=
  ⟨_, .cons ⟨by decide, rfl⟩ <| .cons ⟨by decide, rfl⟩ <| .cons ⟨by decide, rfl⟩ <|
    .cons ⟨by decide, rfl⟩ <| .cons ⟨by decide, rfl⟩ <| .refl _,
    by decide, by decide, rfl, rfl⟩

end PlaylistManager

end FreeAmp.Base
