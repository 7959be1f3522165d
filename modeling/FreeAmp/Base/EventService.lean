/-
  Base/EventService.lean --- the event queue of the player, its semaphore and the thread
  that services the events, from `base/src/player.cpp`.

  `AcceptEvent` writes into the queue and then signals, in two steps.  The service thread
  waits only when it finds the queue empty, so that an event may be taken off the queue
  without a wait, and a wait may end with nothing in the queue.  There is no more than
  one wait for each event that has been serviced, and so the service thread is let
  through whenever there is an event, `events_taken_in_order`.
-/
import FreeAmp.Base.Queue
import FreeAmp.Base.Semaphore
import Mathlib.Data.Finset.Option

namespace FreeAmp.Base

open FreeAmp.Lib

/-- Where the service thread is in `EventServiceThreadFunc`. -/
inductive ServicePlace where
  | peek
  /-- before `Wait` -/
  | wait
  /-- inside `Wait` -/
  | waiting
  | read
  /-- inside `ServiceEvent` -/
  | servicing
  /-- it has left the loop -/
  | ended
  deriving DecidableEq, Repr

/-- The queue, the semaphore, and the threads; `none` is the service thread. -/
structure EventService (τ ε : Type) where
  queue : Queue ε
  sem : Semaphore (Option τ)
  /-- where the service thread is -/
  place : ServicePlace
  /-- the threads that are in `AcceptEvent`, between `Write` and `Signal` -/
  sending : Finset (Option τ)
  /-- the events that have been written -/
  written : List ε
  /-- the events that `ServiceEvent` has been called with -/
  serviced : List ε

/-- What happens. -/
inductive ServiceAction (τ ε : Type) where
  /-- `m_eventQueue->Write(e)`, when `new` returns `pQM` -/
  | write (t : Option τ) (pQM : Nat) (e : ε)
  /-- `m_eventSem->Signal()`, until it has unlocked -/
  | signal (t : Option τ)
  /-- what happens at the condition variable of the semaphore -/
  | cond (a : CondAction (Option τ))
  | peek
  /-- `Wait`, until it returns or waits -/
  | wait
  /-- `while (count <=0)`, when the wait has returned -/
  | retest
  | read
  /-- `ServiceEvent` returns -/
  | finish (rtnVal : Int)

namespace EventService

section Calls

variable {τ ε : Type} [DecidableEq τ]

/-- The constructor of the player; the service thread is started. -/
def init : EventService τ ε := ⟨Queue.init, Semaphore.init 1, .peek, ∅, [], []⟩

/-- Whether `Wait` has returned. -/
def afterWait (sem : Semaphore (Option τ)) : ServicePlace :=
  if (sem.place none).blocked then .waiting else .read

/-- The thread can call `AcceptEvent`; the service thread does so from inside `ServiceEvent`. -/
def Free (s : EventService τ ε) (t : Option τ) : Prop :=
  t ∉ s.sending ∧ s.sem.place t = .outside ∧ (t = none → s.place = .servicing)

/-- A step of a thread. -/
inductive Step (s : EventService τ ε) : ServiceAction τ ε → EventService τ ε → Prop
  | write (t : Option τ) (pQM : Nat) (e : ε) {queue : Queue ε} (ht : Free s t)
      (hfree : s.queue.members pQM = none) (h : s.queue.write pQM e = .ok queue) :
      Step s (.write t pQM e) { s with
        queue := queue
        sending := insert t s.sending
        written := s.written ++ [e] }
  | signal (t : Option τ) (ht : t ∈ s.sending) :
      Step s (.signal t) { s with sem := s.sem.signal t, sending := s.sending.erase t }
  | cond {a : CondAction (Option τ)} {place : Option τ → CondPlace}
      (h : CondStep s.sem.place a place) :
      Step s (.cond a) { s with sem := { s.sem with place := place } }
  | peek {r : Option ε} (hplace : s.place = .peek) (h : s.queue.peek = .ok r) :
      Step s .peek { s with place := if r.isNone then .wait else .read }
  | wait (hplace : s.place = .wait) :
      Step s .wait { s with
        sem := s.sem.wait none false
        place := afterWait (s.sem.wait none false) }
  | retest (hplace : s.place = .waiting) (hwoken : s.sem.place none = .woken) :
      Step s .retest { s with
        sem := s.sem.retest none
        place := afterWait (s.sem.retest none) }
  | read_event {queue : Queue ε} {pC : ε} (hplace : s.place = .read)
      (h : s.queue.read = .ok (some pC, queue)) :
      Step s .read { s with
        queue := queue
        place := .servicing
        serviced := s.serviced ++ [pC] }
  | read_null {queue : Queue ε} (hplace : s.place = .read)
      (h : s.queue.read = .ok (none, queue)) :
      Step s .read { s with queue := queue, place := .peek }
  | finish (rtnVal : Int) (hplace : s.place = .servicing) (hsending : none ∉ s.sending)
      (houtside : s.sem.place none = .outside) :
      Step s (.finish rtnVal) { s with place := if rtnVal = 0 then .peek else .ended }

/-- The thread is in `AcceptEvent`, between `Write` and the end of `Signal`. -/
def Sending (s : EventService τ ε) (t : Option τ) : Prop :=
  t ∈ s.sending ∨ s.sem.place t = .notifying

end Calls

/-! ## The invariant -/

/-- It holds between the steps. -/
structure Kept {τ ε : Type} [DecidableEq τ] (s : EventService τ ε) : Prop where
  holds : ∃ xs, s.queue.Holds xs ∧ s.written = s.serviced ++ xs
  sent : s.written.length = s.sem.signals + s.sending.card
  waits : s.sem.waits ≤ s.serviced.length + if s.place = .read then 1 else 0
  counted : ∃ blocked, Semaphore.Counted 1 s.sem blocked
  alone : Semaphore.Alone s.sem
  who : ∀ t, (s.sem.place t).blocked = true ↔ t = none ∧ s.place = .waiting
  outside : ∀ t ∈ s.sending, s.sem.place t = .outside
  idle : s.place ≠ .servicing → s.place ≠ .waiting →
    none ∉ s.sending ∧ s.sem.place none = .outside

section Invariant

variable {τ ε : Type} [DecidableEq τ] {s s' : EventService τ ε}

theorem kept_init : Kept (init : EventService τ ε) where
  holds := ⟨[], Queue.holds_init, rfl⟩
  sent := rfl
  waits := Nat.zero_le _
  counted := ⟨∅, Semaphore.counted_init (Nat.le_refl 1)⟩
  alone := Semaphore.alone_of_none fun _ => rfl
  who := fun _ => ⟨fun h => absurd h nofun, fun h => absurd h.2 nofun⟩
  outside := fun t ht => absurd ht (Finset.notMem_empty t)
  idle := fun _ _ => ⟨Finset.notMem_empty none, rfl⟩

theorem Kept.waits_le (h : Kept s) : s.sem.waits ≤ s.sem.signals := by
  obtain ⟨blocked, hcounted⟩ := h.counted
  have hwaits := hcounted.waits
  omega

/-- What is in the queue has been signalled, or will be. -/
theorem Kept.length (h : Kept s) {xs : List ε} (hxs : s.written = s.serviced ++ xs) :
    s.serviced.length + xs.length = s.sem.signals + s.sending.card := by
  rw [← h.sent, hxs, List.length_append]

theorem Kept.write (h : Kept s) {t : Option τ} {pQM : Nat} {e : ε} {queue : Queue ε}
    (ht : Free s t) (hfree : s.queue.members pQM = none)
    (hwrite : s.queue.write pQM e = .ok queue) :
    Kept { s with
      queue := queue
      sending := insert t s.sending
      written := s.written ++ [e] } := by
  obtain ⟨hsending, houtside, hservice⟩ := ht
  refine ⟨?_, ?_, h.waits, h.counted, h.alone, h.who, ?_, ?_⟩
  · obtain ⟨xs, hxs, hwritten⟩ := h.holds
    obtain ⟨queue', hqueue', hholds⟩ := Queue.write_holds hxs hfree e
    obtain rfl : queue' = queue := Except.ok.inj (hqueue'.symm.trans hwrite)
    refine ⟨xs ++ [e], hholds, ?_⟩
    dsimp only
    rw [hwritten, List.append_assoc]
  · dsimp only
    rw [List.length_append, h.sent, Finset.card_insert_of_notMem hsending]
    rfl
  · intro u hu
    rcases Finset.mem_insert.mp hu with rfl | hu
    · exact houtside
    · exact h.outside u hu
  · intro hservicing hwaiting
    obtain ⟨hnone, hplace⟩ := h.idle hservicing hwaiting
    refine ⟨?_, hplace⟩
    intro hmem
    rcases Finset.mem_insert.mp hmem with hnt | hmem
    · exact hservicing (hservice hnt.symm)
    · exact hnone hmem

theorem Kept.signal (h : Kept s) {t : Option τ} (ht : t ∈ s.sending) :
    Kept { s with sem := s.sem.signal t, sending := s.sending.erase t } := by
  have hout := h.outside t ht
  obtain ⟨blocked, hcounted⟩ := h.counted
  have hstep : Semaphore.Step s.sem (.signal t) (s.sem.signal t) := .signal t hout
  have hother : ∀ u, u ≠ t → (s.sem.signal t).place u = s.sem.place u :=
    fun u hu => Function.update_of_ne hu _ _
  have hself : (s.sem.signal t).place t = .notifying := Function.update_self t _ _
  have hguard : Semaphore.WaitsAlone s.sem (.signal t) := trivial
  refine ⟨h.holds, ?_, h.waits, Semaphore.Step.counted hcounted hstep,
    Semaphore.Step.alone h.alone hguard hstep, ?_, ?_, ?_⟩
  · have hcard := Finset.card_erase_add_one ht
    have hsent := h.sent
    unfold Semaphore.signal
    dsimp only
    omega
  · intro u
    rw [← h.who u]
    by_cases hut : u = t
    · rw [hut]
      dsimp only
      rw [hself, hout]
      exact ⟨nofun, nofun⟩
    · dsimp only
      rw [hother u hut]
  · intro u hu
    obtain ⟨hut, hu⟩ := Finset.mem_erase.mp hu
    exact (hother u hut).trans (h.outside u hu)
  · intro hservicing hwaiting
    obtain ⟨hnone, hplace⟩ := h.idle hservicing hwaiting
    have hnt : none ≠ t := fun hnt => hnone (hnt ▸ ht)
    exact ⟨fun hmem => hnone (Finset.mem_erase.mp hmem).2, (hother none hnt).trans hplace⟩

theorem Kept.cond (h : Kept s) {a : CondAction (Option τ)} {place : Option τ → CondPlace}
    (hcond : CondStep s.sem.place a place) :
    Kept { s with sem := { s.sem with place := place } } := by
  obtain ⟨blocked, hcounted⟩ := h.counted
  have hstep : Semaphore.Step s.sem (.cond a) { s.sem with place := place } := .cond hcond
  have hguard : Semaphore.WaitsAlone s.sem (.cond a) := trivial
  refine ⟨h.holds, h.sent, h.waits, Semaphore.Step.counted hcounted hstep,
    Semaphore.Step.alone h.alone hguard hstep, ?_, ?_, ?_⟩
  · intro t
    rw [← h.who t, ← hcond.blocked t]
  · exact fun t ht => hcond.outside (h.outside t ht)
  · intro hservicing hwaiting
    obtain ⟨hnone, hplace⟩ := h.idle hservicing hwaiting
    exact ⟨hnone, hcond.outside hplace⟩

/-- The service thread goes on at another place, where it does not wait. -/
theorem Kept.goto (h : Kept s) {place : ServicePlace} (hwas : s.place ≠ .waiting)
    (hwaiting : place ≠ .waiting) (hwaits : s.sem.waits ≤ s.serviced.length)
    (hidle : none ∉ s.sending ∧ s.sem.place none = .outside) :
    Kept { s with place := place } := by
  refine ⟨h.holds, h.sent, Nat.le_trans hwaits (Nat.le_add_right _ _), h.counted, h.alone, ?_,
    h.outside, fun _ _ => hidle⟩
  intro t
  rw [h.who t]
  exact ⟨fun ht => absurd ht.2 hwas, fun ht => absurd ht.2 hwaiting⟩

theorem Kept.waited (h : Kept s) {a : SemaphoreAction (Option τ)} {sem : Semaphore (Option τ)}
    (hstep : Semaphore.Step s.sem a sem) (hguard : Semaphore.WaitsAlone s.sem a)
    (hread : s.place ≠ .read) (hnone : none ∉ s.sending)
    (hother : ∀ t, t ≠ none → sem.place t = s.sem.place t)
    (hsignals : sem.signals = s.sem.signals)
    (hback : ((sem.place none).blocked = true ∧ sem.waits = s.sem.waits) ∨
      (sem.place none = .outside ∧ sem.waits = s.sem.waits + 1)) :
    Kept { s with sem := sem, place := afterWait sem } := by
  obtain ⟨blocked, hcounted⟩ := h.counted
  have hwaits := h.waits
  rw [if_neg hread] at hwaits
  refine ⟨h.holds, ?_, ?_, Semaphore.Step.counted hcounted hstep,
    Semaphore.Step.alone h.alone hguard hstep, ?_, ?_, ?_⟩
  · dsimp only
    rw [hsignals]
    exact h.sent
  · dsimp only
    unfold afterWait
    rcases hback with ⟨hblocked, hsame⟩ | ⟨hplace, hone⟩
    · rw [if_pos hblocked, if_neg nofun, hsame]
      exact hwaits
    · have houtside : CondPlace.outside.blocked ≠ true := nofun
      rw [hplace, if_neg houtside, if_pos rfl, hone]
      exact Nat.succ_le_succ hwaits
  · intro t
    cases t with
    | none =>
      dsimp only
      unfold afterWait
      by_cases hblocked : (sem.place none).blocked = true
      · rw [if_pos hblocked]
        exact ⟨fun _ => ⟨rfl, rfl⟩, fun _ => hblocked⟩
      · rw [if_neg hblocked]
        exact ⟨fun hb => absurd hb hblocked, fun hw => absurd hw.2 nofun⟩
    | some t =>
      dsimp only
      rw [hother (some t) nofun, h.who (some t)]
      exact ⟨fun ht => absurd ht.1 nofun, fun ht => absurd ht.1 nofun⟩
  · intro t ht
    have htn : t ≠ none := fun htn => hnone (htn ▸ ht)
    exact (hother t htn).trans (h.outside t ht)
  · intro _ hwaiting
    refine ⟨hnone, ?_⟩
    rcases hback with ⟨hblocked, _⟩ | ⟨hplace, _⟩
    · dsimp only at hwaiting
      unfold afterWait at hwaiting
      rw [if_pos hblocked] at hwaiting
      exact absurd rfl hwaiting
    · exact hplace

theorem Kept.wait (h : Kept s) (hplace : s.place = .wait) :
    Kept { s with
      sem := s.sem.wait none false
      place := afterWait (s.sem.wait none false) } := by
  obtain ⟨hnone, houtside⟩ := h.idle (by rw [hplace]; nofun) (by rw [hplace]; nofun)
  have hguard : Semaphore.WaitsAlone s.sem (.wait none false) := by
    refine .inl fun u => ?_
    rw [Bool.eq_false_iff]
    intro hu
    have hwaiting := ((h.who u).mp hu).2
    rw [hplace] at hwaiting
    exact absurd hwaiting nofun
  refine h.waited (.wait none false houtside) hguard (by rw [hplace]; nofun) hnone ?_ ?_ ?_
  · intro t ht
    unfold Semaphore.wait
    dsimp only
    split
    · exact Function.update_of_ne ht _ _
    · rfl
  · unfold Semaphore.wait
    dsimp only
    split <;> rfl
  · unfold Semaphore.wait
    dsimp only
    split
    · refine .inl ⟨?_, rfl⟩
      dsimp only
      rw [Function.update_self]
      rfl
    · exact .inr ⟨houtside, rfl⟩

theorem Kept.retest (h : Kept s) (hplace : s.place = .waiting)
    (hwoken : s.sem.place none = .woken) :
    Kept { s with sem := s.sem.retest none, place := afterWait (s.sem.retest none) } := by
  have hguard : Semaphore.WaitsAlone s.sem (.retest none) := trivial
  have hnone : none ∉ s.sending := by
    intro hmem
    rw [h.outside none hmem] at hwoken
    exact absurd hwoken nofun
  refine h.waited (.retest none hwoken) hguard (by rw [hplace]; nofun) hnone ?_ ?_ ?_
  · intro t ht
    unfold Semaphore.retest
    split
    · exact Function.update_of_ne ht _ _
    · exact Function.update_of_ne ht _ _
  · unfold Semaphore.retest
    split <;> rfl
  · unfold Semaphore.retest
    split
    · refine .inl ⟨?_, rfl⟩
      dsimp only
      rw [Function.update_self]
      rfl
    · refine .inr ⟨?_, rfl⟩
      dsimp only
      rw [Function.update_self]

theorem Kept.read_event (h : Kept s) {queue : Queue ε} {pC : ε} (hplace : s.place = .read)
    (hread : s.queue.read = .ok (some pC, queue)) :
    Kept { s with queue := queue, place := .servicing, serviced := s.serviced ++ [pC] } := by
  have hwaits := h.waits
  rw [if_pos hplace] at hwaits
  refine ⟨?_, h.sent, ?_, h.counted, h.alone, ?_, h.outside, fun hs => absurd rfl hs⟩
  · obtain ⟨xs, hxs, hwritten⟩ := h.holds
    obtain ⟨queue', hqueue', hholds⟩ := Queue.read_holds hxs
    obtain ⟨hhead, rfl⟩ := Prod.mk.inj (Except.ok.inj (hqueue'.symm.trans hread))
    refine ⟨xs.tail, hholds, ?_⟩
    dsimp only
    rw [hwritten, List.append_assoc, List.singleton_append, List.cons_head?_tail hhead]
  · dsimp only
    rw [List.length_append]
    exact hwaits
  · intro t
    rw [h.who t]
    exact ⟨fun ht => absurd (hplace.symm.trans ht.2) nofun, fun ht => absurd ht.2 nofun⟩

theorem Kept.read_null (h : Kept s) {queue : Queue ε} (hplace : s.place = .read)
    (hread : s.queue.read = .ok (none, queue)) :
    Kept { s with queue := queue, place := .peek } := by
  obtain ⟨xs, hxs, hwritten⟩ := h.holds
  obtain ⟨queue', hqueue', hholds⟩ := Queue.read_holds hxs
  obtain ⟨hhead, rfl⟩ := Prod.mk.inj (Except.ok.inj (hqueue'.symm.trans hread))
  obtain rfl : xs = [] := List.head?_eq_none_iff.mp hhead
  have hqueue : Kept { s with queue := queue' } :=
    ⟨⟨[], hholds, hwritten⟩, h.sent, h.waits, h.counted, h.alone, h.who, h.outside, h.idle⟩
  -- all that was signalled has been serviced
  have hlength := h.length hwritten
  have hwaits := h.waits_le
  rw [List.length_nil] at hlength
  have hserviced : s.sem.waits ≤ s.serviced.length := by omega
  exact hqueue.goto (by rw [hplace]; nofun) nofun hserviced
    (h.idle (by rw [hplace]; nofun) (by rw [hplace]; nofun))

theorem Step.kept {a : ServiceAction τ ε} (hs : Kept s) (h : Step s a s') : Kept s' := by
  cases h with
  | write t pQM e ht hfree hwrite => exact hs.write ht hfree hwrite
  | signal t ht => exact hs.signal ht
  | cond hcond => exact hs.cond hcond
  | peek hplace _ =>
    have hwaits := hs.waits
    rw [if_neg (by rw [hplace]; nofun)] at hwaits
    refine hs.goto (by rw [hplace]; nofun) ?_ hwaits
      (hs.idle (by rw [hplace]; nofun) (by rw [hplace]; nofun))
    split <;> nofun
  | wait hplace => exact hs.wait hplace
  | retest hplace hwoken => exact hs.retest hplace hwoken
  | read_event hplace hread => exact hs.read_event hplace hread
  | read_null hplace hread => exact hs.read_null hplace hread
  | finish rtnVal hplace hsending houtside =>
    have hwaits := hs.waits
    rw [if_neg (by rw [hplace]; nofun)] at hwaits
    refine hs.goto (by rw [hplace]; nofun) ?_ hwaits ⟨hsending, houtside⟩
    split <;> nofun

/-- What has been written stays, and more is written behind it. -/
theorem Step.written_prefix {a : ServiceAction τ ε} (h : Step s a s') :
    s.written <+: s'.written := by
  cases h with
  | write t pQM e _ _ _ => exact List.prefix_append _ _
  | _ => exact List.prefix_rfl

/-- While it waits, and there is an event and nobody is about to signal, the service thread has been
woken up and the count lets it through. -/
theorem Kept.woken (h : Kept s) {xs : List ε} (hxs : s.written = s.serviced ++ xs)
    (hplace : s.place = .waiting) (hevent : xs ≠ []) (hnone : ∀ t, ¬ Sending s t) :
    s.sem.place none = .woken ∧ 0 < s.sem.count := by
  have hblocked : (s.sem.place none).blocked = true := (h.who none).mpr ⟨rfl, hplace⟩
  have hsending : s.sending = ∅ :=
    Finset.eq_empty_of_forall_notMem fun t ht => hnone t (.inl ht)
  have hpos : 0 < s.sem.count := by
    obtain ⟨blocked, hcounted⟩ := h.counted
    have hcard : blocked = {none} := by
      ext t
      rw [hcounted.who t, h.who t, Finset.mem_singleton]
      exact ⟨fun ht => ht.1, fun ht => ⟨ht, hplace⟩⟩
    have hcount := hcounted.count
    have hlength := h.length hxs
    have hwaits := h.waits
    have hevents := List.length_pos_iff.mpr hevent
    rw [if_neg (by rw [hplace]; nofun)] at hwaits
    rw [hsending, Finset.card_empty] at hlength
    rw [hcard, Finset.card_singleton] at hcount
    omega
  refine ⟨?_, hpos⟩
  cases hwhere : s.sem.place none with
  | woken => rfl
  | outside =>
    rw [hwhere] at hblocked
    exact absurd hblocked nofun
  | notifying => exact absurd (.inr hwhere) (hnone none)
  | waiting =>
    obtain ⟨t, ht | ht⟩ := h.alone.alert hpos none hwhere
    · obtain ⟨rfl, _⟩ := (h.who t).mp (by rw [ht]; rfl)
      exact absurd (hwhere.symm.trans ht) nofun
    · exact absurd (.inr ht) (hnone t)

end Invariant

/-- However the threads go on: the events are serviced in the order in which they were written, each
as many times as it was written, and what was not serviced is in the queue; an event that is
written, by whichever thread, is serviced when those before it have been; the service thread is not
blocked while there is an event and no thread is between `Write` and the end of `Signal`; and no
function of the queue follows a pointer to nothing. -/
theorem events_taken_in_order {τ ε : Type} [DecidableEq τ] (as : List (ServiceAction τ ε))
    (s : EventService τ ε) (h : Run Step init as s) :
    (∃ xs, s.queue.Holds xs ∧ s.written = s.serviced ++ xs ∧
      (s.place = .waiting → xs ≠ [] → (∀ t, ¬ Sending s t) →
        s.sem.place none = .woken ∧ 0 < s.sem.count)) ∧
    (∀ (t : Option τ) (pQM : Nat) (e : ε) (s' u : EventService τ ε)
      (bs : List (ServiceAction τ ε)), Step s (.write t pQM e) s' → Run Step s' bs u →
        s.written.length < u.serviced.length → u.serviced[s.written.length]? = some e) ∧
    ((∃ r, s.queue.peek = .ok r) ∧ (∃ r, s.queue.read = .ok r) ∧
      ∀ (pQM : Nat) (e : ε), s.queue.members pQM = none → ∃ q, s.queue.write pQM e = .ok q) := by
  have hkept : ∀ (bs : List (ServiceAction τ ε)) (u : EventService τ ε), Run Step init bs u →
      Kept u := by
    intro bs u hu
    exact hu.invariant (P := Kept) (fun _ _ _ hv hstep => Step.kept hv hstep) kept_init
  have hs := hkept as s h
  obtain ⟨xs, hholds, hwritten⟩ := hs.holds
  refine ⟨⟨xs, hholds, hwritten, hs.woken hwritten⟩, ?_, ⟨_, Queue.peek_holds hholds⟩, ?_, ?_⟩
  · intro t pQM e s' u bs hstep hrun hlength
    obtain ⟨ys, _, hserviced⟩ := (hkept _ u (h.append (.cons hstep hrun))).holds
    have hlater : s'.written <+: u.written := by
      refine hrun.invariant (P := fun v => s'.written <+: v.written) ?_ List.prefix_rfl
      exact fun _ _ _ hv hvw => hv.trans hvw.written_prefix
    have hwrite : s'.written = s.written ++ [e] := by
      cases hstep with
      | write => rfl
    obtain ⟨zs, hzs⟩ := hlater
    have hall : (u.serviced ++ ys)[s.written.length]? = u.serviced[s.written.length]? :=
      List.getElem?_append_left hlength
    rw [← hall, ← hserviced, ← hzs, hwrite, List.append_assoc,
      List.getElem?_append_right (Nat.le_refl _), Nat.sub_self]
    rfl
  · obtain ⟨q, hq, _⟩ := Queue.read_holds hholds
    exact ⟨_, hq⟩
  · intro pQM e hfree
    obtain ⟨q, hq, _⟩ := Queue.write_holds hholds hfree e
    exact ⟨q, hq⟩

/-- The service thread waits, an event is sent, and while it is serviced another one. -/
def sentInside : List (ServiceAction Unit Nat) :=
  [.peek, .wait, .write (some ()) 0 7, .signal (some ()), .cond (.notify (some ()) none), .retest,
    .read, .write none 5 8, .signal none, .cond (.idle none), .finish 0, .peek, .read]

theorem events_taken_in_order_sentInside :
    ∃ s : EventService Unit Nat, Run Step init sentInside s ∧ s.serviced = [7, 8] ∧
      ∃ xs, s.queue.Holds xs ∧ s.written = s.serviced ++ xs := by
  have hrun : ∃ s : EventService Unit Nat, Run Step init sentInside s ∧ s.serviced = [7, 8] := by
    refine ⟨_, .cons (.peek rfl rfl) (.cons (.wait rfl)
      (.cons (.write (some ()) 0 7 ⟨by decide, rfl, nofun⟩ rfl rfl)
        (.cons (.signal (some ()) (by decide))
          (.cons (.cond (.notify (some ()) none rfl rfl)) (.cons (.retest rfl rfl)
            (.cons (.read_event rfl rfl)
              (.cons (.write none 5 8 ⟨by decide, rfl, fun _ => rfl⟩ rfl rfl)
                (.cons (.signal none (by decide))
                  (.cons (.cond (.idle none rfl ?_)) (.cons (.finish 0 rfl (by decide) rfl)
                    (.cons (.peek rfl rfl) (.cons (.read_event rfl rfl) (.refl _))))))))))))), rfl⟩
    intro t
    cases t with
    | none => decide
    | some t =>
      cases t
      decide
  obtain ⟨s, hrun, hserviced⟩ := hrun
  obtain ⟨⟨xs, hholds, hwritten, _⟩, _⟩ := events_taken_in_order sentInside s hrun
  exact ⟨s, hrun, hserviced, xs, hholds, hwritten⟩

end EventService

end FreeAmp.Base
