/-
  Base/Semaphore.lean --- the semaphore of `base/unix/src/semaphore.cpp`.

  `Wait` counts down before it waits, and waits while the count is not positive.  So
  threads that wait keep the count down for one another: with two of them a `Signal` lets
  neither go on.  A thread that waits alone goes on, `semaphore_counts`.
-/
import FreeAmp.Lib.CondVar
import FreeAmp.Lib.Transition
import Mathlib.Data.Finset.Card

namespace FreeAmp.Base

open FreeAmp.Lib

/-- `class Semaphore`, and its threads. -/
structure Semaphore (τ : Type) where
  count : Int
  /-- where the threads are with `cond` -/
  place : τ → CondPlace
  /-- the thread is in `TimedWait` -/
  timed : τ → Bool
  /-- how many calls of `Wait` and `TimedWait` have returned true -/
  waits : Nat
  /-- how many calls of `Signal` there have been -/
  signals : Nat

/-- What a thread does. -/
inductive SemaphoreAction (τ : Type) where
  /-- `Wait`, or `TimedWait`, until it returns or waits -/
  | wait (t : τ) (timed : Bool)
  /-- `while (count <=0)`, when the wait has returned -/
  | retest (t : τ)
  /-- `pthread_cond_timedwait` returns `ETIMEDOUT` -/
  | timeout (t : τ)
  /-- `Signal`, until it has unlocked -/
  | signal (t : τ)
  /-- what happens at `cond` -/
  | cond (a : CondAction τ)
  deriving DecidableEq

namespace Semaphore

section Calls

variable {τ : Type} [DecidableEq τ] (s : Semaphore τ) (t : τ)

def init (cnt : Nat) : Semaphore τ := ⟨cnt, fun _ => .outside, fun _ => false, 0, 0⟩

def wait (timed : Bool) : Semaphore τ :=
  let count := s.count - 1
  if count ≤ 0 then
    { s with
      count := count
      place := Function.update s.place t .waiting
      timed := Function.update s.timed t timed }
  else { s with count := count, waits := s.waits + 1 }

/-- `while (count <=0)` -/
def retest : Semaphore τ :=
  if s.count ≤ 0 then { s with place := Function.update s.place t .waiting }
  else { s with place := Function.update s.place t .outside, waits := s.waits + 1 }

/-- `count++; ret = false` -/
def timeout : Semaphore τ :=
  { s with count := s.count + 1, place := Function.update s.place t .outside }

def signal : Semaphore τ :=
  { s with
    count := s.count + 1
    place := Function.update s.place t .notifying
    signals := s.signals + 1 }

end Calls

/-- A step of a thread. -/
inductive Step {τ : Type} [DecidableEq τ] (s : Semaphore τ) :
    SemaphoreAction τ → Semaphore τ → Prop
  | wait (t : τ) (timed : Bool) (h : s.place t = .outside) :
      Step s (.wait t timed) (s.wait t timed)
  | retest (t : τ) (h : s.place t = .woken) : Step s (.retest t) (s.retest t)
  | timeout (t : τ) (h : s.place t = .waiting) (htimed : s.timed t = true) :
      Step s (.timeout t) (s.timeout t)
  | signal (t : τ) (h : s.place t = .outside) : Step s (.signal t) (s.signal t)
  | cond {a : CondAction τ} {place : τ → CondPlace} (h : CondStep s.place a place) :
      Step s (.cond a) { s with place := place }

/-! ## What is counted -/

/-- The count is what has been put in, less the calls that have returned and those that are
blocked. -/
structure Counted {τ : Type} (cnt : Nat) (s : Semaphore τ) (blocked : Finset τ) : Prop where
  who : ∀ t, t ∈ blocked ↔ (s.place t).blocked = true
  count : s.count = cnt + s.signals - s.waits - blocked.card
  waits : s.waits + 1 ≤ cnt + s.signals

section Counting

variable {τ : Type} [DecidableEq τ] {cnt : Nat} {s s' : Semaphore τ} {blocked : Finset τ} {t : τ}

theorem counted_init (hcnt : 1 ≤ cnt) : Counted cnt (init cnt : Semaphore τ) ∅ := by
  refine ⟨?_, ?_, ?_⟩
  · intro t
    exact ⟨fun h => absurd h (Finset.notMem_empty t), fun h => absurd h nofun⟩
  · show (cnt : Int) = cnt + 0 - 0 - 0
    omega
  · exact hcnt

/-- Who is blocked when a thread has got to a place where it is. -/
theorem mem_insert_iff_blocked {p : τ → CondPlace}
    (h : ∀ u, u ∈ blocked ↔ (p u).blocked = true) {place : CondPlace}
    (hplace : place.blocked = true) (u : τ) :
    u ∈ insert t blocked ↔ (Function.update p t place u).blocked = true := by
  rw [Finset.mem_insert]
  by_cases hut : u = t
  · subst hut
    rw [Function.update_self, hplace]
    exact ⟨fun _ => rfl, fun _ => .inl rfl⟩
  · rw [Function.update_of_ne hut, ← h u]
    exact ⟨fun hu => hu.resolve_left hut, .inr⟩

/-- Who is blocked when a thread has got to a place where it is not. -/
theorem mem_erase_iff_blocked {p : τ → CondPlace}
    (h : ∀ u, u ∈ blocked ↔ (p u).blocked = true) {place : CondPlace}
    (hplace : place.blocked = false) (u : τ) :
    u ∈ blocked.erase t ↔ (Function.update p t place u).blocked = true := by
  rw [Finset.mem_erase]
  by_cases hut : u = t
  · subst hut
    rw [Function.update_self, hplace]
    exact ⟨fun hu => absurd rfl hu.1, fun hu => absurd hu nofun⟩
  · rw [Function.update_of_ne hut, ← h u]
    exact ⟨fun hu => hu.2, fun hu => ⟨hut, hu⟩⟩

omit [DecidableEq τ] in
theorem Counted.outside (h : Counted cnt s blocked) (ht : s.place t = .outside) :
    t ∉ blocked := by
  rw [h.who t, ht]
  nofun

theorem Counted.inside (h : Counted cnt s blocked) (ht : (s.place t).blocked = true) :
    (blocked.erase t).card + 1 = blocked.card :=
  Finset.card_erase_add_one ((h.who t).mpr ht)

theorem Step.counted {a : SemaphoreAction τ} (hs : Counted cnt s blocked) (h : Step s a s') :
    ∃ blocked', Counted cnt s' blocked' := by
  have hcount := hs.count
  have hwaits := hs.waits
  cases h with
  | wait t timed ht =>
    have hout := hs.outside ht
    unfold Semaphore.wait
    dsimp only
    split
    · refine ⟨insert t blocked, mem_insert_iff_blocked hs.who rfl, ?_, hwaits⟩
      dsimp only
      rw [Finset.card_insert_of_notMem hout]
      omega
    · refine ⟨blocked, hs.who, ?_, ?_⟩
      · dsimp only
        omega
      · dsimp only
        omega
  | retest t ht =>
    have hin : (s.place t).blocked = true := by rw [ht]; rfl
    have hcard := hs.inside hin
    unfold Semaphore.retest
    split
    · refine ⟨insert t blocked, mem_insert_iff_blocked hs.who rfl, ?_, hwaits⟩
      rw [Finset.insert_eq_of_mem ((hs.who t).mpr hin)]
      exact hcount
    · refine ⟨blocked.erase t, mem_erase_iff_blocked hs.who rfl, ?_, ?_⟩
      · dsimp only
        omega
      · dsimp only
        omega
  | timeout t ht _ =>
    have hcard := hs.inside (show (s.place t).blocked = true by rw [ht]; rfl)
    refine ⟨blocked.erase t, mem_erase_iff_blocked hs.who rfl, ?_, hwaits⟩
    unfold Semaphore.timeout
    dsimp only
    omega
  | signal t ht =>
    have hout := hs.outside ht
    refine ⟨blocked.erase t, mem_erase_iff_blocked hs.who rfl, ?_, ?_⟩
    · unfold Semaphore.signal
      dsimp only
      rw [Finset.erase_eq_of_notMem hout]
      omega
    · unfold Semaphore.signal
      dsimp only
      omega
  | cond h =>
    refine ⟨blocked, ?_, hcount, hwaits⟩
    intro u
    rw [hs.who u, ← h.blocked u]

theorem run_counted {as : List (SemaphoreAction τ)} (hcnt : 1 ≤ cnt)
    (h : Run Step (init cnt) as s) : ∃ blocked, Counted cnt s blocked := by
  refine h.invariant (P := fun u => ∃ blocked, Counted cnt u blocked) ?_ ⟨∅, counted_init hcnt⟩
  rintro u a v ⟨blocked, hu⟩ hstep
  exact Step.counted hu hstep

end Counting

/-! ## A thread that waits alone -/

/-- A thread goes into a wait that blocks only when no other thread is blocked. -/
def WaitsAlone {τ : Type} (s : Semaphore τ) : SemaphoreAction τ → Prop
  | .wait _ _ => (∀ u, (s.place u).blocked = false) ∨ 1 < s.count
  | _ => True

/-- What is under way without another call and without a wakeup from nowhere. -/
def UnderWay {τ : Type} : SemaphoreAction τ → Prop
  | .retest _ => True
  | .cond (.notify _ _) => True
  | .cond (.idle _) => True
  | _ => False

/-- The thread returns from its wait by what is under way. -/
def CanProceed {τ : Type} [DecidableEq τ] (s : Semaphore τ) (t : τ) : Prop :=
  ∃ as s', Run Step s as s' ∧ (∀ a ∈ as, UnderWay a) ∧ s'.place t = .outside ∧
    s'.waits = s.waits + 1

/-- One thread at most is blocked, and when the count is positive it is not alone. -/
structure Alone {τ : Type} (s : Semaphore τ) : Prop where
  one : ∀ t u, (s.place t).blocked = true → (s.place u).blocked = true → t = u
  alert : 0 < s.count → Alert s.place

section Waiting

variable {τ : Type} [DecidableEq τ] {s s' : Semaphore τ} {t : τ}

/-- Where the thread that was blocked has left, nobody is. -/
theorem Alone.none_left (h : Alone s) (ht : (s.place t).blocked = true) {place : CondPlace}
    (hplace : place.blocked = false) (u : τ) :
    (Function.update s.place t place u).blocked = false := by
  by_cases hut : u = t
  · subst hut
    rw [Function.update_self, hplace]
  · rw [Function.update_of_ne hut, Bool.eq_false_iff]
    exact fun hu => hut (h.one u t hu ht)

omit [DecidableEq τ] in
theorem alone_of_none {s : Semaphore τ} (h : ∀ u, (s.place u).blocked = false) : Alone s where
  one := fun t _ ht _ => absurd (h t) (by rw [ht]; nofun)
  alert := fun _ t ht => absurd (h t) (by rw [ht]; nofun)

theorem Step.alone {a : SemaphoreAction τ} (hs : Alone s) (hguard : WaitsAlone s a)
    (h : Step s a s') : Alone s' := by
  cases h with
  | wait t timed _ =>
    unfold Semaphore.wait
    dsimp only
    split
    · rename_i hle
      refine ⟨?_, fun hpos => absurd hle (Int.not_le.mpr hpos)⟩
      have hnone : ∀ u, (s.place u).blocked = false := by
        rcases hguard with hnone | hcount
        · exact hnone
        · omega
      have honly : ∀ u, (Function.update s.place t .waiting u).blocked = true → u = t := by
        intro u hu
        by_contra hut
        rw [Function.update_of_ne hut, hnone u] at hu
        exact absurd hu nofun
      intro u v hu hv
      rw [honly u hu, honly v hv]
    · exact ⟨hs.one, fun _ => hs.alert (by omega)⟩
  | retest t ht =>
    have hin : (s.place t).blocked = true := by rw [ht]; rfl
    unfold Semaphore.retest
    split
    · rename_i hle
      refine ⟨?_, fun hpos => absurd hle (Int.not_le.mpr hpos)⟩
      have hwas : ∀ u, (Function.update s.place t .waiting u).blocked = true →
          (s.place u).blocked = true := by
        intro u hu
        by_cases hut : u = t
        · rw [hut]
          exact hin
        · rwa [Function.update_of_ne hut] at hu
      exact fun u v hu hv => hs.one u v (hwas u hu) (hwas v hv)
    · exact alone_of_none fun u => hs.none_left hin rfl u
  | timeout t ht _ =>
    have hin : (s.place t).blocked = true := by rw [ht]; rfl
    exact alone_of_none fun u => hs.none_left hin rfl u
  | signal t ht =>
    refine ⟨?_, fun _ => ?_⟩
    · have hwas : ∀ u, (Function.update s.place t .notifying u).blocked = true →
          (s.place u).blocked = true := by
        intro u hu
        by_cases hut : u = t
        · subst hut
          rw [Function.update_self] at hu
          exact absurd hu nofun
        · rwa [Function.update_of_ne hut] at hu
      exact fun u v hu hv => hs.one u v (hwas u hu) (hwas v hv)
    · have hat : (s.signal t).place t = .notifying := Function.update_self t _ s.place
      exact alert_of_notifying hat
  | cond h =>
    refine ⟨?_, fun _ => h.alert⟩
    intro u v hu hv
    dsimp only at hu hv
    rw [h.blocked] at hu hv
    exact hs.one u v hu hv

/-- A thread that is blocked alone proceeds when the count is positive. -/
theorem Alone.canProceed (h : Alone s) (ht : (s.place t).blocked = true) (hpos : 0 < s.count) :
    CanProceed s t := by
  have hretest : ∀ u : Semaphore τ, u.place t = .woken → u.count = s.count →
      u.waits = s.waits → Step u (.retest t) (u.retest t) ∧ (u.retest t).place t = .outside ∧
        (u.retest t).waits = s.waits + 1 := by
    intro u hu hcount hwaits
    have hnot : ¬ u.count ≤ 0 := by omega
    refine ⟨.retest t hu, ?_, ?_⟩
    · unfold Semaphore.retest
      rw [if_neg hnot]
      exact Function.update_self t _ u.place
    · unfold Semaphore.retest
      rw [if_neg hnot, ← hwaits]
  cases hplace : s.place t with
  | outside =>
    rw [hplace] at ht
    exact absurd ht nofun
  | notifying =>
    rw [hplace] at ht
    exact absurd ht nofun
  | woken =>
    obtain ⟨hstep, hout, hwaits⟩ := hretest s hplace rfl rfl
    refine ⟨_, _, .single hstep, ?_, hout, hwaits⟩
    intro a ha
    rw [List.mem_singleton.mp ha]
    trivial
  | waiting =>
    obtain ⟨u, hu | hu⟩ := h.alert hpos t hplace
    · have hut : u = t := h.one u t (by rw [hu]; rfl) ht
      rw [hut, hplace] at hu
      exact absurd hu nofun
    · have hnotify := CondStep.notify u t hu hplace
      have hwoken : Function.update (Function.update s.place u .outside) t .woken t =
          CondPlace.woken := Function.update_self t _ _
      obtain ⟨hstep, hout, hwaits⟩ := hretest
        { s with place := Function.update (Function.update s.place u .outside) t .woken }
        hwoken rfl rfl
      refine ⟨_, _, .cons (.cond hnotify) (.single hstep), ?_, hout, hwaits⟩
      intro a ha
      rcases List.mem_cons.mp ha with rfl | ha
      · trivial
      · rw [List.mem_singleton.mp ha]
        trivial

theorem not_canProceed (hle : s.count ≤ 0) (t : τ) : ¬ CanProceed s t := by
  rintro ⟨as, s', hrun, hway, -, hwaits⟩
  have hsame : s'.count ≤ 0 ∧ s'.waits = s.waits := by
    refine hrun.invariant_mem (P := fun u => u.count ≤ 0 ∧ u.waits = s.waits) ?_ ⟨hle, rfl⟩
    rintro u a v ha ⟨hcount, hsame⟩ hstep
    cases hstep with
    | retest t _ =>
      unfold Semaphore.retest
      rw [if_pos hcount]
      exact ⟨hcount, hsame⟩
    | cond _ => exact ⟨hcount, hsame⟩
    | wait => exact absurd (hway _ ha) id
    | timeout => exact absurd (hway _ ha) id
    | signal => exact absurd (hway _ ha) id
  omega

end Waiting

/-- No more calls of `Wait` and `TimedWait` succeed than the semaphore has been given; and as long
as threads wait alone, a thread that is blocked goes on while fewer have succeeded. -/
theorem semaphore_counts {τ : Type} [DecidableEq τ] (cnt : Nat) (hcnt : 1 ≤ cnt) :
    (∀ (as : List (SemaphoreAction τ)) (s : Semaphore τ), Run Step (init cnt) as s →
      s.waits ≤ cnt - 1 + s.signals) ∧
    (∀ (as : List (SemaphoreAction τ)) (s : Semaphore τ),
      Run (Guarded WaitsAlone Step) (init cnt) as s → s.waits < cnt - 1 + s.signals →
        (∃ t, (s.place t).blocked = true) → ∃ t, (s.place t).blocked = true ∧ CanProceed s t) := by
  constructor
  · intro as s h
    obtain ⟨blocked, hs⟩ := run_counted hcnt h
    have hwaits := hs.waits
    omega
  · rintro as s h hfewer ⟨t, ht⟩
    obtain ⟨blocked, hs⟩ := run_counted hcnt h.unguard
    have halone : Alone s := by
      refine h.invariant ?_ (alone_of_none fun _ => rfl)
      rintro u a v hu ⟨hguard, hstep⟩
      exact Step.alone hu hguard hstep
    have hcard : blocked.card ≤ 1 := by
      rw [Finset.card_le_one]
      intro u hu v hv
      exact halone.one u v ((hs.who u).mp hu) ((hs.who v).mp hv)
    have hcount := hs.count
    exact ⟨t, ht, halone.canProceed ht (by omega)⟩

/-- A thread waits alone at a semaphore that was made locked, and another signals. -/
theorem semaphore_counts_locked :
    (∀ (as : List (SemaphoreAction Bool)) (s : Semaphore Bool), Run Step (init 1) as s →
      s.waits ≤ 1 - 1 + s.signals) ∧
    ∃ s : Semaphore Bool, Run (Guarded WaitsAlone Step) (init 1) [.wait false false, .signal true] s ∧
      ∃ t, (s.place t).blocked = true ∧ CanProceed s t := by
  obtain ⟨hcounts, hproceeds⟩ := semaphore_counts (τ := Bool) 1 (Nat.le_refl 1)
  have hrun : ∃ s : Semaphore Bool,
      Run (Guarded WaitsAlone Step) (init 1) [.wait false false, .signal true] s ∧
        s.waits < 1 - 1 + s.signals ∧ (s.place false).blocked = true :=
    ⟨_, .cons ⟨.inl fun _ => rfl, .wait false false rfl⟩
      (.cons ⟨trivial, .signal true rfl⟩ (.refl _)), by decide, rfl⟩
  obtain ⟨s, hrun, hfewer, hblocked⟩ := hrun
  exact ⟨hcounts, s, hrun, hproceeds _ s hrun hfewer ⟨false, hblocked⟩⟩

/-- Two threads wait, and a `Signal` wakes up one of them. -/
def twoWaiters : List (SemaphoreAction (Fin 3)) :=
  [.wait 0 false, .wait 1 false, .signal 2, .cond (.notify 2 0), .retest 0]

/-- Neither of them goes on. -/
theorem semaphore_counts_fails :
    ∃ s : Semaphore (Fin 3), Run Step (init 1) twoWaiters s ∧ s.waits < 1 - 1 + s.signals ∧
      (∃ t, (s.place t).blocked = true) ∧ ¬ ∃ t, (s.place t).blocked = true ∧ CanProceed s t := by
  refine ⟨_, .cons (.wait 0 false rfl) (.cons (.wait 1 false rfl) (.cons (.signal 2 rfl)
    (.cons (.cond (.notify 2 0 rfl rfl)) (.cons (.retest 0 rfl) (.refl _))))), by decide,
    ⟨0, rfl⟩, ?_⟩
  rintro ⟨t, -, hproceed⟩
  exact not_canProceed (by decide) t hproceed

end Semaphore

end FreeAmp.Base
