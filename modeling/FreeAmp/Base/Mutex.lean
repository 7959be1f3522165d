/-
  Base/Mutex.lean --- the recursive mutex of `base/unix/src/mutex.cpp`.

  `Acquire(WAIT_FOREVER)` and `Release` are what they do between `pthread_mutex_lock` and
  `pthread_mutex_unlock`, or `pthread_cond_wait`.  How often a thread has acquired the
  mutex and not released it is kept beside `m_iBusy`, so that the two can be compared.  A
  thread releases what it has acquired, and nothing else.
-/
import FreeAmp.Lib.CondVar
import FreeAmp.Lib.Transition

namespace FreeAmp.Base

open FreeAmp.Lib

/-- `class Mutex`, and its threads. -/
structure Mutex (τ : Type) where
  busy : Int
  owner : Option τ
  /-- where the threads are with `m_tCond` -/
  place : τ → CondPlace
  /-- how many calls of `Acquire` a thread has not yet released -/
  held : τ → Nat

/-- What a thread does. -/
inductive MutexAction (τ : Type) where
  /-- `Acquire(WAIT_FOREVER)`, until it has the mutex or waits for it -/
  | acquire (t : τ)
  /-- `while(m_iBusy != 0)`, when `pthread_cond_wait` has returned -/
  | retest (t : τ)
  /-- `Release`, until it has unlocked -/
  | release (t : τ)
  /-- what happens at `m_tCond` -/
  | cond (a : CondAction τ)
  deriving DecidableEq

namespace Mutex

section Calls

variable {τ : Type} [DecidableEq τ] (m : Mutex τ) (t : τ)

/-- `Mutex(false)` -/
def init : Mutex τ := ⟨0, none, fun _ => .outside, fun _ => 0⟩

/-- `m_tOwner = pthread_self(); m_iBusy++` -/
def take : Mutex τ where
  busy := m.busy + 1
  owner := some t
  place := Function.update m.place t .outside
  held := Function.update m.held t (m.held t + 1)

/-- `pthread_cond_wait(&m_tCond, &m_mutex)` -/
def wait : Mutex τ := { m with place := Function.update m.place t .waiting }

def acquire : Mutex τ := if m.busy ≠ 0 ∧ m.owner ≠ some t then m.wait t else m.take t

/-- `while(m_iBusy != 0)` -/
def retest : Mutex τ := if m.busy ≠ 0 then m.wait t else m.take t

def release : Mutex τ :=
  let iOwnerShip := m.busy - 1
  { m with
    busy := iOwnerShip
    place := if iOwnerShip = 0 then Function.update m.place t .notifying else m.place
    held := Function.update m.held t (m.held t - 1) }

end Calls

/-- A step of a thread. -/
inductive Step {τ : Type} [DecidableEq τ] (m : Mutex τ) : MutexAction τ → Mutex τ → Prop
  | acquire (t : τ) (h : m.place t = .outside) : Step m (.acquire t) (m.acquire t)
  | retest (t : τ) (h : m.place t = .woken) : Step m (.retest t) (m.retest t)
  | release (t : τ) (h : m.place t = .outside) (hheld : 0 < m.held t) :
      Step m (.release t) (m.release t)
  | cond {a : CondAction τ} {place : τ → CondPlace} (h : CondStep m.place a place) :
      Step m (.cond a) { m with place := place }

/-! ## The invariant -/

/-- `m_iBusy` counts what the owner has acquired, and when it is 0 a thread that is blocked is
not alone. -/
structure Sound {τ : Type} (m : Mutex τ) : Prop where
  free : m.busy = 0 → ∀ t, m.held t = 0
  taken : m.busy ≠ 0 → ∃ t, m.owner = some t ∧ 0 < m.held t ∧ m.busy = m.held t ∧
    ∀ u, u ≠ t → m.held u = 0
  alert : m.busy = 0 → Alert m.place

section Invariant

variable {τ : Type} [DecidableEq τ] {m m' : Mutex τ} {t : τ}

theorem sound_init : Sound (init : Mutex τ) where
  free := fun _ _ => rfl
  taken := fun h => absurd rfl h
  alert := fun _ _ h => absurd h nofun

/-- A thread that waits for the mutex leaves it as it is. -/
theorem Sound.wait (h : Sound m) (hbusy : m.busy ≠ 0) : Sound (m.wait t) where
  free := h.free
  taken := h.taken
  alert := fun hfree => absurd hfree hbusy

theorem take_held_self : (m.take t).held t = m.held t + 1 := by
  show Function.update m.held t (m.held t + 1) t = m.held t + 1
  rw [Function.update_self]

theorem take_held_of_ne {u : τ} (hu : u ≠ t) : (m.take t).held u = m.held u := by
  show Function.update m.held t (m.held t + 1) u = m.held u
  rw [Function.update_of_ne hu]

/-- The mutex is taken by its owner, or when it is free. -/
theorem Sound.take (h : Sound m) (hmine : m.busy ≠ 0 → m.owner = some t) : Sound (m.take t) := by
  have hall : m.busy = m.held t ∧ ∀ u, u ≠ t → m.held u = 0 := by
    by_cases hbusy : m.busy = 0
    · refine ⟨?_, fun u _ => h.free hbusy u⟩
      rw [hbusy, h.free hbusy t]
      rfl
    · obtain ⟨v, howner, -, hcount, hothers⟩ := h.taken hbusy
      obtain rfl := Option.some.inj ((hmine hbusy).symm.trans howner)
      exact ⟨hcount, hothers⟩
  obtain ⟨hcount, hothers⟩ := hall
  have hbusy : (m.take t).busy = m.busy + 1 := rfl
  have hne : (m.take t).busy ≠ 0 := by omega
  refine ⟨fun hfree => absurd hfree hne, fun _ => ⟨t, rfl, ?_, ?_, ?_⟩,
    fun hfree => absurd hfree hne⟩
  · rw [take_held_self]
    exact Nat.succ_pos _
  · rw [take_held_self, hbusy, hcount]
    rfl
  · intro u hu
    rw [take_held_of_ne hu]
    exact hothers u hu

theorem Sound.owner_of_held (h : Sound m) (hheld : 0 < m.held t) :
    m.busy = m.held t ∧ m.owner = some t ∧ ∀ u, u ≠ t → m.held u = 0 := by
  have hbusy : m.busy ≠ 0 := by
    intro hfree
    rw [h.free hfree t] at hheld
    exact absurd hheld (Nat.lt_irrefl 0)
  obtain ⟨v, howner, -, hcount, hothers⟩ := h.taken hbusy
  by_cases hvt : t = v
  · subst hvt
    exact ⟨hcount, howner, hothers⟩
  · rw [hothers t hvt] at hheld
    exact absurd hheld (Nat.lt_irrefl 0)

theorem Sound.release (h : Sound m) (hheld : 0 < m.held t) : Sound (m.release t) := by
  obtain ⟨hcount, howner, hothers⟩ := h.owner_of_held hheld
  refine ⟨?_, ?_, ?_⟩
  · intro hfree u
    unfold Mutex.release at hfree ⊢
    dsimp only at hfree ⊢
    by_cases hut : u = t
    · subst hut
      rw [Function.update_self]
      omega
    · rw [Function.update_of_ne hut]
      exact hothers u hut
  · intro hbusy
    unfold Mutex.release at hbusy ⊢
    dsimp only at hbusy ⊢
    refine ⟨t, howner, ?_, ?_, ?_⟩
    · rw [Function.update_self]
      omega
    · rw [Function.update_self]
      omega
    · intro u hu
      rw [Function.update_of_ne hu]
      exact hothers u hu
  · intro hfree
    unfold Mutex.release at hfree ⊢
    dsimp only at hfree ⊢
    rw [if_pos hfree]
    exact alert_of_notifying (Function.update_self t CondPlace.notifying m.place)

theorem Step.sound {a : MutexAction τ} (hs : Sound m) (h : Step m a m') : Sound m' := by
  cases h with
  | acquire t _ =>
    unfold Mutex.acquire
    split
    · rename_i hbusy
      exact hs.wait hbusy.1
    · rename_i hmine
      apply hs.take
      intro hbusy
      by_contra howner
      exact hmine ⟨hbusy, howner⟩
  | retest t _ =>
    unfold Mutex.retest
    split
    · rename_i hbusy
      exact hs.wait hbusy
    · rename_i hfree
      exact hs.take fun hbusy => absurd hbusy hfree
  | release t _ hheld => exact hs.release hheld
  | cond h => exact ⟨hs.free, hs.taken, fun _ => h.alert⟩

theorem run_sound {as : List (MutexAction τ)} (h : Run Step init as m) : Sound m :=
  h.invariant (fun _ _ _ hs hstep => Step.sound hs hstep) sound_init

end Invariant

/-- Whatever the threads do, one of them at most has the mutex, `m_iBusy` counts its calls of
`Acquire`, and when the mutex is free and every wakeup has come no thread is blocked. -/
theorem mutex_excludes {τ : Type} [DecidableEq τ] (as : List (MutexAction τ)) (m : Mutex τ)
    (h : Run Step init as m) :
    (∀ t u, 0 < m.held t → 0 < m.held u → t = u) ∧
      (∀ t, 0 < m.held t → m.owner = some t ∧ m.busy = m.held t) ∧
      (m.busy = 0 ↔ ∀ t, m.held t = 0) ∧
      (m.busy = 0 → (∀ t, m.place t ≠ .woken ∧ m.place t ≠ .notifying) →
        ∀ t, (m.place t).blocked = false) := by
  have hs := run_sound h
  refine ⟨?_, ?_, ⟨hs.free, ?_⟩, ?_⟩
  · intro t u ht hu
    by_contra htu
    have hzero := (hs.owner_of_held ht).2.2 u (Ne.symm htu)
    omega
  · intro t ht
    obtain ⟨hcount, howner, -⟩ := hs.owner_of_held ht
    exact ⟨howner, hcount⟩
  · intro hall
    by_contra hbusy
    obtain ⟨t, -, hheld, -⟩ := hs.taken hbusy
    rw [hall t] at hheld
    exact absurd hheld (Nat.lt_irrefl 0)
  · intro hfree hquiet t
    cases hplace : m.place t with
    | outside => rfl
    | waiting =>
      obtain ⟨u, hu⟩ := hs.alert hfree t hplace
      rcases hu with hu | hu
      · exact absurd hu (hquiet u).1
      · exact absurd hu (hquiet u).2
    | woken => exact absurd hplace (hquiet t).1
    | notifying => rfl

/-- The mutex is handed from one thread to another, which has waited for it. -/
def handover : List (MutexAction Bool) :=
  [.acquire false, .acquire true, .release false, .cond (.notify false true), .retest true]

theorem mutex_excludes_handover :
    ∃ m : Mutex Bool, Run Step init handover m ∧ m.held true = 1 ∧
      (∀ t u, 0 < m.held t → 0 < m.held u → t = u) := by
  have hrun : ∃ m : Mutex Bool, Run Step init handover m ∧ m.held true = 1 :=
    ⟨_, .cons (.acquire false rfl) (.cons (.acquire true rfl) (.cons (.release false rfl
      Nat.one_pos) (.cons (.cond (.notify false true rfl rfl)) (.cons (.retest true rfl)
        (.refl _))))), rfl⟩
  obtain ⟨m, hrun, hheld⟩ := hrun
  exact ⟨m, hrun, hheld, (mutex_excludes handover m hrun).1⟩

end Mutex

end FreeAmp.Base
