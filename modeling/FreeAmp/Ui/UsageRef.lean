/-
  Ui/UsageRef.lean --- the usage lock of a window, from `ui/freeamp/src/Window.cpp`.

  What a thread does while it has `m_pUsageMutex` is one step for the others.  Between two of
  them it may wait on `m_pUsageSem`, which is taken to be a counting semaphore.  `users` and
  `holders` say which sections are open; the code has only the count.
-/
import FreeAmp.Lib.Transition
import Mathlib.Data.List.Basic
import Mathlib.Logic.Function.Basic

namespace FreeAmp.Ui

open FreeAmp.Lib

/-! ## The lock -/

/-- Where a thread is in `IncUsageRef` and `LockUsageRef`. -/
inductive UsagePlace where
  /-- in neither -/
  | running
  /-- in `m_pUsageSem->Wait()` of `IncUsageRef` -/
  | incWaiting
  /-- behind it: the thread is about to test the count again -/
  | incWoken
  /-- in `m_pUsageSem->Wait()` of `LockUsageRef` -/
  | lockWaiting
  /-- behind it -/
  | lockWoken
  deriving DecidableEq, Repr

/-- The thread is in the wait of either. -/
def UsagePlace.isWaiting (p : UsagePlace) : Prop := p = .incWaiting ∨ p = .lockWaiting

/-- The thread is about to test the count again. -/
def UsagePlace.isWoken (p : UsagePlace) : Prop := p = .incWoken ∨ p = .lockWoken

instance (p : UsagePlace) : Decidable p.isWaiting := inferInstanceAs (Decidable (_ ∨ _))

instance (p : UsagePlace) : Decidable p.isWoken := inferInstanceAs (Decidable (_ ∨ _))

/-- The lock of a window, and its threads. -/
structure UsageLock (τ : Type) where
  usageCount : Int
  /-- the permits of `m_pUsageSem` -/
  permits : Nat
  place : τ → UsagePlace
  /-- the threads of the open usage sections, one for each section -/
  users : List τ
  /-- the threads of the open lock sections -/
  holders : List τ

/-- What a thread does. -/
inductive UsageAction (τ : Type) where
  /-- `IncUsageRef`, until it returns or waits -/
  | incUsageRef (t : τ)
  /-- `LockUsageRef`, until it returns or waits -/
  | lockUsageRef (t : τ)
  /-- `m_pUsageSem->Wait()` returns -/
  | wait (t : τ)
  /-- another round of the loop it was called from -/
  | again (t : τ)
  | decUsageRef (t : τ)
  | unlockUsageRef (t : τ)
  deriving DecidableEq

namespace UsageLock

section Calls

variable {τ : Type} [DecidableEq τ] (s : UsageLock τ) (t : τ)

/-- The lock of a new window. -/
def init (permits : Nat) : UsageLock τ := ⟨0, permits, fun _ => .running, [], []⟩

/-- The test of `IncUsageRef`, and what follows it. -/
def incTest : UsageLock τ :=
  if s.usageCount < 0 then { s with place := Function.update s.place t .incWaiting }
  else { s with
    usageCount := s.usageCount + 1
    place := Function.update s.place t .running
    users := t :: s.users }

/-- The test of `LockUsageRef`, and what follows it. -/
def lockTest : UsageLock τ :=
  if s.usageCount > 0 then { s with place := Function.update s.place t .lockWaiting }
  else { s with
    usageCount := -1
    place := Function.update s.place t .running
    holders := t :: s.holders }

def decUsageRef : UsageLock τ :=
  { s with
    usageCount := s.usageCount - 1
    permits := s.permits + 1
    users := s.users.erase t }

def unlockUsageRef : UsageLock τ :=
  { s with
    usageCount := 0
    permits := s.permits + 1
    holders := s.holders.erase t }

/-- A step of a thread; a thread in its own usage section does not lock. -/
def next : UsageAction τ → Option (UsageLock τ)
  | .incUsageRef t => if s.place t = .running then some (s.incTest t) else none
  | .lockUsageRef t =>
    if s.place t = .running ∧ t ∉ s.users then some (s.lockTest t) else none
  | .wait t =>
    if 0 < s.permits then
      match s.place t with
      | .incWaiting => some { s with
          permits := s.permits - 1, place := Function.update s.place t .incWoken }
      | .lockWaiting => some { s with
          permits := s.permits - 1, place := Function.update s.place t .lockWoken }
      | _ => none
    else none
  | .again t =>
    match s.place t with
    | .incWoken => some (s.incTest t)
    | .lockWoken => some (s.lockTest t)
    | _ => none
  | .decUsageRef t =>
    if s.place t = .running ∧ t ∈ s.users then some (s.decUsageRef t) else none
  | .unlockUsageRef t =>
    if s.place t = .running ∧ t ∈ s.holders then some (s.unlockUsageRef t) else none

end Calls

/-! ## What it is for -/

section Purpose

variable {τ : Type}

/-- There is a permit for a thread that waits, or another thread is about to test the count. -/
def WakeupLeft (s : UsageLock τ) : Prop := 0 < s.permits ∨ ∃ u, (s.place u).isWoken

/-- A lock section is alone, the count says what is open, and no thread that could go on is left
waiting: one that waits for the window to be unlocked when it is, or any when the count is 0. -/
structure Safe (s : UsageLock τ) : Prop where
  alone : ∀ t ∈ s.holders, (∀ u ∈ s.users, u = t) ∧ ∀ u ∈ s.holders, u = t
  locked : s.usageCount = -1 ↔ s.holders ≠ []
  counted : s.holders = [] → s.usageCount = s.users.length
  unlocked : s.usageCount ≠ -1 → ∀ t, s.place t = .incWaiting → s.WakeupLeft
  zero : s.usageCount = 0 → ∀ t, (s.place t).isWaiting → s.WakeupLeft

/-- If another thread waits in `IncUsageRef`, there is a permit for it, or yet another thread is
about to test the count. -/
def Leaves (s : UsageLock τ) (t : τ) : Prop :=
  ∀ u, s.place u = .incWaiting → 0 < s.permits ∨ ∃ v, v ≠ t ∧ (s.place v).isWoken

/-- Nobody locks a window that is locked; and a thread that was woken goes on in an unlocked
window, or waits again in `LockUsageRef`, only if that leaves a wakeup for those that wait in
`IncUsageRef`. -/
def Guard (s : UsageLock τ) : UsageAction τ → Prop
  | .lockUsageRef _ => s.usageCount ≠ -1
  | .again t =>
    (s.place t = .incWoken → s.usageCount ≠ -1 → s.Leaves t) ∧
    (s.place t = .lockWoken → s.usageCount ≠ -1 ∧ (s.usageCount ≠ 0 → s.Leaves t))
  | _ => True

end Purpose

/-! ## What each step keeps -/

section Steps

variable {τ : Type} [DecidableEq τ] {s s' : UsageLock τ} {t : τ}

/-- What is open is what the count says, and no wakeup is missing. -/
structure Inv (s : UsageLock τ) : Prop where
  sections : (s.holders = [] ∧ s.usageCount = s.users.length) ∨
    ∃ t, s.holders = [t] ∧ s.users = [] ∧ s.usageCount = -1
  unlocked : s.usageCount ≠ -1 → ∀ t, s.place t = .incWaiting → s.WakeupLeft
  zero : s.usageCount = 0 → ∀ t, (s.place t).isWaiting → s.WakeupLeft

omit [DecidableEq τ] in
theorem Inv.safe (h : Inv s) : Safe s := by
  refine ⟨?_, ?_, ?_, h.unlocked, h.zero⟩
  · intro t ht
    rcases h.sections with ⟨hnone, -⟩ | ⟨u, hone, husers, -⟩
    · rw [hnone] at ht
      exact absurd ht List.not_mem_nil
    · rw [hone] at ht ⊢
      rw [husers, List.mem_singleton.mp ht]
      simp
  · rcases h.sections with ⟨hnone, hcount⟩ | ⟨u, hone, -, hcount⟩
    · rw [hnone, hcount]
      simp
    · simp [hone, hcount]
  · intro hnone
    rcases h.sections with ⟨-, hcount⟩ | ⟨u, hone, -, -⟩
    · exact hcount
    · rw [hone] at hnone
      cases hnone

omit [DecidableEq τ] in
/-- The window is not locked where the count is another than -1. -/
theorem Inv.of_unlocked (h : Inv s) (hcount : s.usageCount ≠ -1) :
    s.holders = [] ∧ s.usageCount = s.users.length :=
  h.sections.resolve_right fun ⟨_, _, _, hlocked⟩ => hcount hlocked

theorem incWaiting_of_update {p : τ → UsagePlace} {place : UsagePlace}
    (hplace : place ≠ .incWaiting) {u : τ} (h : Function.update p t place u = .incWaiting) :
    u ≠ t ∧ p u = .incWaiting := by
  by_cases hut : u = t
  · rw [hut, Function.update_self] at h
    exact absurd h hplace
  · rw [Function.update_of_ne hut] at h
    exact ⟨hut, h⟩

theorem wakeup_of_others {p : UsagePlace} (h : 0 < s.permits ∨ ∃ v, v ≠ t ∧ (s.place v).isWoken)
    {count : Int} {users holders : List τ} :
    WakeupLeft ⟨count, s.permits, Function.update s.place t p, users, holders⟩ := by
  rcases h with hpermits | ⟨v, hvt, hv⟩
  · exact .inl hpermits
  · refine .inr ⟨v, ?_⟩
    show (Function.update s.place t p v).isWoken
    rw [Function.update_of_ne hvt]
    exact hv

omit [DecidableEq τ] in
/-- A thread that was not woken takes no wakeup with it. -/
theorem others_of_wakeup (h : s.WakeupLeft) (ht : ¬ (s.place t).isWoken) :
    0 < s.permits ∨ ∃ v, v ≠ t ∧ (s.place v).isWoken := by
  rcases h with hpermits | ⟨v, hv⟩
  · exact .inl hpermits
  · exact .inr ⟨v, fun hvt => ht (hvt ▸ hv), hv⟩

theorem incTest_inv (h : Inv s)
    (hleaves : s.usageCount ≠ -1 → s.Leaves t) : Inv (s.incTest t) := by
  unfold incTest
  split
  · rename_i hneg
    obtain ⟨u, hone, husers, hcount⟩ := h.sections.resolve_left fun ⟨_, hcount⟩ => by omega
    refine ⟨.inr ⟨u, hone, husers, hcount⟩, fun hne => absurd hcount hne, fun hzero => ?_⟩
    have hcount' : s.usageCount = 0 := hzero
    omega
  · rename_i hneg
    have hne : s.usageCount ≠ -1 := by omega
    obtain ⟨hnone, hcount⟩ := h.of_unlocked hne
    refine ⟨.inl ⟨hnone, ?_⟩, fun _ u hu => ?_, fun hzero => ?_⟩
    · rw [hcount]
      simp
    · obtain ⟨-, hwaits⟩ := incWaiting_of_update (by simp) hu
      exact wakeup_of_others (hleaves hne u hwaits)
    · have hcount' : s.usageCount + 1 = 0 := hzero
      omega

theorem lockTest_inv (h : Inv s) (hne : s.usageCount ≠ -1)
    (hleaves : s.usageCount ≠ 0 → s.Leaves t) : Inv (s.lockTest t) := by
  obtain ⟨hnone, hcount⟩ := h.of_unlocked hne
  unfold lockTest
  split
  · rename_i hpos
    refine ⟨.inl ⟨hnone, hcount⟩, fun _ u hu => ?_, fun hzero => ?_⟩
    · obtain ⟨-, hwaits⟩ := incWaiting_of_update (by simp) hu
      exact wakeup_of_others (hleaves (by omega) u hwaits)
    · have hcount' : s.usageCount = 0 := hzero
      omega
  · rename_i hpos
    have husers : s.users = [] := List.length_eq_zero_iff.mp (by omega)
    refine ⟨.inr ⟨t, by rw [hnone], husers, rfl⟩, fun hne => absurd rfl hne, fun hzero => ?_⟩
    have hcount' : (-1 : Int) = 0 := hzero
    omega

theorem next_inv {a : UsageAction τ} (h : Inv s) (hguard : s.Guard a)
    (hnext : s.next a = some s') : Inv s' := by
  cases a with
  | incUsageRef t =>
    simp only [next, Option.ite_none_right_eq_some, Option.some.injEq] at hnext
    obtain ⟨hplace, rfl⟩ := hnext
    have hwoken : ¬ (s.place t).isWoken := by simp [hplace, UsagePlace.isWoken]
    exact incTest_inv h fun hne u hu => others_of_wakeup (h.unlocked hne u hu) hwoken
  | lockUsageRef t =>
    simp only [next, Option.ite_none_right_eq_some, Option.some.injEq] at hnext
    obtain ⟨⟨hplace, -⟩, rfl⟩ := hnext
    have hwoken : ¬ (s.place t).isWoken := by simp [hplace, UsagePlace.isWoken]
    exact lockTest_inv h hguard fun _ u hu =>
      others_of_wakeup (h.unlocked hguard u hu) hwoken
  | wait t =>
    have hkeep : ∀ p : UsagePlace, p.isWoken → Inv { s with
        permits := s.permits - 1, place := Function.update s.place t p } := by
      intro p hp
      have hleft : ∀ s' : UsageLock τ, s'.place t = p → s'.WakeupLeft :=
        fun s' hs' => .inr ⟨t, by rw [hs']; exact hp⟩
      have hself : Function.update s.place t p t = p := Function.update_self _ _ _
      exact ⟨h.sections, fun _ _ _ => hleft _ hself, fun _ _ _ => hleft _ hself⟩
    simp only [next, Option.ite_none_right_eq_some] at hnext
    obtain ⟨-, hnext⟩ := hnext
    cases hplace : s.place t with
    | incWaiting =>
      simp only [hplace, Option.some.injEq] at hnext
      rw [← hnext]
      exact hkeep _ (.inl rfl)
    | lockWaiting =>
      simp only [hplace, Option.some.injEq] at hnext
      rw [← hnext]
      exact hkeep _ (.inr rfl)
    | running | incWoken | lockWoken => simp [hplace] at hnext
  | again t =>
    cases hplace : s.place t with
    | incWoken =>
      simp only [next, hplace, Option.some.injEq] at hnext
      rw [← hnext]
      exact incTest_inv h (hguard.1 hplace)
    | lockWoken =>
      simp only [next, hplace, Option.some.injEq] at hnext
      rw [← hnext]
      obtain ⟨hne, hleaves⟩ := hguard.2 hplace
      exact lockTest_inv h hne hleaves
    | running | incWaiting | lockWaiting => simp [next, hplace] at hnext
  | decUsageRef t =>
    simp only [next, Option.ite_none_right_eq_some, Option.some.injEq] at hnext
    obtain ⟨⟨-, ht⟩, rfl⟩ := hnext
    have hpermit : (s.decUsageRef t).WakeupLeft := .inl (Nat.succ_pos _)
    refine ⟨.inl ?_, fun _ _ _ => hpermit, fun _ _ _ => hpermit⟩
    rcases h.sections with ⟨hnone, hcount⟩ | ⟨u, -, husers, -⟩
    · refine ⟨hnone, ?_⟩
      have hlength := List.length_erase_of_mem ht
      have hpos := List.length_pos_of_mem ht
      simp only [decUsageRef, hlength, hcount]
      omega
    · rw [husers] at ht
      exact absurd ht List.not_mem_nil
  | unlockUsageRef t =>
    simp only [next, Option.ite_none_right_eq_some, Option.some.injEq] at hnext
    obtain ⟨⟨-, ht⟩, rfl⟩ := hnext
    have hpermit : (s.unlockUsageRef t).WakeupLeft := .inl (Nat.succ_pos _)
    refine ⟨.inl ?_, fun _ _ _ => hpermit, fun _ _ _ => hpermit⟩
    rcases h.sections with ⟨hnone, -⟩ | ⟨u, hone, husers, -⟩
    · rw [hnone] at ht
      exact absurd ht List.not_mem_nil
    · rw [hone, List.mem_singleton] at ht
      simp [unlockUsageRef, hone, husers, ht]

/-! ## What a step does that does not meet the guard -/

theorem lockTest_unsafe (h : Inv s) (hlocked : s.usageCount = -1) (hnew : t ∉ s.holders) :
    ¬ Safe (s.lockTest t) := by
  intro hsafe
  obtain ⟨u, hone, -, -⟩ := h.sections.resolve_left fun ⟨_, hcount⟩ => by omega
  have hholders : (s.lockTest t).holders = [t, u] := by
    rw [lockTest, if_neg (by omega), hone]
  have hut := (hsafe.alone t (by simp [hholders])).2 u (by simp [hholders])
  rw [hone, hut] at hnew
  exact hnew List.mem_cons_self

theorem not_wakeup {p : UsagePlace} (hp : ¬ p.isWoken) (hleaves : ¬ s.Leaves t)
    (ht : (s.place t).isWoken) {count : Int} {users holders : List τ} :
    (∃ u, Function.update s.place t p u = .incWaiting) ∧
      ¬ WakeupLeft ⟨count, s.permits, Function.update s.place t p, users, holders⟩ := by
  simp only [Leaves, not_forall, not_or, not_exists, not_and] at hleaves
  obtain ⟨u, hu, hpermits, hothers⟩ := hleaves
  have hut : u ≠ t := by
    rintro rfl
    rw [hu] at ht
    exact absurd ht (by decide)
  refine ⟨⟨u, by rw [Function.update_of_ne hut, hu]⟩, ?_⟩
  rintro (hpos | ⟨v, hv⟩)
  · exact hpermits hpos
  · by_cases hvt : v = t
    · subst hvt
      have hself : Function.update s.place v p v = p := Function.update_self _ _ _
      have hv' : (Function.update s.place v p v).isWoken := hv
      rw [hself] at hv'
      exact hp hv'
    · have hv' : (Function.update s.place t p v).isWoken := hv
      rw [Function.update_of_ne hvt] at hv'
      exact hothers v hvt hv'

/-- A step that does not meet the guard breaks what the lock is for, unless a thread locks inside
its own lock section. -/
theorem next_unsafe {a : UsageAction τ} (h : Inv s) (hguard : ¬ s.Guard a)
    (hnew : ∀ t, a = .lockUsageRef t ∨ a = .again t → t ∉ s.holders)
    (hnext : s.next a = some s') : ¬ Safe s' := by
  cases a with
  | incUsageRef t | wait t | decUsageRef t | unlockUsageRef t => exact absurd trivial hguard
  | lockUsageRef t =>
    simp only [next, Option.ite_none_right_eq_some, Option.some.injEq] at hnext
    rw [← hnext.2]
    exact lockTest_unsafe h (not_not.mp hguard) (hnew t (.inl rfl))
  | again t =>
    cases hplace : s.place t with
    | incWoken =>
      simp only [next, hplace, Option.some.injEq] at hnext
      simp only [Guard, hplace, reduceCtorEq, false_implies, and_true, true_implies,
        Classical.not_imp] at hguard
      obtain ⟨hne, hleaves⟩ := hguard
      obtain ⟨hnone, hcount⟩ := h.of_unlocked hne
      rw [← hnext, incTest, if_neg (by omega)]
      intro hsafe
      obtain ⟨⟨u, hu⟩, hnot⟩ := not_wakeup (p := .running) (by decide) hleaves
        (by rw [hplace]; decide)
      exact hnot (hsafe.unlocked (by simp only; omega) u hu)
    | lockWoken =>
      simp only [next, hplace, Option.some.injEq] at hnext
      by_cases hlocked : s.usageCount = -1
      · rw [← hnext]
        exact lockTest_unsafe h hlocked (hnew t (.inr rfl))
      · simp only [Guard, hplace, reduceCtorEq, false_implies, true_and, true_implies,
          not_and, Classical.not_imp] at hguard
        obtain ⟨hzero, hleaves⟩ := hguard hlocked
        obtain ⟨hnone, hcount⟩ := h.of_unlocked hlocked
        rw [← hnext, lockTest, if_pos (by omega)]
        intro hsafe
        obtain ⟨⟨u, hu⟩, hnot⟩ := not_wakeup (p := .lockWaiting) (by decide) hleaves
          (by rw [hplace]; decide)
        exact hnot (hsafe.unlocked hlocked u hu)
    | running | incWaiting | lockWaiting => simp [next, hplace] at hnext

omit [DecidableEq τ] in
theorem inv_init (permits : Nat) : Inv (init permits : UsageLock τ) := by
  refine ⟨.inl ⟨rfl, rfl⟩, fun _ t ht => ?_, fun _ t ht => ?_⟩
  · cases ht
  · exact absurd ht (by simp [init, UsagePlace.isWaiting])

theorem run_inv {permits : Nat} {as : List (UsageAction τ)}
    (h : Lib.Run (Guarded Guard (Steps next)) (init permits) as s) : Inv s :=
  h.invariant (P := Inv) (fun _ _ _ hs hstep => next_inv hs hstep.1 hstep.2) (inv_init permits)

end Steps

/-- The lock does what it is for in every state of a run whose steps all meet the guard, and a
step of such a run that does not is followed by a state in which it does not, unless a thread
locks inside its own lock section. -/
theorem usageLock_safe {τ : Type} [DecidableEq τ] (permits : Nat) (as : List (UsageAction τ))
    (s : UsageLock τ) (h : Lib.Run (Guarded Guard (Steps next)) (init permits) as s) :
    Safe s ∧ ∀ a s', Steps next s a s' → ¬ s.Guard a →
      (∀ t, a = .lockUsageRef t ∨ a = .again t → t ∉ s.holders) → ¬ Safe s' :=
  ⟨(run_inv h).safe, fun _ _ hstep hguard hnew => next_unsafe (run_inv h) hguard hnew hstep⟩

/-- A thread locks, another one waits to use the window, and uses it when it is unlocked. -/
theorem usageLock_safe_turn : ∃ s : UsageLock Bool,
    s.usageCount = 1 ∧ s.users = [true] ∧ Safe s ∧ ∀ a s', Steps next s a s' → ¬ s.Guard a →
      (∀ t, a = .lockUsageRef t ∨ a = .again t → t ∉ s.holders) → ¬ Safe s' := by
  have hrun : Lib.Run (Guarded Guard (Steps next)) (init 0)
      [.lockUsageRef false, .incUsageRef true, .unlockUsageRef false, .wait true, .again true]
      (⟨1, 0, Function.update (Function.update (Function.update (Function.update
        (fun _ => .running) false .running) true .incWaiting) true .incWoken) true .running,
        [true], []⟩ : UsageLock Bool) := by
    refine .cons ⟨?_, rfl⟩ (.cons ⟨trivial, rfl⟩ (.cons ⟨trivial, rfl⟩ (.cons ⟨trivial, rfl⟩
      (.cons ⟨⟨?_, ?_⟩, rfl⟩ (.refl _)))))
    · show (0 : Int) ≠ -1
      decide
    · intro _ _ u hu
      cases u <;> exact absurd hu (by decide)
    · exact fun hplace => absurd hplace (by decide)
  exact ⟨_, rfl, rfl, usageLock_safe 0 _ _ hrun⟩

/-- A second thread locks a window that is locked; and of two threads that wait to use it only
one is woken when it is unlocked. -/
theorem lock_sections_overlap :
    (∃ s : UsageLock Bool,
      Lib.Run (Steps next) (init 0) [.lockUsageRef false, .lockUsageRef true] s ∧ ¬ Safe s) ∧
    ∃ s : UsageLock (Fin 3),
      Lib.Run (Steps next) (init 0) [.lockUsageRef 0, .incUsageRef 1, .incUsageRef 2,
        .unlockUsageRef 0, .wait 1, .again 1] s ∧ ¬ Safe s := by
  refine ⟨⟨_, .cons rfl (.cons rfl (.refl _)), fun hsafe => ?_⟩,
    ⟨_, .cons rfl (.cons rfl (.cons rfl (.cons rfl (.cons rfl (.cons rfl (.refl _)))))),
      fun hsafe => ?_⟩⟩
  · exact absurd ((hsafe.alone true (by decide)).2 false (by decide)) (by decide)
  · rcases hsafe.unlocked (by decide) 2 (by decide) with hpermits | ⟨u, hu⟩
    · exact absurd hpermits (by decide)
    · revert u
      decide

end UsageLock

end FreeAmp.Ui
