/-
  Base/Timer.lean --- the timers of `base/src/timer.cpp`.

      Inv.step         what every call, pass and callback keeps
      timers_of_run    when callbacks are launched, and when none comes too late

  The calls, a pass of the timer thread over the list and the start of a callback are one
  step each.  A pass gives every due timer that it finds to a thread of its own, as a copy, so
  that `StopTimer` does not reach a callback that has been launched.
-/
import FreeAmp.Lib.Transition
import Mathlib.Data.List.Nodup
import Mathlib.Data.Nat.ModEq
import Mathlib.Logic.Function.Basic

namespace FreeAmp.Base

open FreeAmp.Lib

/-! ## The state -/

/-- A `Timer`; `function` is not null. -/
structure Timer where
  /-- which `StartTimer` has made it -/
  id : Nat
  ticks : UInt32
  duration : UInt32
  function : Nat
  userValue : Nat
  deriving DecidableEq, Repr

/-- What has happened to a timer. -/
structure TimerHistory where
  /-- the durations that it has had -/
  durations : List UInt32
  /-- the passes since its start -/
  passes : Nat
  /-- the passes that have launched its callback, counted from its start -/
  launches : List Nat
  stopped : Bool

/-- `TimerManager`, with a record of its timers. -/
structure TimerManager where
  /-- `m_list`, each timer with its address -/
  list : List (Nat × Timer)
  /-- the copies that have been given to threads, and have not been called -/
  launched : List Timer
  nextId : Nat
  history : Nat → TimerHistory
  /-- memory of a timer has been touched that is free -/
  touched : Bool
  /-- a callback has been started for a timer that had been stopped -/
  late : Bool

inductive TimerAction where
  /-- `StartTimer`, with the address that `new` returns -/
  | startTimer (address : Nat) (function : Option Nat) (seconds : UInt32) (userValue : Nat)
  | stopTimer (timer : Option Nat)
  | setTimer (timer : Option Nat) (seconds : UInt32)
  /-- a round of `ThreadFunction` -/
  | pass
  /-- `timer_function` of one of the threads -/
  | callback (i : Nat)

/-! ## The source -/

namespace Timer

/-- The timer is due in this pass. -/
def due (t : Timer) : Bool := decide (t.duration ≠ 0) && decide (t.duration ≤ t.ticks + 1)

def tick (t : Timer) : Timer :=
  if t.due then { t with ticks := 0 } else { t with ticks := t.ticks + 1 }

@[simp] theorem tick_id (t : Timer) : t.tick.id = t.id := by
  unfold tick
  split <;> rfl

@[simp] theorem tick_duration (t : Timer) : t.tick.duration = t.duration := by
  unfold tick
  split <;> rfl

end Timer

namespace TimerManager

def init : TimerManager where
  list := []
  launched := []
  nextId := 0
  history := fun _ => ⟨[], 0, [], false⟩
  touched := false
  late := false

/-- The timer at an address of the list. -/
def timerAt (s : TimerManager) (address : Nat) : Option (Nat × Timer) :=
  s.list.find? fun x => decide (x.1 = address)

/-- The timer of an id in the list. -/
def timerOf (s : TimerManager) (id : Nat) : Option (Nat × Timer) :=
  s.list.find? fun x => decide (x.2.id = id)

def passed (h : TimerHistory) (due : Bool) : TimerHistory :=
  { h with
    passes := h.passes + 1
    launches := if due then h.launches ++ [h.passes + 1] else h.launches }

def startTimer (s : TimerManager) (address function : Nat) (seconds : UInt32)
    (userValue : Nat) : TimerManager :=
  { s with
    list := s.list ++ [(address, ⟨s.nextId, 0, seconds, function, userValue⟩)]
    nextId := s.nextId + 1
    history := Function.update s.history s.nextId ⟨[seconds], 0, [], false⟩ }

/-- The first lines write to the timer, wherever it is. -/
def stopTimer (s : TimerManager) (address : Nat) : TimerManager :=
  match s.timerAt address with
  | none => { s with touched := true }
  | some x =>
    { s with
      list := s.list.filter fun y => decide (y.1 ≠ address)
      history := Function.update s.history x.2.id { s.history x.2.id with stopped := true } }

def setTimer (s : TimerManager) (address : Nat) (seconds : UInt32) : TimerManager :=
  match s.timerAt address with
  | none => s
  | some x =>
    { s with
      list := s.list.map fun y =>
        if y.1 = address then (y.1, { y.2 with duration := seconds }) else y
      history := Function.update s.history x.2.id
        { s.history x.2.id with durations := (s.history x.2.id).durations ++ [seconds] } }

def pass (s : TimerManager) : TimerManager :=
  { s with
    list := s.list.map fun x => (x.1, x.2.tick)
    launched := s.launched ++ (s.list.map Prod.snd).filter Timer.due
    history := fun id => match s.timerOf id with
      | none => s.history id
      | some x => passed (s.history id) x.2.due }

def callback (s : TimerManager) (t : Timer) (i : Nat) : TimerManager :=
  { s with
    launched := s.launched.eraseIdx i
    late := s.late || (s.history t.id).stopped }

/-- A step; `new` does not return an address that is in use. -/
def next (s : TimerManager) : TimerAction → Option TimerManager
  | .startTimer _ none _ _ => some s
  | .startTimer address (some function) seconds userValue =>
    if (s.timerAt address).isSome then none
    else some (s.startTimer address function seconds userValue)
  | .stopTimer none => some s
  | .stopTimer (some address) => some (s.stopTimer address)
  | .setTimer none _ => some s
  | .setTimer (some address) seconds => some (s.setTimer address seconds)
  | .pass => some s.pass
  | .callback i => s.launched[i]?.map fun t => s.callback t i

end TimerManager

/-! ## Launches -/

/-- The multiples of `d` up to the `m`-th. -/
def multiples (d m : Nat) : List Nat := (List.range m).map fun j => (j + 1) * d

theorem multiples_succ (d m : Nat) : multiples d (m + 1) = multiples d m ++ [(m + 1) * d] := by
  unfold multiples
  rw [List.range_succ, List.map_append, List.map_singleton]

/-- The timer has had this duration throughout. -/
def TimerHistory.Throughout (h : TimerHistory) (d : UInt32) : Prop := ∀ e ∈ h.durations, e = d

/-- The callback has been launched at every `d`-th pass since the start, and at no other. -/
def TimerHistory.Periodic (h : TimerHistory) : Prop :=
  ∀ d : UInt32, 0 < d.toNat → h.Throughout d →
    h.launches = multiples d.toNat (h.passes / d.toNat)

theorem periodic_new (durations : List UInt32) :
    TimerHistory.Periodic ⟨durations, 0, [], false⟩ := by
  intro d _ _
  rw [Nat.zero_div]
  rfl

/-- What a timer of the list has counted. -/
structure Timer.Counts (t : Timer) (h : TimerHistory) : Prop where
  duration : t.duration ∈ h.durations
  ticks : ∀ d : UInt32, 0 < d.toNat → h.Throughout d → t.ticks.toNat = h.passes % d.toNat
  running : h.stopped = false

theorem succ_mod_eq {n d : Nat} (hd : 0 < d) :
    (n + 1) % d = if d ≤ n % d + 1 then 0 else n % d + 1 := by
  have hlt := Nat.mod_lt n hd
  rw [← Nat.mod_add_mod]
  split
  · have hfull : n % d + 1 = d := by omega
    rw [hfull, Nat.mod_self]
  · exact Nat.mod_eq_of_lt (by omega)

/-- A timer is due when its next pass is a multiple of its duration. -/
theorem Timer.due_iff {t : Timer} {n : Nat} (hpos : 0 < t.duration.toNat)
    (hticks : t.ticks.toNat = n % t.duration.toNat) :
    t.due = true ↔ (n + 1) % t.duration.toNat = 0 := by
  have hmod := Nat.mod_lt n hpos
  have hlt := t.duration.toNat_lt
  have hne : t.duration ≠ 0 := by
    intro hzero
    rw [hzero] at hpos
    exact absurd hpos (by decide)
  have hsum : (t.ticks + 1).toNat = n % t.duration.toNat + 1 := by
    rw [UInt32.toNat_add, hticks]
    show (n % t.duration.toNat + 1) % 4294967296 = _
    omega
  unfold due
  rw [Bool.and_eq_true, decide_eq_true_iff, decide_eq_true_iff, UInt32.le_iff_toNat_le, hsum,
    and_iff_right hne, succ_mod_eq hpos]
  split <;> omega

open TimerManager in
/-- A pass keeps the count, and launches the callback when it has to. -/
theorem Timer.Counts.pass {t : Timer} {h : TimerHistory} (hcounts : t.Counts h)
    (hperiodic : h.Periodic) : t.tick.Counts (passed h t.due) ∧ (passed h t.due).Periodic := by
  have hticked : ∀ d : UInt32, 0 < d.toNat → h.Throughout d → d = t.duration ∧
      (t.due = true ↔ (h.passes + 1) % d.toNat = 0) := by
    intro d hpos hall
    obtain rfl := hall t.duration hcounts.duration
    exact ⟨rfl, due_iff hpos (hcounts.ticks _ hpos hall)⟩
  refine ⟨⟨?_, fun d hpos hall => ?_, hcounts.running⟩, fun d hpos hall => ?_⟩
  · rw [tick_duration]
    exact hcounts.duration
  · obtain ⟨rfl, hdue⟩ := hticked d hpos hall
    have hticks := hcounts.ticks _ hpos hall
    have hlt := t.duration.toNat_lt
    show _ = (h.passes + 1) % t.duration.toNat
    unfold tick
    split
    · rename_i hyes
      exact (hdue.mp hyes).symm
    · rename_i hno
      have hsucc := succ_mod_eq (n := h.passes) hpos
      rw [hsucc]
      split
      · rename_i hfull
        rw [if_pos hfull] at hsucc
        exact absurd (hdue.mpr hsucc) hno
      · show (t.ticks + 1).toNat = _
        rw [UInt32.toNat_add, hticks]
        show (h.passes % t.duration.toNat + 1) % 4294967296 = _
        omega
  · obtain ⟨rfl, hdue⟩ := hticked d hpos hall
    show (if t.due = true then h.launches ++ [h.passes + 1] else h.launches) =
      multiples t.duration.toNat ((h.passes + 1) / t.duration.toNat)
    rw [hperiodic _ hpos hall]
    split
    · rename_i hyes
      have hzero := hdue.mp hyes
      have hmul : ((h.passes + 1) / t.duration.toNat) * t.duration.toNat = h.passes + 1 :=
        Nat.div_mul_cancel (Nat.dvd_of_mod_eq_zero hzero)
      rw [Nat.succ_div_of_mod_eq_zero hzero] at hmul ⊢
      rw [multiples_succ, hmul]
    · rename_i hno
      rw [Nat.succ_div_of_mod_ne_zero fun hzero => hno (hdue.mpr hzero)]

/-! ## Every step -/

namespace TimerManager

/-- No address and no id is in the list twice, and every timer of it counts its passes. -/
structure Inv (s : TimerManager) : Prop where
  addresses : (s.list.map Prod.fst).Nodup
  ids : (s.list.map fun x => x.2.id).Nodup
  fresh : ∀ x ∈ s.list, x.2.id < s.nextId
  counts : ∀ x ∈ s.list, x.2.Counts (s.history x.2.id)
  periodic : ∀ id, (s.history id).Periodic

theorem timerAt_some {s : TimerManager} {address : Nat} {x : Nat × Timer}
    (h : s.timerAt address = some x) : x ∈ s.list ∧ x.1 = address :=
  ⟨List.mem_of_find?_eq_some h, by simpa using List.find?_some h⟩

theorem timerAt_none {s : TimerManager} {address : Nat} (h : s.timerAt address = none) :
    ∀ x ∈ s.list, x.1 ≠ address := by
  intro x hx
  simpa using List.find?_eq_none.mp h x hx

theorem timerOf_some {s : TimerManager} {id : Nat} {x : Nat × Timer}
    (h : s.timerOf id = some x) : x ∈ s.list ∧ x.2.id = id :=
  ⟨List.mem_of_find?_eq_some h, by simpa using List.find?_some h⟩

variable {s : TimerManager}

theorem Inv.eq_of_address (h : Inv s) {x y : Nat × Timer} (hx : x ∈ s.list) (hy : y ∈ s.list)
    (heq : x.1 = y.1) : x = y :=
  List.inj_on_of_nodup_map h.addresses hx hy heq

theorem Inv.eq_of_id (h : Inv s) {x y : Nat × Timer} (hx : x ∈ s.list) (hy : y ∈ s.list)
    (heq : x.2.id = y.2.id) : x = y :=
  List.inj_on_of_nodup_map h.ids hx hy heq

theorem Inv.timerOf (h : Inv s) {x : Nat × Timer} (hx : x ∈ s.list) :
    s.timerOf x.2.id = some x := by
  cases hfind : s.timerOf x.2.id with
  | none =>
    have hnot := List.find?_eq_none.mp hfind x hx
    exact absurd (decide_eq_true rfl) hnot
  | some y =>
    obtain ⟨hy, heq⟩ := timerOf_some hfind
    rw [h.eq_of_id hy hx heq]

theorem inv_init : Inv init where
  addresses := List.nodup_nil
  ids := List.nodup_nil
  fresh := fun x hx => absurd hx List.not_mem_nil
  counts := fun x hx => absurd hx List.not_mem_nil
  periodic := fun _ => periodic_new []

theorem Inv.startTimer (h : Inv s) {address : Nat} (hfree : s.timerAt address = none)
    (function : Nat) (seconds : UInt32) (userValue : Nat) :
    Inv (s.startTimer address function seconds userValue) := by
  have hnew := timerAt_none hfree
  have hold : ∀ x ∈ s.list, x.2.id ≠ s.nextId := fun x hx => Nat.ne_of_lt (h.fresh x hx)
  refine ⟨?_, ?_, fun x hx => ?_, fun x hx => ?_, fun id => ?_⟩
  · rw [TimerManager.startTimer, List.map_append, List.nodup_append]
    refine ⟨h.addresses, List.nodup_singleton _, ?_⟩
    rintro a ha b hb rfl
    obtain ⟨x, hx, rfl⟩ := List.mem_map.mp ha
    exact hnew x hx (List.mem_singleton.mp hb)
  · rw [TimerManager.startTimer, List.map_append, List.nodup_append]
    refine ⟨h.ids, List.nodup_singleton _, ?_⟩
    rintro a ha b hb rfl
    obtain ⟨x, hx, rfl⟩ := List.mem_map.mp ha
    exact hold x hx (List.mem_singleton.mp hb)
  · rcases List.mem_append.mp hx with hx | hx
    · exact Nat.lt_succ_of_lt (h.fresh x hx)
    · rw [List.mem_singleton.mp hx]
      exact Nat.lt_succ_self _
  · rcases List.mem_append.mp hx with hx | hx
    · unfold TimerManager.startTimer
      dsimp only
      rw [Function.update_of_ne (hold x hx)]
      exact h.counts x hx
    · rw [List.mem_singleton.mp hx]
      unfold TimerManager.startTimer
      dsimp only
      rw [Function.update_self]
      exact ⟨List.mem_singleton_self _, fun d _ _ => (Nat.zero_mod _).symm, rfl⟩
  · unfold TimerManager.startTimer
    dsimp only
    by_cases hid : id = s.nextId
    · rw [hid, Function.update_self]
      exact periodic_new [seconds]
    · rw [Function.update_of_ne hid]
      exact h.periodic id

theorem Inv.stopTimer (h : Inv s) (address : Nat) : Inv (s.stopTimer address) := by
  unfold TimerManager.stopTimer
  cases hfind : s.timerAt address with
  | none => exact ⟨h.addresses, h.ids, h.fresh, h.counts, h.periodic⟩
  | some x =>
    obtain ⟨hx, rfl⟩ := timerAt_some hfind
    have hsub : (s.list.filter fun y => decide (y.1 ≠ x.1)).Sublist s.list :=
      List.filter_sublist
    refine ⟨h.addresses.sublist (hsub.map _), h.ids.sublist (hsub.map _),
      fun y hy => h.fresh y (hsub.subset hy), fun y hy => ?_, fun id => ?_⟩
    · obtain ⟨hmem, hother⟩ := List.mem_filter.mp hy
      have hid : y.2.id ≠ x.2.id := by
        intro heq
        rw [h.eq_of_id hmem hx heq] at hother
        simp at hother
      dsimp only
      rw [Function.update_of_ne hid]
      exact h.counts y hmem
    · dsimp only
      by_cases hid : id = x.2.id
      · rw [hid, Function.update_self]
        exact h.periodic x.2.id
      · rw [Function.update_of_ne hid]
        exact h.periodic id

theorem Inv.setTimer (h : Inv s) (address : Nat) (seconds : UInt32) :
    Inv (s.setTimer address seconds) := by
  unfold TimerManager.setTimer
  cases hfind : s.timerAt address with
  | none => exact h
  | some x =>
    obtain ⟨hx, rfl⟩ := timerAt_some hfind
    have hids : ((s.list.map fun y =>
        if y.1 = x.1 then (y.1, { y.2 with duration := seconds }) else y).map
          fun y => y.2.id) = s.list.map fun y => y.2.id := by
      rw [List.map_map]
      refine List.map_congr_left fun y _ => ?_
      simp only [Function.comp_apply]
      split <;> rfl
    have haddresses : ((s.list.map fun y =>
        if y.1 = x.1 then (y.1, { y.2 with duration := seconds }) else y).map Prod.fst) =
          s.list.map Prod.fst := by
      rw [List.map_map]
      refine List.map_congr_left fun y _ => ?_
      simp only [Function.comp_apply]
      split <;> rfl
    have hbefore : ∀ d, TimerHistory.Throughout { s.history x.2.id with
        durations := (s.history x.2.id).durations ++ [seconds] } d →
          (s.history x.2.id).Throughout d :=
      fun d hall e he => hall e (List.mem_append_left _ he)
    refine ⟨haddresses ▸ h.addresses, hids ▸ h.ids, fun y hy => ?_, fun y hy => ?_,
      fun id => ?_⟩
    · obtain ⟨z, hz, rfl⟩ := List.mem_map.mp hy
      have hlt := h.fresh z hz
      split <;> exact hlt
    · obtain ⟨z, hz, rfl⟩ := List.mem_map.mp hy
      dsimp only
      split
      · rename_i heq
        obtain rfl := h.eq_of_address hz hx heq
        have hcounts := h.counts z hz
        dsimp only
        rw [Function.update_self]
        exact ⟨List.mem_append_right _ (List.mem_singleton_self _),
          fun d hpos hall => hcounts.ticks d hpos (hbefore d hall), hcounts.running⟩
      · rename_i hne
        have hid : z.2.id ≠ x.2.id := fun heq => hne (by rw [h.eq_of_id hz hx heq])
        rw [Function.update_of_ne hid]
        exact h.counts z hz
    · dsimp only
      by_cases hid : id = x.2.id
      · rw [hid, Function.update_self]
        exact fun d hpos hall => h.periodic x.2.id d hpos (hbefore d hall)
      · rw [Function.update_of_ne hid]
        exact h.periodic id

theorem pass_history (h : Inv s) {x : Nat × Timer} (hx : x ∈ s.list) :
    s.pass.history x.2.id = passed (s.history x.2.id) x.2.due := by
  unfold pass
  dsimp only
  rw [h.timerOf hx]

theorem Inv.pass (h : Inv s) : Inv s.pass := by
  have hids : (s.pass.list.map fun x => x.2.id) = s.list.map fun x => x.2.id := by
    unfold TimerManager.pass
    rw [List.map_map]
    exact List.map_congr_left fun y _ => Timer.tick_id y.2
  have haddresses : s.pass.list.map Prod.fst = s.list.map Prod.fst := by
    unfold TimerManager.pass
    rw [List.map_map]
    rfl
  refine ⟨haddresses ▸ h.addresses, hids ▸ h.ids, fun y hy => ?_, fun y hy => ?_, fun id => ?_⟩
  · obtain ⟨x, hx, rfl⟩ := List.mem_map.mp hy
    rw [Timer.tick_id]
    exact h.fresh x hx
  · obtain ⟨x, hx, rfl⟩ := List.mem_map.mp hy
    rw [Timer.tick_id, pass_history h hx]
    exact ((h.counts x hx).pass (h.periodic _)).1
  · cases hfind : s.timerOf id with
    | none =>
      unfold TimerManager.pass
      dsimp only
      rw [hfind]
      exact h.periodic id
    | some x =>
      obtain ⟨hx, rfl⟩ := timerOf_some hfind
      rw [pass_history h hx]
      exact ((h.counts x hx).pass (h.periodic _)).2

theorem Inv.step (h : Inv s) {a : TimerAction} {s' : TimerManager} (hstep : s.next a = some s') :
    Inv s' := by
  cases a with
  | startTimer address function seconds userValue =>
    cases function with
    | none => exact Option.some.inj hstep ▸ h
    | some function =>
      rw [next] at hstep
      split at hstep
      · cases hstep
      · rename_i hused
        exact Option.some.inj hstep ▸ h.startTimer (Option.not_isSome_iff_eq_none.mp hused) _ _ _
  | stopTimer timer =>
    cases timer with
    | none => exact Option.some.inj hstep ▸ h
    | some address => exact Option.some.inj hstep ▸ h.stopTimer address
  | setTimer timer seconds =>
    cases timer with
    | none => exact Option.some.inj hstep ▸ h
    | some address => exact Option.some.inj hstep ▸ h.setTimer address seconds
  | pass => exact Option.some.inj hstep ▸ h.pass
  | callback i =>
    obtain ⟨t, -, rfl⟩ := Option.map_eq_some_iff.mp hstep
    exact ⟨h.addresses, h.ids, h.fresh, h.counts, h.periodic⟩

/-! ## Every run -/

/-- `StopTimer` is called for a timer of the list, with no callback of it on its way. -/
def Proper (s : TimerManager) : TimerAction → Prop
  | .stopTimer (some address) =>
    ∃ x, s.timerAt address = some x ∧ ∀ t ∈ s.launched, t.id ≠ x.2.id
  | _ => True

/-- No callback is on its way for a timer that has been stopped. -/
structure Safe (s : TimerManager) : Prop where
  pending : ∀ t ∈ s.launched, (s.history t.id).stopped = false
  late : s.late = false
  touched : s.touched = false

theorem safe_init : Safe init := ⟨fun t ht => absurd ht List.not_mem_nil, rfl, rfl⟩

theorem Safe.pass (hs : Safe s) (h : Inv s) : Safe s.pass := by
  have hstopped : ∀ id, (s.history id).stopped = false → (s.pass.history id).stopped = false := by
    intro id hrunning
    unfold TimerManager.pass
    dsimp only
    cases s.timerOf id with
    | none => exact hrunning
    | some x => exact hrunning
  refine ⟨fun t ht => ?_, hs.late, hs.touched⟩
  rcases List.mem_append.mp ht with hbefore | hnow
  · exact hstopped _ (hs.pending t hbefore)
  · obtain ⟨x, hx, rfl⟩ := List.mem_map.mp (List.mem_filter.mp hnow).1
    exact hstopped _ (h.counts x hx).running

theorem Safe.startTimer (hs : Safe s) (address function : Nat) (seconds : UInt32)
    (userValue : Nat) : Safe (s.startTimer address function seconds userValue) := by
  refine ⟨fun t ht => ?_, hs.late, hs.touched⟩
  unfold TimerManager.startTimer
  dsimp only
  by_cases hid : t.id = s.nextId
  · rw [hid, Function.update_self]
  · rw [Function.update_of_ne hid]
    exact hs.pending t ht

theorem Safe.stopTimer (hs : Safe s) {address : Nat} (hproper : Proper s (.stopTimer (some address))) :
    Safe (s.stopTimer address) := by
  obtain ⟨x, hfind, hnone⟩ := hproper
  unfold TimerManager.stopTimer
  rw [hfind]
  refine ⟨fun t ht => ?_, hs.late, hs.touched⟩
  dsimp only
  rw [Function.update_of_ne (hnone t ht)]
  exact hs.pending t ht

theorem Safe.setTimer (hs : Safe s) (address : Nat) (seconds : UInt32) :
    Safe (s.setTimer address seconds) := by
  unfold TimerManager.setTimer
  cases s.timerAt address with
  | none => exact hs
  | some x =>
    refine ⟨fun t ht => ?_, hs.late, hs.touched⟩
    dsimp only
    by_cases hid : t.id = x.2.id
    · rw [hid, Function.update_self]
      exact hid ▸ hs.pending t ht
    · rw [Function.update_of_ne hid]
      exact hs.pending t ht

theorem Safe.callback (hs : Safe s) {t : Timer} {i : Nat} (ht : s.launched[i]? = some t) :
    Safe (s.callback t i) := by
  refine ⟨fun u hu => hs.pending u (List.mem_of_mem_eraseIdx hu), ?_, hs.touched⟩
  unfold TimerManager.callback
  dsimp only
  rw [hs.late, hs.pending t (List.mem_of_getElem? ht), Bool.or_false]

theorem Safe.step (hs : Safe s) (h : Inv s) {a : TimerAction} (hproper : Proper s a)
    {s' : TimerManager} (hstep : s.next a = some s') : Safe s' := by
  cases a with
  | startTimer address function seconds userValue =>
    cases function with
    | none => exact Option.some.inj hstep ▸ hs
    | some function =>
      rw [next] at hstep
      split at hstep
      · cases hstep
      · exact Option.some.inj hstep ▸ hs.startTimer address function seconds userValue
  | stopTimer timer =>
    cases timer with
    | none => exact Option.some.inj hstep ▸ hs
    | some address => exact Option.some.inj hstep ▸ hs.stopTimer hproper
  | setTimer timer seconds =>
    cases timer with
    | none => exact Option.some.inj hstep ▸ hs
    | some address => exact Option.some.inj hstep ▸ hs.setTimer address seconds
  | pass => exact Option.some.inj hstep ▸ hs.pass h
  | callback i =>
    obtain ⟨t, ht, rfl⟩ := Option.map_eq_some_iff.mp hstep
    exact hs.callback ht

/-- In every run the callbacks are launched as they should be; in a run whose timers are
stopped properly no callback comes too late, and no timer is touched that is free. -/
theorem timers_of_run (as : List TimerAction) (s : TimerManager) :
    (Run (Steps next) init as s → ∀ id, (s.history id).Periodic) ∧
    (Run (Guarded Proper (Steps next)) init as s → s.late = false ∧ s.touched = false) := by
  constructor
  · intro hrun
    exact (hrun.invariant (fun s a t (hs : Inv s) hstep => hs.step hstep) inv_init).periodic
  · intro hrun
    have hboth := hrun.invariant (P := fun s => Inv s ∧ Safe s)
      (fun s a t hs hstep => ⟨hs.1.step hstep.2, hs.2.step hs.1 hstep.1 hstep.2⟩)
      ⟨inv_init, safe_init⟩
    exact ⟨hboth.2.late, hboth.2.touched⟩

/-- A timer of two seconds is started, there are four passes, both callbacks are called, and the
timer is stopped. -/
def twice : List TimerAction :=
  [.startTimer 8 (some 1) 2 0, .pass, .pass, .callback 0, .pass, .pass, .callback 0,
    .stopTimer (some 8)]

theorem timers_of_run_twice : ∃ s, exec next init twice = some s ∧
    (s.history 0).launches = [2, 4] ∧ s.late = false ∧ s.touched = false := by
  refine ⟨_, rfl, ?_, ?_⟩
  · exact (timers_of_run twice _).1 (Run.of_exec rfl) 0 2 (by decide) (by
      intro e he
      exact List.mem_singleton.mp he)
  · refine (timers_of_run twice _).2 ?_
    refine .cons ⟨trivial, rfl⟩ (.cons ⟨trivial, rfl⟩ (.cons ⟨trivial, rfl⟩ (.cons ⟨trivial, rfl⟩
      (.cons ⟨trivial, rfl⟩ (.cons ⟨trivial, rfl⟩ (.cons ⟨trivial, rfl⟩ (.cons ⟨?_, rfl⟩
        (.refl _))))))))
    exact ⟨_, rfl, fun t ht => absurd ht List.not_mem_nil⟩

/-- A timer is stopped between the launch of its callback and its start. -/
theorem timers_fail : ∃ s, exec next init
    [.startTimer 8 (some 1) 1 0, .pass, .stopTimer (some 8), .callback 0] = some s ∧
      s.late = true :=
  ⟨_, rfl, rfl⟩

end TimerManager

end FreeAmp.Base
