/-
  Base/DownloadWakeup.lean --- the permits of the download queue and the items that are
  queued, from `base/src/downloadmanager.cpp`.

  Here any number of threads call the manager, and each goes on from one look at what is
  shared to the next: `QueueDownload` makes the item `kDownloadItemState_Queued` first and
  signals last.  In between the download thread may be blocked while an item is queued;
  when nobody is about to signal it is not, unless the manager is paused,
  `wakeup_not_lost`.

  The destructor and the removal of items are left out.
-/
import FreeAmp.Base.DownloadLifecycle
import Mathlib.Logic.Function.Basic

namespace FreeAmp.Base

open FreeAmp.Lib

/-- Where a thread of the user is. -/
inductive UserPlace where
  /-- in no function of the manager -/
  | outside
  /-- a call has looked at the state of the item -/
  | entered (call : UserCall)
  /-- `QueueDownload` has made the item at `i` `kDownloadItemState_Queued` -/
  | queued (i : Nat) (bDownloadNow : Bool)
  /-- before `m_queueSemaphore.Signal()` -/
  | signalling
  deriving DecidableEq

/-- The call is between what it does and its signal. -/
def UserPlace.owes : UserPlace → Bool
  | .queued _ _ => true
  | .signalling => true
  | _ => false

/-- The manager with the download thread, and the threads of the user. -/
structure Queueing (τ : Type) where
  manager : Manager
  user : τ → UserPlace

/-- What happens. -/
inductive QueueingAction (τ : Type) where
  | thread (e : ThreadEvent)
  /-- a call looks at the state of the item -/
  | enter (t : τ) (call : UserCall)
  /-- the call sets it -/
  | set (t : τ)
  /-- `if (m_downloadsPaused && bDownloadNow)` and what follows -/
  | setIndex (t : τ)
  /-- `m_queueSemaphore.Signal()` -/
  | signal (t : τ)
  | pauseDownloads (t : τ)
  /-- `m_downloadsPaused = false` of `ResumeDownloads` -/
  | resumeDownloads (t : τ)
  /-- `AddItem`, until it calls `QueueDownload` -/
  | addItem (t : τ) (item : DownloadItem)

namespace Queueing

section Calls

variable {τ : Type} [DecidableEq τ] (s : Queueing τ)

/-- The thread `t` goes on at `place`. -/
def goto (t : τ) (place : UserPlace) : Queueing τ :=
  { s with user := Function.update s.user t place }

/-- The call of `t` sets the state of the item at `i`, and goes on at `place`. -/
def setState (t : τ) (i : Nat) (state : DownloadItemState) (place : UserPlace) :
    Option (Queueing τ) :=
  (s.manager.items[i]?).map fun item =>
    ⟨s.manager.setItem i { item with state := state }, Function.update s.user t place⟩

/-- The call of `t` sets the state of its item. -/
def set (t : τ) : UserCall → Option (Queueing τ)
  | .queue i bDownloadNow => s.setState t i .queued (.queued i bDownloadNow)
  | .cancel i allowResume =>
    s.setState t i (if allowResume then .paused else .cancelled) .outside

/-- What follows an action. -/
def next (prefs : DownloadPrefs) : QueueingAction τ → Option (Queueing τ)
  | .thread e => (s.manager.threadStep prefs e).map fun manager => { s with manager := manager }
  | .enter t call =>
    match s.manager.items[call.item]? with
    | some item =>
      if s.user t = .outside ∧ call.allowed item.state then some (s.goto t (.entered call))
      else none
    | none => none
  | .set t =>
    match s.user t with
    | .entered call => s.set t call
    | _ => none
  | .setIndex t =>
    match s.user t with
    | .queued i bDownloadNow =>
      let index : Int := if s.manager.downloadsPaused && bDownloadNow then (i : Int)
        else s.manager.downloadIndex
      some ({ s with manager := { s.manager with downloadIndex := index } }.goto t .signalling)
    | _ => none
  | .signal t =>
    match s.user t with
    | .signalling =>
      some ({ s with manager :=
        { s.manager with queueCount := s.manager.queueCount + 1 } }.goto t .outside)
    | _ => none
  | .pauseDownloads t =>
    if s.user t = .outside then
      some { s with manager := { s.manager with downloadsPaused := true } }
    else none
  | .resumeDownloads t =>
    if s.user t = .outside then
      some ({ s with manager := { s.manager with downloadsPaused := false } }.goto t .signalling)
    else none
  | .addItem t item =>
    if s.user t = .outside ∧ item.state = .null then
      if s.manager.items.any (·.src == item.src) then some s
      else
        some ({ s with manager := { s.manager with items := s.manager.items ++ [item] } }.goto t
          (.entered (.queue s.manager.items.length false)))
    else none

end Calls

/-- The manager when its constructor has loaded the items and created the thread. -/
def start {τ : Type} (items : List DownloadItem) (files : Text → Option Text)
    (database : Database) : Queueing τ :=
  ⟨.init items files database, fun _ => .outside⟩

end Queueing

/-! ## The thread at work -/

/-- The thread works on an item, or comes back from one. -/
def Place.AtWork (place : Place) : Prop := place.item ≠ none ∨ place = .loop

theorem Place.AtWork.away {place : Place} (h : place.AtWork) :
    place ≠ .wait ∧ place ≠ .waiting ∧ ∀ i total, place ≠ .scan i total := by
  have hne : ∀ place', place'.item = none → place' ≠ .loop → place ≠ place' := by
    intro place' hitem hloop heq
    rw [heq] at h
    rcases h with h | h
    · exact h hitem
    · exact hloop h
  exact ⟨hne _ rfl nofun, hne _ rfl nofun, fun _ _ => hne _ rfl nofun⟩

namespace Manager

/-- What a step at an item leaves alone. -/
structure Apart (s t : Manager) : Prop where
  queueCount : t.queueCount = s.queueCount
  downloadsPaused : t.downloadsPaused = s.downloadsPaused
  place : t.place.AtWork

section Apart

variable {s t : Manager} {i : Nat} {item item' : DownloadItem} {place : Place}

theorem apart_goto (h : place.AtWork) : Apart s (s.goto place) := ⟨rfl, rfl, h⟩

theorem apart_setItem (h : place.AtWork) : Apart s ((s.setItem i item).goto place) := ⟨rfl, rfl, h⟩

theorem apart_setFile {data : Option Text} (h : place.AtWork) :
    Apart s (((s.setItem i item).setFile item' data).goto place) := ⟨rfl, rfl, h⟩

theorem download_atWork (prefs : DownloadPrefs) (s : Manager) (i : Nat) (item : DownloadItem) :
    (download prefs s i item).AtWork := by
  unfold download
  split <;> exact .inl nofun

theorem receive_atWork (i : Nat) (buffer : HeaderBuffer) : (receive i buffer).AtWork := by
  unfold receive
  split <;> exact .inl nofun

theorem look_apart (prefs : DownloadPrefs) (result : Error) (next : Next) (memory : Bool)
    (opened : Except Errno Unit) :
    Apart s (s.look prefs i item result next memory opened) := by
  unfold look
  split
  · exact apart_goto (.inl nofun)
  · split
    · exact apart_goto (.inl nofun)
    · cases next with
      | send => exact apart_setItem (.inl nofun)
      | receive =>
        unfold goOn
        cases memory with
        | true => exact apart_goto (receive_atWork i .new)
        | false => exact apart_goto (.inl nofun)
      | header buffer => exact apart_goto (receive_atWork i buffer)
      | parse header =>
        unfold goOn parse
        dsimp only
        split
        · exact apart_setFile (.inl nofun)
        · exact apart_setItem (download_atWork prefs s i _)
        · exact apart_setItem (.inl nofun)
      | _ => exact apart_goto (.inl nofun)

theorem afterSelect_apart {call : NetworkCall} {r : Ready}
    (h : s.afterSelect i item call r = some t) : Apart s t := by
  unfold afterSelect at h
  split at h
  case h_6 =>
    split at h
    · exact Option.some.inj h ▸ apart_goto (.inl nofun)
    · exact Option.some.inj h ▸ apart_setFile (.inl nofun)
  case h_11 => exact absurd h nofun
  all_goals exact Option.some.inj h ▸ apart_goto (.inl nofun)

theorem finish_apart (result : Error) : Apart s (s.finish i item result) := by
  unfold finish
  split
  · exact apart_setItem (.inr rfl)
  · split
    · exact apart_goto (.inl nofun)
    · exact apart_goto (.inr rfl)
  · exact apart_setItem (.inr rfl)
  · exact apart_setItem (.inl nofun)

/-- A step at an item leaves the semaphore alone, and does not come to a wait. -/
theorem workOn_apart {prefs : DownloadPrefs} {e : ThreadEvent}
    (h : s.workOn prefs item place e = some t) : Apart s t := by
  unfold workOn at h
  split at h
  · exact Option.some.inj h ▸ apart_setItem (download_atWork prefs s _ _)
  · exact Option.some.inj h ▸ look_apart prefs _ _ _ _
  · exact Option.some.inj h ▸ apart_goto (.inl nofun)
  · exact Option.some.inj h ▸ apart_goto (.inl nofun)
  · split at h
    · exact Option.some.inj h ▸ apart_goto (.inl nofun)
    · exact Option.some.inj h ▸ apart_goto (.inl nofun)
  · exact Option.some.inj h ▸ apart_goto (.inl nofun)
  · exact afterSelect_apart h
  · split at h
    · exact Option.some.inj h ▸ apart_goto (.inl nofun)
    · exact Option.some.inj h ▸ apart_goto (.inl nofun)
  · exact Option.some.inj h ▸ finish_apart _
  · exact Option.some.inj h ▸ apart_setFile (.inr rfl)
  · exact absurd h nofun

end Apart

end Manager

/-! ## The invariant -/

/-- The count that lets the thread through: `Wait` counts down first. -/
def Place.needed (place : Place) : Int := if place = .waiting then 1 else 2

def NoneQueued (items : List DownloadItem) : Prop :=
  ∀ (j : Nat) (item : DownloadItem), items[j]? = some item → item.state ≠ .queued

/-- An item that is queued is still to be looked at in the loop of `GetNextQueuedItem`. -/
def Ahead (items : List DownloadItem) (i total : Nat) : Prop :=
  ∀ (j : Nat) (item : DownloadItem), items[j]? = some item → item.state = .queued →
    ∃ k, total + k < items.length ∧ (i + k) % items.length = j

namespace Queueing

/-- A call is between what it does and its signal. -/
def Owed {τ : Type} (s : Queueing τ) : Prop := ∃ t, (s.user t).owes = true

/-- The thread will not be blocked when it waits. -/
def Woken {τ : Type} (s : Queueing τ) : Prop :=
  s.manager.place.needed ≤ s.manager.queueCount ∨ Owed s

/-- It holds between the steps. -/
structure Kept {τ : Type} (s : Queueing τ) : Prop where
  permits : s.manager.place.needed ≤ s.manager.queueCount + 1
  scan : ∀ i total, s.manager.place = .scan i total → i < s.manager.items.length ∧
    (Woken s ∨ Ahead s.manager.items i total)
  wait : s.manager.place = .wait ∨ s.manager.place = .waiting →
    Woken s ∨ s.manager.downloadsPaused = true ∨ NoneQueued s.manager.items

end Queueing

section Scanning

variable {items : List DownloadItem} {i total : Nat}

theorem ahead_first (h : i < items.length) : Ahead items i 0 := by
  intro j item hitem _
  have hj : j < items.length := (List.getElem?_eq_some_iff.mp hitem).1
  by_cases hij : i ≤ j
  · refine ⟨j - i, by omega, ?_⟩
    rw [Nat.add_sub_cancel' hij, Nat.mod_eq_of_lt hj]
  · refine ⟨j + items.length - i, by omega, ?_⟩
    rw [Nat.add_sub_cancel' (by omega), Nat.add_mod_right, Nat.mod_eq_of_lt hj]

theorem Ahead.step (h : Ahead items i total) {item : DownloadItem} (hitem : items[i]? = some item)
    (hstate : item.state ≠ .queued) : Ahead items ((i + 1) % items.length) (total + 1) := by
  have hi : i < items.length := (List.getElem?_eq_some_iff.mp hitem).1
  intro j item' hitem' hqueued
  obtain ⟨k, hk, hj⟩ := h j item' hitem' hqueued
  cases k with
  | zero =>
    rw [Nat.add_zero, Nat.mod_eq_of_lt hi] at hj
    rw [hj] at hitem
    exact absurd (Option.some.inj (hitem.symm.trans hitem') ▸ hqueued) hstate
  | succ k =>
    refine ⟨k, by omega, ?_⟩
    rw [Nat.mod_add_mod, ← hj]
    congr 1
    omega

theorem Ahead.noneQueued (h : Ahead items i total) (htotal : items.length ≤ total) :
    NoneQueued items := by
  intro j item hitem hqueued
  obtain ⟨k, hk, _⟩ := h j item hitem hqueued
  omega

theorem NoneQueued.concat (h : NoneQueued items) {item : DownloadItem}
    (hstate : item.state ≠ .queued) : NoneQueued (items ++ [item]) := by
  intro j item' hitem'
  rw [List.getElem?_append] at hitem'
  split at hitem'
  · exact h j item' hitem'
  · obtain rfl := List.mem_singleton.mp (List.mem_of_getElem? hitem')
    exact hstate

theorem Ahead.concat (h : Ahead items i total) (hi : i < items.length) {item : DownloadItem}
    (hstate : item.state ≠ .queued) : Ahead (items ++ [item]) i total := by
  intro j item' hitem' hqueued
  rw [List.getElem?_append] at hitem'
  split at hitem'
  · rename_i hj
    obtain ⟨k, hk, hmod⟩ := h j item' hitem' hqueued
    rw [List.length_append, List.length_singleton]
    by_cases hlt : i + k < items.length
    · rw [Nat.mod_eq_of_lt hlt] at hmod
      exact ⟨k, by omega, by rw [hmod]; exact Nat.mod_eq_of_lt (by omega)⟩
    · have hover : i + k = j + items.length := by
        rw [Nat.mod_eq_sub_mod (Nat.le_of_not_lt hlt), Nat.mod_eq_of_lt (by omega)] at hmod
        omega
      refine ⟨k + 1, by omega, ?_⟩
      have hsum : i + (k + 1) = j + (items.length + 1) := by omega
      rw [hsum, Nat.add_mod_right]
      exact Nat.mod_eq_of_lt (by omega)
  · obtain rfl := List.mem_singleton.mp (List.mem_of_getElem? hitem')
    exact absurd hqueued hstate

end Scanning

namespace Queueing

section Steps

variable {τ : Type} {s s' : Queueing τ}

theorem kept_start (items : List DownloadItem) (files : Text → Option Text)
    (database : Database) : Kept (start items files database : Queueing τ) where
  permits := Int.le_refl 2
  scan := nofun
  wait := nofun

theorem Kept.mono (h : Kept s) (hplace : s'.manager.place = s.manager.place)
    (hcount : s'.manager.queueCount = s.manager.queueCount)
    (hpaused : s.manager.downloadsPaused = true → s'.manager.downloadsPaused = true)
    (howed : Owed s → Owed s')
    (hscan : ∀ i total, i < s.manager.items.length → Ahead s.manager.items i total →
      Ahead s'.manager.items i total)
    (hlength : s.manager.items.length ≤ s'.manager.items.length)
    (hnone : NoneQueued s.manager.items → NoneQueued s'.manager.items) : Kept s' := by
  have hwoken : Woken s → Woken s' := by
    rintro (hneeded | hs)
    · refine .inl ?_
      rw [hplace, hcount]
      exact hneeded
    · exact .inr (howed hs)
  refine ⟨?_, ?_, ?_⟩
  · rw [hplace, hcount]
    exact h.permits
  · intro i total hat
    rw [hplace] at hat
    obtain ⟨hi, hs⟩ := h.scan i total hat
    exact ⟨Nat.lt_of_lt_of_le hi hlength, hs.imp hwoken (hscan i total hi)⟩
  · intro hat
    rw [hplace] at hat
    exact (h.wait hat).imp hwoken (Or.imp hpaused hnone)

/-- A step of a user after which the thread will not be blocked. -/
theorem Kept.woken (h : Kept s) (hplace : s'.manager.place = s.manager.place)
    (hcount : s.manager.queueCount ≤ s'.manager.queueCount)
    (hlength : s'.manager.items.length = s.manager.items.length) (hwoken : Woken s') :
    Kept s' := by
  refine ⟨?_, ?_, fun _ => .inl hwoken⟩
  · rw [hplace]
    have hpermits := h.permits
    omega
  · intro i total hat
    rw [hplace] at hat
    rw [hlength]
    exact ⟨(h.scan i total hat).1, .inl hwoken⟩

/-- A step of the thread to a place where it neither looks for an item nor waits. -/
theorem Kept.thread_away (h : Kept s) {manager : Manager}
    (hplace : s.manager.place ≠ .waiting ∨ 0 < s.manager.queueCount)
    (hcount : manager.queueCount = s.manager.queueCount)
    (haway : manager.place ≠ .wait ∧ manager.place ≠ .waiting ∧
      ∀ i total, manager.place ≠ .scan i total) :
    Kept { s with manager := manager } := by
  refine ⟨?_, fun i total hat => absurd hat (haway.2.2 i total), ?_⟩
  · have hpermits := h.permits
    unfold Place.needed at hpermits
    unfold Place.needed
    dsimp only
    rw [if_neg haway.2.1, hcount]
    rcases hplace with hplace | hpos
    · rw [if_neg hplace] at hpermits
      exact hpermits
    · omega
  · rintro (hat | hat)
    · exact absurd hat haway.1
    · exact absurd hat haway.2.1

/-- The thread begins to wait: the permit it takes is not one that it needs. -/
theorem Kept.thread_wait (h : Kept s) (hplace : s.manager.place = .wait) :
    Kept { s with manager :=
      { s.manager with queueCount := s.manager.queueCount - 1, place := .waiting } } := by
  have hpermits := h.permits
  have hwait := h.wait (.inl hplace)
  unfold Woken at hwait
  rw [hplace] at hpermits hwait
  refine ⟨?_, nofun, fun _ => ?_⟩
  · show (1 : Int) ≤ s.manager.queueCount - 1 + 1
    have hneeded : (2 : Int) ≤ s.manager.queueCount + 1 := hpermits
    omega
  · refine hwait.imp (Or.imp ?_ id) id
    intro hneeded
    show (1 : Int) ≤ s.manager.queueCount - 1
    have hneeded : (2 : Int) ≤ s.manager.queueCount := hneeded
    omega

/-- The thread begins to look for an item: all of them are ahead. -/
theorem Kept.thread_firstRound (h : Kept s) (hplace : s.manager.place = .next) :
    Kept { s with manager := s.manager.firstRound } := by
  have hpermits := h.permits
  rw [hplace] at hpermits
  have hneeded : (2 : Int) ≤ s.manager.queueCount + 1 := hpermits
  unfold Manager.firstRound
  dsimp only
  generalize hindex : (if s.manager.downloadIndex < 0 ∨
    (s.manager.items.length : Int) ≤ s.manager.downloadIndex then 0
      else s.manager.downloadIndex) = index
  have hindex : 0 ≤ index ∧ (index < s.manager.items.length ∨ index = 0) := by
    split at hindex <;> omega
  by_cases hlt : index < s.manager.items.length
  · rw [if_pos hlt]
    refine ⟨hneeded, ?_, nofun⟩
    intro i total hat
    obtain ⟨rfl, rfl⟩ := Place.scan.inj hat
    have hi : index.toNat < s.manager.items.length := by omega
    exact ⟨hi, .inr (ahead_first hi)⟩
  · rw [if_neg hlt]
    refine ⟨hneeded, nofun, fun _ => .inr (.inr ?_)⟩
    intro j item hitem
    have hj := (List.getElem?_eq_some_iff.mp hitem).1
    dsimp only at hj
    omega

theorem Kept.thread_scan (h : Kept s) {i total : Nat} (hplace : s.manager.place = .scan i total) :
    Kept { s with manager := s.manager.goto (s.manager.scan i total) } := by
  have hpermits := h.permits
  obtain ⟨hi, hscan⟩ := h.scan i total hplace
  unfold Woken at hscan
  rw [hplace] at hpermits hscan
  unfold Manager.scan
  split
  · rename_i htotal
    exact ⟨hpermits, nofun, fun _ => hscan.imp id fun hs => .inr (hs.noneQueued htotal)⟩
  · rw [List.getElem?_eq_getElem hi]
    dsimp only
    split
    · exact h.thread_away (.inl (by rw [hplace]; nofun)) rfl ⟨nofun, nofun, nofun⟩
    · rename_i hstate
      refine ⟨hpermits, ?_, nofun⟩
      intro j total' hat
      obtain ⟨rfl, rfl⟩ := Place.scan.inj hat
      have hlength : 0 < s.manager.items.length := by omega
      exact ⟨Nat.mod_lt _ hlength,
        hscan.imp id fun hs => hs.step (List.getElem?_eq_getElem hi) hstate⟩

theorem Kept.thread (h : Kept s) {prefs : DownloadPrefs} {e : ThreadEvent} {manager : Manager}
    (hstep : s.manager.threadStep prefs e = some manager) :
    Kept { s with manager := manager } := by
  have hpermits := h.permits
  unfold Manager.threadStep at hstep
  split at hstep
  · rename_i hplace
    split at hstep
    · exact absurd hstep nofun
    · rw [← Option.some.inj hstep]
      exact h.thread_away (.inl (by rw [hplace]; nofun)) rfl ⟨nofun, nofun, nofun⟩
  · rename_i hplace
    rw [← Option.some.inj hstep]
    refine h.thread_away (.inl (by rw [hplace]; nofun)) rfl ?_
    rw [Manager.goto_place]
    split <;> exact ⟨nofun, nofun, nofun⟩
  · rename_i hplace
    rw [← Option.some.inj hstep]
    by_cases hpaused : s.manager.downloadsPaused = true
    · rw [if_pos hpaused]
      refine ⟨?_, nofun, fun _ => .inr (.inl hpaused)⟩
      rw [hplace] at hpermits
      exact hpermits
    · rw [if_neg hpaused]
      exact h.thread_away (.inl (by rw [hplace]; nofun)) rfl ⟨nofun, nofun, nofun⟩
  · rename_i hplace
    rw [← Option.some.inj hstep]
    exact h.thread_wait hplace
  · split at hstep
    · rename_i hpos
      rw [← Option.some.inj hstep]
      exact h.thread_away (.inr hpos) rfl ⟨nofun, nofun, nofun⟩
    · exact absurd hstep nofun
  · rename_i hplace
    rw [← Option.some.inj hstep]
    exact h.thread_firstRound hplace
  · rename_i i total hplace
    rw [← Option.some.inj hstep]
    exact h.thread_scan hplace
  · rename_i hplace
    rw [← Option.some.inj hstep]
    exact h.thread_away (.inl (by rw [hplace]; nofun)) rfl ⟨nofun, nofun, nofun⟩
  · exact absurd hstep nofun
  · split at hstep
    · rename_i hitem
      obtain ⟨i, hi, _⟩ := Option.bind_eq_some_iff.mp hitem
      have hat : s.manager.place.AtWork := .inl (by rw [hi]; nofun)
      have hapart := Manager.workOn_apart hstep
      exact h.thread_away (.inl hat.away.2.1) hapart.queueCount hapart.place.away
    · exact absurd hstep nofun

section Users

variable [DecidableEq τ] {t : τ}

theorem goto_owed {place : UserPlace} (hplace : place.owes = true) (s : Queueing τ) :
    Owed (s.goto t place) := by
  refine ⟨t, ?_⟩
  unfold goto
  dsimp only
  rw [Function.update_self]
  exact hplace

theorem Owed.update (h : Owed s) {manager : Manager} {place : UserPlace}
    (hwas : (s.user t).owes = false) : Owed ⟨manager, Function.update s.user t place⟩ := by
  obtain ⟨u, hu⟩ := h
  have hut : u ≠ t := by
    intro hut
    rw [hut, hwas] at hu
    exact absurd hu nofun
  refine ⟨u, ?_⟩
  dsimp only
  rw [Function.update_of_ne hut]
  exact hu

theorem Kept.setState (h : Kept s) {i : Nat} {state : DownloadItemState} {place : UserPlace}
    (hwas : (s.user t).owes = false) (hset : s.setState t i state place = some s')
    (hstate : state ≠ .queued ∨ place.owes = true) : Kept s' := by
  obtain ⟨item, hitem, rfl⟩ := Option.map_eq_some_iff.mp hset
  by_cases howes : place.owes = true
  · refine h.woken rfl (Int.le_refl _) List.length_set (.inr ⟨t, ?_⟩)
    dsimp only
    rw [Function.update_self]
    exact howes
  · have hqueued : ∀ (j : Nat) (item' : DownloadItem),
        (s.manager.items.set i { item with state := state })[j]? = some item' →
          item'.state = .queued → s.manager.items[j]? = some item' := by
      intro j item' hj hqueued
      by_cases hij : i = j
      · subst hij
        rw [Manager.getElem?_set_self' hitem] at hj
        have hset : { item with state := state } = item' := Option.some.inj hj
        rw [← hset] at hqueued
        exact absurd hqueued (hstate.resolve_right howes)
      · rwa [List.getElem?_set_ne hij] at hj
    refine h.mono rfl rfl id (fun hs => hs.update hwas) ?_ ?_ ?_
    · intro j total _ hahead k item' hk hitem'
      rw [Manager.setItem_items] at hk ⊢
      rw [List.length_set]
      exact hahead k item' (hqueued k item' hk hitem') hitem'
    · exact Nat.le_of_eq List.length_set.symm
    · intro hnone k item' hk hitem'
      exact hnone k item' (hqueued k item' hk hitem') hitem'

theorem next_kept {prefs : DownloadPrefs} {a : QueueingAction τ} (hs : Kept s)
    (h : s.next prefs a = some s') : Kept s' := by
  cases a with
  | thread e =>
    obtain ⟨manager, hstep, rfl⟩ := Option.map_eq_some_iff.mp h
    exact hs.thread hstep
  | enter t call =>
    simp only [next] at h
    split at h
    · split at h
      · rename_i hallowed
        obtain rfl := Option.some.inj h
        have hwas : (s.user t).owes = false := by rw [hallowed.1]; rfl
        exact hs.mono rfl rfl id (fun ho => ho.update hwas) (fun _ _ _ => id) (Nat.le_refl _) id
      · exact absurd h nofun
    · exact absurd h nofun
  | set t =>
    simp only [next] at h
    split at h
    · rename_i call hcall
      have hwas : (s.user t).owes = false := by rw [hcall]; rfl
      cases call with
      | queue i bDownloadNow => exact hs.setState hwas h (.inr rfl)
      | cancel i allowResume =>
        refine hs.setState hwas h (.inl ?_)
        split <;> nofun
    · exact absurd h nofun
  | setIndex t =>
    simp only [next] at h
    split at h
    · obtain rfl := Option.some.inj h
      exact hs.woken rfl (Int.le_refl _) rfl (.inr (goto_owed rfl _))
    · exact absurd h nofun
  | signal t =>
    simp only [next] at h
    split at h
    · obtain rfl := Option.some.inj h
      exact hs.woken rfl (Int.le_add_one (Int.le_refl _)) rfl (.inl hs.permits)
    · exact absurd h nofun
  | pauseDownloads t =>
    simp only [next] at h
    split at h
    · obtain rfl := Option.some.inj h
      exact hs.mono rfl rfl (fun _ => rfl) id (fun _ _ _ => id) (Nat.le_refl _) id
    · exact absurd h nofun
  | resumeDownloads t =>
    simp only [next] at h
    split at h
    · obtain rfl := Option.some.inj h
      exact hs.woken rfl (Int.le_refl _) rfl (.inr (goto_owed rfl _))
    · exact absurd h nofun
  | addItem t item =>
    simp only [next] at h
    split at h
    · rename_i hadd
      have hstate : item.state ≠ .queued := by rw [hadd.2]; nofun
      have hwas : (s.user t).owes = false := by rw [hadd.1]; rfl
      split at h
      · exact Option.some.inj h ▸ hs
      · obtain rfl := Option.some.inj h
        refine hs.mono rfl rfl id (fun ho => ho.update hwas)
          (fun i total hi ha => ha.concat hi hstate) ?_ (fun hn => hn.concat hstate)
        exact List.length_append ▸ Nat.le_add_right _ _
    · exact absurd h nofun

end Users

end Steps

/-- Whatever the threads of the user call, in any order: when the download thread waits and the count
does not let it through, either a call is between what it does and its signal, which then lets the
thread through, or the manager is paused, or no item is queued. -/
theorem wakeup_not_lost {τ : Type} [DecidableEq τ] (prefs : DownloadPrefs)
    (items : List DownloadItem) (files : Text → Option Text) (database : Database)
    (as : List (QueueingAction τ)) (s : Queueing τ)
    (h : Run (Steps fun s a => next s prefs a) (start items files database) as s)
    (hplace : s.manager.place = .waiting) (hcount : s.manager.queueCount ≤ 0) :
    ((∀ t, (s.user t).owes = false) → s.manager.downloadsPaused = true ∨
      ∀ item ∈ s.manager.items, item.state ≠ .queued) ∧
    ∀ t s', s.next prefs (.signal t) = some s' → 0 < s'.manager.queueCount := by
  have hs : Kept s := by
    refine h.invariant (P := Kept) ?_ (kept_start items files database)
    exact fun _ _ _ hu hstep => next_kept hu hstep
  constructor
  · intro hnone
    rcases hs.wait (.inr hplace) with (hneeded | ⟨t, ht⟩) | hrest
    · rw [hplace] at hneeded
      have hone : (1 : Int) ≤ s.manager.queueCount := hneeded
      omega
    · rw [hnone t] at ht
      exact absurd ht nofun
    · refine hrest.imp id ?_
      intro hqueued item hitem
      obtain ⟨j, hj⟩ := List.getElem?_of_mem hitem
      exact hqueued j item hj
  · intro t s' hsignal
    have hpermits := hs.permits
    rw [hplace] at hpermits
    have hone : (1 : Int) ≤ s.manager.queueCount + 1 := hpermits
    simp only [next] at hsignal
    split at hsignal
    · obtain rfl := Option.some.inj hsignal
      show (0 : Int) < s.manager.queueCount + 1
      omega
    · exact absurd hsignal nofun

/-- A manager with one item, which is paused; the downloads are resumed, and the thread waits. -/
def resumedActions : List (QueueingAction Unit) :=
  List.replicate 4 (.thread .step) ++ [.resumeDownloads (), .signal ()] ++
    List.replicate 7 (.thread .step)

theorem wakeup_not_lost_resumed :
    ∃ s : Queueing Unit,
      Run (Steps fun s a => next s ⟨false, []⟩ a)
        (start [{ DownloadItem.new with state := .paused }] (fun _ => none) .empty)
        resumedActions s ∧ s.manager.place = .waiting ∧ s.manager.queueCount ≤ 0 ∧
          (s.manager.downloadsPaused = true ∨ ∀ item ∈ s.manager.items, item.state ≠ .queued) := by
  have hexec : (exec (fun s a => next s ⟨false, []⟩ a)
      (start [{ DownloadItem.new with state := .paused }] (fun _ => none) .empty)
      resumedActions).map (fun s => (s.manager.place, s.manager.queueCount, s.user ())) =
        some (.waiting, 0, .outside) := by
    decide
  obtain ⟨s, hs, heq⟩ := Option.map_eq_some_iff.mp hexec
  obtain ⟨hplace, hrest⟩ := Prod.mk.inj heq
  obtain ⟨hcount, huser⟩ := Prod.mk.inj hrest
  have hrun := Run.of_exec hs
  have hle : s.manager.queueCount ≤ 0 := Int.le_of_eq hcount
  have hnone : ∀ t, (s.user t).owes = false := by
    intro t
    rw [show s.user t = .outside from huser]
    rfl
  exact ⟨s, hrun, hplace, hle,
    (wakeup_not_lost _ _ _ _ resumedActions s hrun hplace hle).1 hnone⟩

/-- `QueueDownload` makes the item queued; it has not signalled yet. -/
def queuedUnsignalled : List (QueueingAction Unit) :=
  resumedActions ++ [.enter () (.queue 0 false), .set ()]

/-- The thread is blocked, the manager is not paused and an item is queued. -/
theorem wakeup_not_lost_fails :
    ¬ ∀ (as : List (QueueingAction Unit)) (s : Queueing Unit),
      Run (Steps fun s a => next s ⟨false, []⟩ a)
        (start [{ DownloadItem.new with state := .paused }] (fun _ => none) .empty) as s →
          s.manager.place = .waiting → s.manager.queueCount ≤ 0 →
            s.manager.downloadsPaused = true ∨ ∀ item ∈ s.manager.items, item.state ≠ .queued := by
  intro h
  have hexec : (exec (fun s a => next s ⟨false, []⟩ a)
      (start [{ DownloadItem.new with state := .paused }] (fun _ => none) .empty)
      queuedUnsignalled).map (fun s => (s.manager.place, s.manager.queueCount,
        s.manager.downloadsPaused, s.manager.items.map DownloadItem.state)) =
          some (.waiting, 0, false, [.queued]) := by
    decide
  obtain ⟨s, hs, heq⟩ := Option.map_eq_some_iff.mp hexec
  obtain ⟨hplace, hrest⟩ := Prod.mk.inj heq
  obtain ⟨hcount, hrest⟩ := Prod.mk.inj hrest
  obtain ⟨hpaused, hstates⟩ := Prod.mk.inj hrest
  rcases h queuedUnsignalled s (Run.of_exec hs) hplace (Int.le_of_eq hcount) with hp | hnone
  · rw [hpaused] at hp
    exact absurd hp nofun
  · obtain ⟨item, hitems, hstate⟩ := List.map_eq_singleton_iff.mp hstates
    rw [hitems] at hnone
    exact hnone item (List.mem_singleton_self item) hstate

end Queueing

end FreeAmp.Base
