/-
  Base/Player.lean --- the events that start and stop playing, from `base/src/player.cpp`.

  An output object is a number, and what it was made for is kept: `CreatePMO` makes one
  after the other.  An `INFO_DoneOutputting` does not say which output object has sent
  it; `sender` is what the code does not know, and is only written down.

  The playlist is what the handlers ask it for, and may change at any time.  What is only
  sent to the user interfaces is left out, and so is a null `m_lmc`, `pmo` or `item`
  inside `CreatePMO`, but for that it ends the player: when there is no output plugin, or
  no decoder.
-/
import FreeAmp.Lib.Checked
import FreeAmp.Lib.Transition

namespace FreeAmp.Base

open FreeAmp.Lib

/-- `PlayerState`; its numbers are those of the enumeration. -/
inductive PlayerState where
  | paused
  | playing
  | stopped
  deriving DecidableEq, Repr

/-- The events that the handlers of this file serve. -/
inductive PlayerEvent where
  /-- `INFO_DoneOutputting`, `INFO_DoneOutputtingDueToError` -/
  | doneOutputting (dueToError : Bool) (sender : Nat)
  /-- `CMD_Stop` -/
  | stop
  /-- `CMD_Play` -/
  | play
  /-- `CMD_PlayPaused` -/
  | playPaused
  /-- `CMD_NextMediaPiece` -/
  | next
  /-- `CMD_PrevMediaPiece` -/
  | previous
  /-- `CMD_Pause` -/
  | pause
  /-- `CMD_UnPause` -/
  | unPause
  /-- `CMD_TogglePause` -/
  | togglePause
  /-- `ErrorMessageEvent`, `MissingFileEvent` -/
  | message
  deriving DecidableEq, Repr

/-- What becomes of `CreatePMO`. -/
inductive Creation where
  /-- `ChoosePMI` finds nothing -/
  | noInput
  /-- there is no output plugin, or no decoder: a null pointer is followed -/
  | nullPlugin
  /-- `SetTo` returns `kError_FileNotFound` -/
  | fileNotFound
  /-- it returns another error -/
  | failed
  | created
  deriving DecidableEq, Repr

/-- What a handler is told. -/
structure Answers (ι : Type) where
  /-- what `CreatePMO` comes to -/
  creation : Creation
  /-- the GUID of the current item has 16 bytes -/
  guid : Bool
  /-- `GetRepeatMode() == kPlaylistMode_RepeatOne`, or `kPlaylistMode_RepeatAll` with one item -/
  repeatsItem : Bool
  hasAnotherItem : Bool
  /-- the current item after `GotoNextItem`, `GotoPreviousItem` or `SetCurrentIndex(0)` -/
  moved : Option ι

/-- A null pointer is followed. -/
inductive PlayerFault where
  | nullPmo
  /-- it is one of `CreatePMO`'s own -/
  | nullPlugin
  deriving DecidableEq, Repr

/-- A step from one item to another, on account of an output object that was done. -/
structure Advance (ι : Type) where
  sender : Nat
  /-- the item that was current -/
  item : Option ι
  /-- the output object that was there -/
  pmo : Option Nat
  deriving DecidableEq

/-- `class Player`, and what it works on. -/
structure Player (ι : Type) where
  pmo : Option Nat
  playerState : PlayerState
  queue : List PlayerEvent
  /-- `m_plm->GetCurrentItem()` -/
  current : Option ι
  /-- the items that output objects have been made for -/
  outputs : List ι
  /-- the output objects that have sent `INFO_DoneOutputting` -/
  finished : List Nat
  /-- the play counts: the item, and whose event it was -/
  counted : List (ι × Nat)
  /-- where `DoneOutputting` has gone to another item -/
  advances : List (Advance ι)

namespace Player

def init {ι : Type} (current : Option ι) : Player ι :=
  ⟨none, .stopped, [], current, [], [], [], []⟩

section Handlers

variable {ι : Type} (s : Player ι)

def acceptEvent (e : PlayerEvent) : Player ι := { s with queue := s.queue ++ [e] }

def setState (state : PlayerState) : Player ι := { s with playerState := state }

/-- `delete m_pmo; m_pmo = NULL;` -/
def deletePMO : Player ι := { s with pmo := none }

/-- A member function of `m_pmo`. -/
def callPMO : Except PlayerFault Unit :=
  match s.pmo with
  | some _ => .ok ()
  | none => .error .nullPmo

def createPMO (item : ι) (a : Answers ι) : Except PlayerFault (Player ι) :=
  let s := s.deletePMO
  match a.creation with
  | .noInput => .ok (s.acceptEvent .message)
  | .nullPlugin => .error .nullPlugin
  | .fileNotFound => .ok ((s.acceptEvent .message).acceptEvent .play)
  | .failed => .ok s
  | .created => .ok { s with pmo := some s.outputs.length, outputs := s.outputs ++ [item] }

/-- What `Play` does when there is no output object. -/
def startPMO (a : Answers ι) : Except PlayerFault (Player ι) :=
  match s.pmo, s.current with
  | none, some item => s.createPMO item a
  | _, _ => .ok s

/-- `Play`; `CMD_Play` has the number of `PlayerState_Playing`. -/
def play (paused : Bool) (a : Answers ι) : Except PlayerFault (Player ι) :=
  if s.playerState = .playing ∧ paused = false then .ok s
  else do
    let s := if s.playerState = .playing then s.deletePMO.setState .stopped else s
    let s ← s.startPMO a
    if s.pmo = none then .ok s
    else if paused then .ok (s.setState .paused)
    else do
      s.callPMO
      .ok (s.setState .playing)

def stop : Player ι := s.deletePMO.setState .stopped

def pause : Except PlayerFault (Player ι) :=
  if s.pmo ≠ none then do
    s.callPMO
    .ok (s.setState .paused)
  else .ok s

def unPause : Except PlayerFault (Player ι) :=
  if s.pmo ≠ none then do
    s.callPMO
    .ok (s.setState .playing)
  else .ok s

def togglePause : Except PlayerFault (Player ι) :=
  if s.pmo ≠ none then
    match s.playerState with
    | .playing => s.pause
    | .paused => s.unPause
    | .stopped => .ok s
  else .ok s

/-- `Next`, and `Previous`: both go to another item and play it. -/
def goto (a : Answers ι) : Player ι :=
  match s.playerState with
  | .stopped => { s with current := a.moved }
  | .paused => ({ s.acceptEvent .stop with current := a.moved }).acceptEvent .playPaused
  | .playing => ({ s.acceptEvent .stop with current := a.moved }).acceptEvent .play

/-- `mdata.AddPlayCount()`, of the current item. -/
def countPlay (sender : Nat) (a : Answers ι) : Player ι :=
  match s.current with
  | some item => if a.guid then { s with counted := s.counted ++ [(item, sender)] } else s
  | none => s

def doneOutputting (dueToError : Bool) (sender : Nat) (a : Answers ι) : Player ι :=
  let there := s.pmo
  let s := (s.deletePMO.countPlay sender a).setState .stopped
  if dueToError ∧ a.repeatsItem then { s with current := a.moved }
  else if a.hasAnotherItem then
    let advance : Advance ι := ⟨sender, s.current, there⟩
    { s with advances := s.advances ++ [advance], current := a.moved }.acceptEvent .play
  else { s with current := a.moved }

def serviceEvent (e : PlayerEvent) (a : Answers ι) : Except PlayerFault (Player ι) :=
  match e with
  | .doneOutputting dueToError sender => .ok (s.doneOutputting dueToError sender a)
  | .stop => .ok s.stop
  | .play => s.play false a
  | .playPaused => s.play true a
  | .next => .ok (s.goto a)
  | .previous => .ok (s.goto a)
  | .pause => s.pause
  | .unPause => s.unPause
  | .togglePause => s.togglePause
  | .message => .ok s

end Handlers

/-! ## The output object and the state -/

/-- There is an output object exactly when the player is not stopped. -/
def Sound {ι : Type} (s : Player ι) : Prop := s.pmo ≠ none ↔ s.playerState ≠ .stopped

section Sound

variable {ι : Type} {s : Player ι}

theorem sound_init (current : Option ι) : Sound (init current) :=
  ⟨fun h => absurd rfl h, fun h => absurd rfl h⟩

theorem sound_of_stopped (hpmo : s.pmo = none) (hstate : s.playerState = .stopped) : Sound s :=
  ⟨fun h => absurd hpmo h, fun h => absurd hstate h⟩

theorem sound_of_running (hpmo : s.pmo ≠ none) (hstate : s.playerState ≠ .stopped) : Sound s :=
  ⟨fun _ => hstate, fun _ => hpmo⟩

theorem Sound.stopped (h : Sound s) (hpmo : s.pmo = none) : s.playerState = .stopped := by
  by_contra hstate
  exact h.mpr hstate hpmo

theorem sound_stop (s : Player ι) : Sound s.stop := sound_of_stopped rfl rfl

theorem callPMO_ok (h : s.pmo ≠ none) : s.callPMO = .ok () := by
  unfold callPMO
  cases hpmo : s.pmo with
  | none => exact absurd hpmo h
  | some _ => rfl

/-- Whatever becomes of it, `CreatePMO` leaves the state, and nothing when it fails. -/
theorem createPMO_meets (s : Player ι) (item : ι) (a : Answers ι) :
    Meets (s.createPMO item a) (· ≠ .nullPmo) fun t => t.playerState = s.playerState := by
  unfold createPMO
  cases a.creation with
  | noInput => exact rfl
  | nullPlugin =>
    intro h
    exact absurd h nofun
  | fileNotFound => exact rfl
  | failed => exact rfl
  | created => exact rfl

theorem startPMO_meets (s : Player ι) (a : Answers ι) :
    Meets (s.startPMO a) (· ≠ .nullPmo) fun t => t.playerState = s.playerState ∧
      (s.pmo ≠ none → t.pmo = s.pmo) := by
  unfold startPMO
  split
  · rename_i hpmo _
    apply (createPMO_meets s _ a).mono
    intro t ht
    exact ⟨ht, fun h => absurd hpmo h⟩
  · exact ⟨rfl, fun _ => rfl⟩

theorem play_meets (h : Sound s) (paused : Bool) (a : Answers ι) :
    Meets (s.play paused a) (· ≠ .nullPmo) Sound := by
  unfold play
  by_cases hignored : s.playerState = .playing ∧ paused = false
  · rw [if_pos hignored]
    exact h
  · rw [if_neg hignored]
    dsimp only
    have hbefore : Sound (if s.playerState = .playing then s.deletePMO.setState .stopped else s) := by
      split
      · exact sound_of_stopped rfl rfl
      · exact h
    generalize (if s.playerState = .playing then s.deletePMO.setState .stopped else s) = u
      at hbefore
    rw [Meets.bind_iff]
    apply (startPMO_meets u a).mono
    rintro v ⟨hstate, hpmo⟩
    by_cases hv : v.pmo = none
    · rw [if_pos hv]
      have hu : u.pmo = none := by
        by_contra hu
        exact hu ((hpmo hu).symm.trans hv)
      exact sound_of_stopped hv (hstate.trans (hbefore.stopped hu))
    · rw [if_neg hv]
      cases paused with
      | true => exact sound_of_running hv nofun
      | false =>
        rw [if_neg Bool.false_ne_true, callPMO_ok hv]
        exact sound_of_running hv nofun

theorem pause_meets (h : Sound s) : Meets s.pause (· ≠ .nullPmo) Sound := by
  unfold pause
  split
  · rename_i hpmo
    rw [callPMO_ok hpmo]
    exact sound_of_running hpmo nofun
  · exact h

theorem unPause_meets (h : Sound s) : Meets s.unPause (· ≠ .nullPmo) Sound := by
  unfold unPause
  split
  · rename_i hpmo
    rw [callPMO_ok hpmo]
    exact sound_of_running hpmo nofun
  · exact h

theorem togglePause_meets (h : Sound s) : Meets s.togglePause (· ≠ .nullPmo) Sound := by
  unfold togglePause
  split
  · split
    · exact pause_meets h
    · exact unPause_meets h
    · exact h
  · exact h

theorem sound_goto (h : Sound s) (a : Answers ι) : Sound (s.goto a) := by
  unfold goto
  split <;> exact h

theorem countPlay_pmo (s : Player ι) (sender : Nat) (a : Answers ι) :
    (s.countPlay sender a).pmo = s.pmo := by
  unfold countPlay
  split
  · split <;> rfl
  · rfl

theorem sound_doneOutputting (s : Player ι) (dueToError : Bool) (sender : Nat) (a : Answers ι) :
    Sound (s.doneOutputting dueToError sender a) := by
  have hpmo : ((s.deletePMO.countPlay sender a).setState .stopped).pmo = none :=
    countPlay_pmo s.deletePMO sender a
  unfold doneOutputting
  dsimp only
  split
  · exact sound_of_stopped hpmo rfl
  · split
    · exact sound_of_stopped hpmo rfl
    · exact sound_of_stopped hpmo rfl

/-- No handler follows a null `m_pmo`, and all of them keep the output object and the state
together. -/
theorem serviceEvent_meets (h : Sound s) (e : PlayerEvent) (a : Answers ι) :
    Meets (s.serviceEvent e a) (· ≠ .nullPmo) Sound := by
  cases e with
  | doneOutputting dueToError sender => exact sound_doneOutputting s dueToError sender a
  | stop => exact sound_stop s
  | play => exact play_meets h false a
  | playPaused => exact play_meets h true a
  | next => exact sound_goto h a
  | previous => exact sound_goto h a
  | pause => exact pause_meets h
  | unPause => exact unPause_meets h
  | togglePause => exact togglePause_meets h
  | message => exact h

end Sound

/-- An event is serviced, with the playlist at any item. -/
def Serviced {ι : Type} (s : Player ι) (x : Option ι × PlayerEvent × Answers ι) (t : Player ι) :
    Prop :=
  { s with current := x.1 }.serviceEvent x.2.1 x.2.2 = .ok t

/-- Whatever events are serviced, between them there is an output object exactly when the player
is not stopped, and no handler follows a null `m_pmo`. -/
theorem pmo_iff_not_stopped {ι : Type} (current : Option ι)
    (xs : List (Option ι × PlayerEvent × Answers ι)) (s : Player ι)
    (h : Run Serviced (init current) xs s) :
    (s.pmo ≠ none ↔ s.playerState ≠ .stopped) ∧
      ∀ (item : Option ι) (e : PlayerEvent) (a : Answers ι),
        { s with current := item }.serviceEvent e a ≠ .error .nullPmo := by
  have hs : Sound s := by
    refine h.invariant (P := Sound) ?_ (sound_init current)
    rintro u ⟨item, e, a⟩ v hu huv
    have hu' : Sound { u with current := item } := hu
    exact (serviceEvent_meets hu' e a).of_ok huv
  refine ⟨hs, ?_⟩
  intro item e a hfault
  have hs' : Sound { s with current := item } := hs
  exact (serviceEvent_meets hs' e a).of_error hfault rfl

/-- An item is played, paused and played to its end. -/
def playThrough : List (Option Nat × PlayerEvent × Answers Nat) :=
  let a : Answers Nat := ⟨.created, true, false, true, some 8⟩
  [(some 7, .playPaused, a), (some 7, .togglePause, a), (some 7, .doneOutputting false 0, a)]

theorem pmo_iff_not_stopped_playThrough :
    ∃ s : Player Nat, Run Serviced (init none) playThrough s ∧ s.counted = [(7, 0)] ∧
      (s.pmo ≠ none ↔ s.playerState ≠ .stopped) := by
  have hrun : ∃ s : Player Nat, Run Serviced (init none) playThrough s ∧ s.counted = [(7, 0)] :=
    ⟨_, .cons rfl (.cons rfl (.cons rfl (.refl _))), rfl⟩
  obtain ⟨s, hrun, hcounted⟩ := hrun
  exact ⟨s, hrun, hcounted, (pmo_iff_not_stopped none playThrough s hrun).1⟩

end Player

end FreeAmp.Base
