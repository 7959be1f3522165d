/-
  Base/DownloadReport.lean --- what the download thread tells about an item when it is done
  with it, from `base/src/downloadmanager.cpp`.

  Between the end of `Download` and the message the thread sets the state of the item,
  submits it to the database or cleans up, and sets its error; calls of the user come in
  between.  The manager of `Base/DownloadThread.lean` is kept as it is, with the errors of
  the items, what the thread has still to report, and the messages beside it.

      finish_agrees      the state and the error that the thread has set
      next_told          what an action does
      Settled.step       what every step keeps
      messages_agree     what has been sent in every run
-/
import FreeAmp.Base.DownloadCancel

namespace FreeAmp.Base

open FreeAmp.Lib

/-! ## Messages -/

/-- `DownloadItemNewStateEvent`, with what the item holds when it is sent. -/
structure StateMessage where
  item : Nat
  state : DownloadItemState
  error : Error
  bytesReceived : UInt32
  /-- the thread has sent it, and not a call of the user -/
  byThread : Bool
  /-- `CleanUpDownload` has removed the file before -/
  removed : Bool

/-- What the thread has still to set and to send. -/
structure Unreported where
  item : Nat
  /-- `result` -/
  error : Error
  /-- `CleanUpDownload` has removed the file -/
  removed : Bool

/-- `SubmitToDatabase` puts the track into the catalog, and returns what `result` has been
initialised with. -/
def submitToDatabase : Error := .invalidParam

/-- `result`, before `item->SetDownloadError(result)`. -/
def reported (result : Error) : Error :=
  if result = .noErr then submitToDatabase else result

/-- The manager, and what it tells of its items. -/
structure DownloadReporter where
  manager : Manager
  /-- `m_error` of the items -/
  errors : Nat → Error
  unreported : Option Unreported
  messages : List StateMessage

inductive ReporterAction where
  | manager (a : ManagerAction)
  /-- `item->SetDownloadError(result); SendStateChangedMessage(item)` -/
  | report

namespace DownloadReporter

/-- The manager has just been made. -/
def init (items : List DownloadItem) (files : Text → Option Text) (database : Database) :
    DownloadReporter :=
  ⟨.init items files database, fun _ => .noErr, none, []⟩

/-- The message about an item. -/
def messageOf (r : DownloadReporter) (m : Manager) (i : Nat) (byThread removed : Bool) :
    List StateMessage :=
  match m.items[i]? with
  | some item => [⟨i, item.state, r.errors i, item.bytesReceived, byThread, removed⟩]
  | none => []

/-- The messages of an action that leads to `m`. -/
def sends (r : DownloadReporter) (a : ManagerAction) (m : Manager) : List StateMessage :=
  match a, r.manager.place with
  | .thread _, .starting i => r.messageOf m i true false
  | .set call, _ => r.messageOf m call.item false false
  | .addItem _, _ =>
    if m.items.length ≠ r.manager.items.length then
      r.messageOf m r.manager.items.length false false
    else []
  | _, _ => []

/-- What is still to be reported after an action. -/
def leaves (r : DownloadReporter) (a : ManagerAction) : Option Unreported :=
  match a, r.manager.place with
  | .thread _, .returned i result => some ⟨i, reported result, false⟩
  | .thread _, .cleanUp _ => r.unreported.map fun u => { u with removed := true }
  | _, _ => r.unreported

/-- The thread does not go on before it has reported, but to clean up. -/
def busy (r : DownloadReporter) (a : ManagerAction) : Bool :=
  match a, r.manager.place with
  | .thread _, .cleanUp _ => false
  | .thread _, _ => r.unreported.isSome
  | _, _ => false

/-- The report is sent. -/
def report (r : DownloadReporter) : Option DownloadReporter :=
  match r.unreported, r.manager.place with
  | some _, .cleanUp _ => none
  | some u, _ =>
    let r := { r with
      errors := fun i => if i = u.item then u.error else r.errors i
      unreported := none }
    some { r with messages := r.messages ++ r.messageOf r.manager u.item true u.removed }
  | none, _ => none

/-- What follows an action. -/
def next (prefs : DownloadPrefs) (r : DownloadReporter) : ReporterAction → Option DownloadReporter
  | .manager a =>
    if r.busy a then none
    else
      (r.manager.next prefs a).map fun m =>
        { r with
          manager := m
          unreported := r.leaves a
          messages := r.messages ++ r.sends a m }
  | .report => r.report

end DownloadReporter

/-! ## What should be told -/

def DownloadItemState.Agrees (state : DownloadItemState) (error : Error) : Prop :=
  match state with
  | .done => error = .noErr
  | .error => error ≠ .noErr ∧ error ≠ .userCancel
  | .cancelled => error = .userCancel
  | .paused => error = .userCancel
  | _ => True

/-- What a message tells agrees. -/
def StateMessage.Agrees (m : StateMessage) : Prop := m.state.Agrees m.error

/-! ## The state of an item that is being downloaded -/

/-- The thread is between the start of `Download` and its end. -/
def Phase.inside : Phase → Bool
  | .checking _ => true
  | .working => true
  | .passing => true
  | .returned _ => true
  | _ => false

/-- Neither done nor in error: the thread alone makes an item so. -/
def DownloadItemState.Open (state : DownloadItemState) : Prop := state ≠ .done ∧ state ≠ .error

/-- Until `Download` has returned and its result has been looked at. -/
theorem Life.open {exit : Bool} {state state' : DownloadItemState} {phase phase' : Phase}
    (h : Life exit state phase state' phase') (hphase : ∀ result, phase ≠ .returned result)
    (hinside : phase'.inside = true) (hopen : phase.inside = true → state.Open) :
    state'.Open := by
  cases h with
  | away => cases hinside
  | find => cases hinside
  | pick => cases hinside
  | start => exact ⟨nofun, nofun⟩
  | cancel => exact hopen rfl
  | fail => exact ⟨nofun, nofun⟩
  | goOn => exact ⟨nofun, nofun⟩
  | work => exact hopen rfl
  | report => exact hopen rfl
  | more => exact hopen rfl
  | passOver => exact hopen rfl
  | done => exact absurd rfl (hphase _)
  | keep => exact absurd rfl (hphase _)
  | discard => exact absurd rfl (hphase _)
  | error => exact absurd rfl (hphase _)
  | clean => cases hinside

namespace Manager

variable {prefs : DownloadPrefs} {s t : Manager}

/-- The item that the thread downloads is open. -/
def LiveOpen (s : Manager) : Prop :=
  ∀ (i : Nat) (item : DownloadItem), (s.place.phase i).inside = true → s.items[i]? = some item →
    item.state.Open

theorem threadStep_at {e : ThreadEvent} {i : Nat} (hplace : s.place.item = some i)
    (hfound : s.place ≠ .found i) (h : s.threadStep prefs e = some t) :
    ∃ item, s.items[i]? = some item ∧ s.workOn prefs item s.place e = some t := by
  rcases threadStep_cases h with ⟨j, item, hj, hitem, hwork⟩ | ⟨-, -, -, -, -, hplaces⟩
  · obtain rfl := Option.some.inj (hplace.symm.trans hj)
    exact ⟨item, hitem, hwork⟩
  · rcases hplaces with ⟨j, hj, -⟩ | ⟨hnone, -⟩
    · rw [hj] at hplace hfound
      obtain rfl := Option.some.inj hplace
      exact absurd rfl hfound
    · rw [hnone] at hplace
      cases hplace

theorem threadStep_starting {e : ThreadEvent} {i : Nat} (hplace : s.place = .starting i)
    (h : s.threadStep prefs e = some t) :
    ∃ item, t.items[i]? = some item ∧ item.state = .downloading := by
  obtain ⟨item, hitem, hwork⟩ := threadStep_at (by rw [hplace]; rfl) (by rw [hplace]; nofun) h
  rw [hplace] at hwork
  cases e with
  | step =>
    rw [← Option.some.inj hwork]
    exact ⟨_, getElem?_set_self' hitem _, rfl⟩
  | _ => cases hwork

theorem threadStep_returned {e : ThreadEvent} {i : Nat} {result : Error}
    (hplace : s.place = .returned i result) (h : s.threadStep prefs e = some t) :
    ∃ item, s.items[i]? = some item ∧ t = s.finish i item result := by
  obtain ⟨item, hitem, hwork⟩ := threadStep_at (by rw [hplace]; rfl) (by rw [hplace]; nofun) h
  rw [hplace] at hwork
  cases e with
  | step => exact ⟨item, hitem, (Option.some.inj hwork).symm⟩
  | _ => cases hwork

theorem threadStep_cleanUp {e : ThreadEvent} {i : Nat} (hplace : s.place = .cleanUp i)
    (h : s.threadStep prefs e = some t) :
    ∃ item, s.items[i]? = some item ∧
      t = ((s.setItem i { item with bytesReceived := 0 }).setFile item none).goto .loop := by
  obtain ⟨item, hitem, hwork⟩ := threadStep_at (by rw [hplace]; rfl) (by rw [hplace]; nofun) h
  rw [hplace] at hwork
  cases e with
  | step => exact ⟨item, hitem, (Option.some.inj hwork).symm⟩
  | _ => cases hwork

/-- Anywhere else the thread neither ends a download nor begins to clean up. -/
theorem threadStep_other {e : ThreadEvent} (h : s.threadStep prefs e = some t)
    (hreturned : ∀ i result, s.place ≠ .returned i result) (hopen : s.LiveOpen) :
    (∀ i, t.place ≠ .cleanUp i) ∧ t.LiveOpen := by
  have hphase : ∀ i result, s.place.phase i ≠ .returned result := by
    intro i result heq
    unfold Place.phase at heq
    split at heq
    · cases heq
    · split at heq <;> cases heq
      rename_i hplace
      exact hreturned _ _ hplace
  constructor
  · intro i hclean
    rcases threadStep_cases h with ⟨j, item, hj, hitem, hwork⟩ | ⟨-, -, -, -, -, hplaces⟩
    · obtain ⟨hframe, hlife⟩ := workOn_acts prefs hitem hj hwork
      by_cases hij : i = j
      · subst hij
        obtain ⟨item', -, hlife, -⟩ := hlife
        rw [hclean, phase_cleanUp] at hlife
        generalize hbefore : s.place.phase i = phase at hlife
        generalize item.state = state at hlife
        generalize item'.state = state' at hlife
        cases hlife with
        | start _ hlive => cases hlive
        | goOn hlive => cases hlive
        | discard => exact hphase i _ hbefore
        | error => exact hphase i _ hbefore
      · refine hframe.place i hij ?_
        rw [hclean]
        rfl
    · rcases hplaces with ⟨j, -, ht⟩ | ⟨-, ht | ⟨j, item, -, -, ht⟩⟩
      · rw [hclean] at ht
        cases ht
      · rw [hclean] at ht
        cases ht
      · rw [hclean] at ht
        cases ht
  · intro i item' hinside hitem'
    have hlt : i < s.items.length := by
      rw [← (threadStep_frame h).1]
      exact (List.getElem?_eq_some_iff.mp hitem').1
    obtain ⟨item₂, hitem₂, hlife, -⟩ := threadStep_life h (List.getElem?_eq_getElem hlt)
    obtain rfl := Option.some.inj (hitem'.symm.trans hitem₂)
    exact hlife.open (hphase i) hinside fun hbefore => hopen i _ hbefore (List.getElem?_eq_getElem hlt)

/-- The thread has done with the item, but to clean up. -/
theorem finish_place (s : Manager) (i : Nat) (item : DownloadItem) (result : Error) :
    (s.finish i item result).place = .loop ∨ (s.finish i item result).place = .cleanUp i := by
  unfold finish
  split
  · exact .inl rfl
  · split
    · exact .inr rfl
    · exact .inl rfl
  · exact .inl rfl
  · exact .inr rfl

theorem finish_length (s : Manager) (i : Nat) (item : DownloadItem) (result : Error) :
    (s.finish i item result).items.length = s.items.length := by
  unfold finish
  split
  · exact List.length_set
  · split <;> rfl
  · exact List.length_set
  · exact List.length_set

/-- The state that an error leaves an item in agrees with it. -/
theorem finish_agrees {i : Nat} {item item' : DownloadItem} {result : Error}
    (hitem : s.items[i]? = some item) (hopen : item.state.Open) (hresult : result ≠ .noErr)
    (hitem' : (s.finish i item result).items[i]? = some item') :
    item'.state.Agrees (reported result) := by
  have hreported : reported result = result := if_neg hresult
  rw [hreported]
  have herror : result ≠ .userCancel →
      (s.items.set i { item with state := .error })[i]? = some item' →
        item'.state.Agrees result := by
    intro hcancel hset
    rw [getElem?_set_self' hitem] at hset
    rw [← Option.some.inj hset]
    exact ⟨hresult, hcancel⟩
  unfold finish at hitem'
  split at hitem'
  · exact absurd rfl hresult
  · have hsame : item' = item := by
      split at hitem' <;> exact Option.some.inj (hitem'.symm.trans hitem)
    rw [hsame]
    -- only the user has set its state since
    unfold DownloadItemState.Agrees
    split
    · exact absurd ‹_› hopen.1
    · exact absurd ‹_› hopen.2
    · rfl
    · rfl
    · trivial
  · exact herror nofun hitem'
  · rename_i hcancel _
    exact herror hcancel hitem'

end Manager

/-! ## What the user changes -/

def UserCall.sets : UserCall → DownloadItemState
  | .queue _ _ => .queued
  | .cancel _ allowResume => if allowResume then .paused else .cancelled

theorem UserCall.sets_open (call : UserCall) : call.sets.Open := by
  cases call with
  | queue i now => exact ⟨nofun, nofun⟩
  | cancel i allowResume => cases allowResume <;> exact ⟨nofun, nofun⟩

namespace Manager

variable {prefs : DownloadPrefs} {s t : Manager}

theorem set_sets {call : UserCall} (h : s.set call = some t) :
    ∃ item item', s.items[call.item]? = some item ∧ t.items[call.item]? = some item' ∧
      item'.state = call.sets ∧ item'.bytesReceived = item.bytesReceived := by
  cases call with
  | queue i now =>
    obtain ⟨item, hitem, rfl⟩ := Option.map_eq_some_iff.mp h
    exact ⟨item, _, hitem, getElem?_set_self' hitem _, rfl, rfl⟩
  | cancel i allowResume =>
    obtain ⟨item, hitem, rfl⟩ := Option.map_eq_some_iff.mp h
    exact ⟨item, _, hitem, getElem?_set_self' hitem _, rfl, rfl⟩

/-- What the user and the destructor leave of an item. -/
inductive UserLeaves (s : Manager) (a : ManagerAction) (i : Nat) (item' : DownloadItem) : Prop
  | new (hi : i = s.items.length) (hstate : item'.state = .queued)
  | same (hitem : s.items[i]? = some item')
  | set {item : DownloadItem} (call : UserCall) (ha : a = .set call) (hcall : call.item = i)
      (hitem : s.items[i]? = some item) (hstate : item'.state = call.sets)
      (hbytes : item'.bytesReceived = item.bytesReceived)
  | saved (ha : a = .save) (hplace : s.place = .start ∨ s.place = .ended)

/-- The user and the destructor leave the thread where it is. -/
theorem Stepped.user {a : ManagerAction} (h : Stepped prefs s a t)
    (ha : ∀ e, a ≠ .thread e) :
    t.place = s.place ∧ s.items.length ≤ t.items.length ∧
      ∀ i item', t.items[i]? = some item' → UserLeaves s a i item' := by
  cases h with
  | thread => exact absurd rfl (ha _)
  | known => exact ⟨rfl, le_rfl, fun _ _ hitem => .same hitem⟩
  | @added item =>
    refine ⟨rfl, ?_, fun i item' hitem' => ?_⟩
    · rw [List.length_append]
      exact Nat.le_add_right _ _
    · rcases Nat.lt_or_ge i s.items.length with hlt | hge
      · rw [List.getElem?_append_left hlt] at hitem'
        exact .same hitem'
      · rw [List.getElem?_append_right hge, List.getElem?_singleton] at hitem'
        split at hitem'
        · rename_i hzero
          rw [← Option.some.inj hitem']
          exact .new (by omega) rfl
        · cases hitem'
  | entered => exact ⟨rfl, le_rfl, fun _ _ hitem => .same hitem⟩
  | @set call _ _ _ hset =>
    obtain ⟨hlength, -, -, -, hplace, -⟩ := set_frame hset
    refine ⟨hplace, hlength.ge, fun i item' hitem' => ?_⟩
    by_cases hi : i = call.item
    · obtain ⟨item, item'', hitem, hitem'', hstate, hbytes⟩ := set_sets hset
      rw [← hi] at hitem hitem''
      obtain rfl := Option.some.inj (hitem'.symm.trans hitem'')
      exact .set call rfl hi.symm hitem hstate hbytes
    · rw [set_other hset hi] at hitem'
      exact .same hitem'
  | paused => exact ⟨rfl, le_rfl, fun _ _ hitem => .same hitem⟩
  | resumed => exact ⟨rfl, le_rfl, fun _ _ hitem => .same hitem⟩
  | exits => exact ⟨rfl, le_rfl, fun _ _ hitem => .same hitem⟩
  | stops => exact ⟨rfl, le_rfl, fun _ _ hitem => .same hitem⟩
  | saves _ _ hplace hsave =>
    refine ⟨rfl, ?_, fun _ _ _ => .saved rfl hplace⟩
    unfold saveResumableDownloadItems at hsave
    split at hsave
    · rw [saveItems_items hsave, List.length_map]
    · rw [← (Prod.mk.inj (Except.ok.inj hsave)).1]

theorem Stepped.liveOpen {a : ManagerAction} (h : Stepped prefs s a t)
    (ha : ∀ e, a ≠ .thread e) (hopen : s.LiveOpen) : t.LiveOpen := by
  obtain ⟨hplace, -, hitems⟩ := h.user ha
  intro i item' hinside hitem'
  rw [hplace] at hinside
  cases hitems i item' hitem' with
  | new _ hstate =>
    rw [hstate]
    exact ⟨nofun, nofun⟩
  | same hitem => exact hopen i item' hinside hitem
  | set call _ _ _ hstate =>
    rw [hstate]
    exact call.sets_open
  | saved _ hplaces =>
    rcases hplaces with hplaces | hplaces <;> rw [hplaces] at hinside <;> cases hinside

end Manager

/-! ## What every step keeps -/

namespace DownloadReporter

open Manager

variable {prefs : DownloadPrefs} {r r' : DownloadReporter}

/-- What an action is known to have done. -/
inductive Told (prefs : DownloadPrefs) (r : DownloadReporter) : ReporterAction → DownloadReporter → Prop
  | returned {e : ThreadEvent} {i : Nat} {result : Error} {item : DownloadItem}
      (hplace : r.manager.place = .returned i result) (hnone : r.unreported = none)
      (hitem : r.manager.items[i]? = some item) :
      Told prefs r (.manager (.thread e))
        { r with
          manager := r.manager.finish i item result
          unreported := some ⟨i, reported result, false⟩ }
  | cleans {e : ThreadEvent} {i : Nat} {item : DownloadItem}
      (hplace : r.manager.place = .cleanUp i) (hitem : r.manager.items[i]? = some item) :
      Told prefs r (.manager (.thread e))
        { r with
          manager :=
            ((r.manager.setItem i { item with bytesReceived := 0 }).setFile item none).goto .loop
          unreported := r.unreported.map fun u => { u with removed := true } }
  | works {e : ThreadEvent} {m : Manager} (h : r.manager.threadStep prefs e = some m)
      (hreturned : ∀ i result, r.manager.place ≠ .returned i result)
      (hnone : r.unreported = none) :
      Told prefs r (.manager (.thread e))
        { r with manager := m, messages := r.messages ++ r.sends (.thread e) m }
  | calls {a : ManagerAction} {m : Manager} (h : Stepped prefs r.manager a m)
      (ha : ∀ e, a ≠ .thread e) :
      Told prefs r (.manager a) { r with manager := m, messages := r.messages ++ r.sends a m }
  | reports {u : Unreported} (hu : r.unreported = some u)
      (hplace : ∀ i, r.manager.place ≠ .cleanUp i) {r₁ : DownloadReporter}
      (hr₁ : r₁.manager = r.manager ∧ r₁.unreported = none ∧ r₁.messages = r.messages)
      (herror : r₁.errors u.item = u.error) :
      Told prefs r .report
        { r₁ with messages := r₁.messages ++ r₁.messageOf r₁.manager u.item true u.removed }

theorem told_thread {e : ThreadEvent} {m : Manager} (hm : r.manager.threadStep prefs e = some m)
    (hbusy : r.busy (.thread e) = false) :
    Told prefs r (.manager (.thread e))
      { r with
        manager := m
        unreported := r.leaves (.thread e)
        messages := r.messages ++ r.sends (.thread e) m } := by
  have hnone : (∀ i, r.manager.place ≠ .cleanUp i) → r.unreported = none := by
    intro hplace
    unfold busy at hbusy
    split at hbusy
    · exact absurd ‹_› (hplace _)
    · exact Option.not_isSome_iff_eq_none.mp (Bool.eq_false_iff.mp hbusy)
    · rename_i hthread _
      exact absurd rfl (hthread e)
  by_cases hreturned : ∃ i result, r.manager.place = .returned i result
  · obtain ⟨i, result, hplace⟩ := hreturned
    obtain ⟨item, hitem, rfl⟩ := threadStep_returned hplace hm
    have hsends : r.sends (.thread e) (r.manager.finish i item result) = [] := by
      unfold sends
      rw [hplace]
    have hleaves : r.leaves (.thread e) = some ⟨i, reported result, false⟩ := by
      unfold leaves
      rw [hplace]
    rw [hsends, hleaves, List.append_nil]
    exact .returned hplace (hnone (by rw [hplace]; nofun)) hitem
  by_cases hclean : ∃ i, r.manager.place = .cleanUp i
  · obtain ⟨i, hplace⟩ := hclean
    obtain ⟨item, hitem, rfl⟩ := threadStep_cleanUp hplace hm
    have hsends : r.sends (.thread e)
        (((r.manager.setItem i { item with bytesReceived := 0 }).setFile item none).goto .loop) =
          [] := by
      unfold sends
      rw [hplace]
    have hleaves : r.leaves (.thread e) =
        r.unreported.map fun u => { u with removed := true } := by
      unfold leaves
      rw [hplace]
    rw [hsends, hleaves, List.append_nil]
    exact .cleans hplace hitem
  · have hreturned : ∀ i result, r.manager.place ≠ .returned i result :=
      fun i result heq => hreturned ⟨i, result, heq⟩
    have hclean : ∀ i, r.manager.place ≠ .cleanUp i := fun i heq => hclean ⟨i, heq⟩
    have hleaves : r.leaves (.thread e) = r.unreported := by
      unfold leaves
      split
      · exact absurd ‹_› (hreturned _ _)
      · exact absurd ‹_› (hclean _)
      · rfl
    rw [hleaves]
    exact .works hm hreturned (hnone hclean)

theorem next_told {a : ReporterAction} (h : r.next prefs a = some r') : Told prefs r a r' := by
  cases a with
  | report =>
    have hreport : r.report = some r' := h
    unfold report at hreport
    split at hreport
    · cases hreport
    · rename_i u hplace hu
      rw [← Option.some.inj hreport]
      exact .reports hplace (fun i heq => hu i heq) ⟨rfl, rfl, rfl⟩ (if_pos rfl)
    · cases hreport
  | manager a =>
    rw [next] at h
    split at h
    · cases h
    · rename_i hbusy
      obtain ⟨m, hm, rfl⟩ := Option.map_eq_some_iff.mp h
      have hcalls : (∀ e, a ≠ .thread e) → Told prefs r (.manager a)
          { r with
            manager := m
            unreported := r.leaves a
            messages := r.messages ++ r.sends a m } := by
        intro ha
        have hleaves : r.leaves a = r.unreported := by
          unfold leaves
          split
          · exact absurd rfl (ha _)
          · exact absurd rfl (ha _)
          · rfl
        rw [hleaves]
        exact .calls (next_stepped hm) ha
      cases a with
      | thread e => exact told_thread hm (Bool.eq_false_iff.mpr hbusy)
      | _ => exact hcalls nofun

/-- What is kept in every run. -/
structure Reports (r : DownloadReporter) : Prop where
  liveOpen : r.manager.LiveOpen
  place : ∀ u, r.unreported = some u →
    r.manager.place = .loop ∨ r.manager.place = .cleanUp u.item
  range : ∀ u, r.unreported = some u → u.item < r.manager.items.length
  cleaned : ∀ u item, r.unreported = some u → u.removed = true →
    r.manager.items[u.item]? = some item → item.bytesReceived = 0
  messages : ∀ m ∈ r.messages, m.removed = true → m.bytesReceived = 0

theorem mem_messageOf {m : Manager} {i : Nat} {byThread removed : Bool} {message : StateMessage}
    (h : message ∈ r.messageOf m i byThread removed) :
    ∃ item, m.items[i]? = some item ∧
      message = ⟨i, item.state, r.errors i, item.bytesReceived, byThread, removed⟩ := by
  unfold messageOf at h
  split at h
  · exact ⟨_, ‹_›, List.mem_singleton.mp h⟩
  · exact absurd h List.not_mem_nil

/-- What is told while the thread is not done with an item. -/
theorem mem_sends {a : ManagerAction} {m : Manager} {message : StateMessage}
    (h : message ∈ r.sends a m) :
    message.removed = false ∧ ∃ item, m.items[message.item]? = some item ∧
      message.state = item.state ∧ message.error = r.errors message.item ∧
      ((∃ e, a = .thread e ∧ r.manager.place = .starting message.item) ∨
        (∃ call, a = .set call ∧ message.item = call.item ∧ message.byThread = false) ∨
        (∃ item, a = .addItem item) ∧ message.item = r.manager.items.length ∧
          message.byThread = false) := by
  unfold sends at h
  split at h
  · obtain ⟨item, hitem, rfl⟩ := mem_messageOf h
    exact ⟨rfl, item, hitem, rfl, rfl, .inl ⟨_, rfl, ‹_›⟩⟩
  · obtain ⟨item, hitem, rfl⟩ := mem_messageOf h
    exact ⟨rfl, item, hitem, rfl, rfl, .inr (.inl ⟨_, rfl, rfl, rfl⟩)⟩
  · split at h
    · obtain ⟨item, hitem, rfl⟩ := mem_messageOf h
      exact ⟨rfl, item, hitem, rfl, rfl, .inr (.inr ⟨⟨_, rfl⟩, rfl, rfl⟩)⟩
    · exact absurd h List.not_mem_nil
  · exact absurd h List.not_mem_nil

theorem Reports.step {a : ReporterAction} (hr : Reports r) (h : Told prefs r a r') :
    Reports r' := by
  obtain ⟨hopen, hplaces, hrange, hcleaned, hmessages⟩ := hr
  cases h with
  | @returned e i result item hplace hnone hitem =>
    have hdone := finish_place r.manager i item result
    have hlength := finish_length r.manager i item result
    refine ⟨?_, ?_, ?_, ?_, hmessages⟩
    · intro j item' hinside
      rcases hdone with hdone | hdone
      · rw [hdone, phase_loop] at hinside
        cases hinside
      · rw [hdone] at hinside
        unfold Place.phase at hinside
        split at hinside <;> cases hinside
    · intro u hu
      rw [← Option.some.inj hu]
      exact hdone
    · intro u hu
      rw [← Option.some.inj hu]
      exact hlength ▸ (List.getElem?_eq_some_iff.mp hitem).1
    · intro u item' hu hremoved
      rw [← Option.some.inj hu] at hremoved
      cases hremoved
  | @cleans e i item hplace hitem =>
    refine ⟨?_, ?_, ?_, ?_, hmessages⟩
    · intro j item' hinside
      rw [goto_place, phase_loop] at hinside
      cases hinside
    · exact fun _ _ => .inl rfl
    · intro u hu
      obtain ⟨v, hv, rfl⟩ := Option.map_eq_some_iff.mp hu
      rw [goto_items, setFile_items, setItem_items, List.length_set]
      exact hrange v hv
    · intro u item' hu _ hitem'
      obtain ⟨v, hv, rfl⟩ := Option.map_eq_some_iff.mp hu
      have hi : v.item = i := by
        rcases hplaces v hv with hv | hv
        · rw [hplace] at hv
          cases hv
        · rw [hplace] at hv
          exact (Place.cleanUp.inj hv).symm
      rw [goto_items, setFile_items, setItem_items, hi, getElem?_set_self' hitem] at hitem'
      rw [← Option.some.inj hitem']
  | @works e m h hreturned hnone =>
    refine ⟨(threadStep_other h hreturned hopen).2, ?_, ?_, ?_, ?_⟩
    · exact fun u hu => absurd (hnone.symm.trans hu) nofun
    · exact fun u hu => absurd (hnone.symm.trans hu) nofun
    · exact fun u _ hu => absurd (hnone.symm.trans hu) nofun
    · intro message hmem hremoved
      rcases List.mem_append.mp hmem with hmem | hmem
      · exact hmessages message hmem hremoved
      · rw [(mem_sends hmem).1] at hremoved
        cases hremoved
  | @calls a m h ha =>
    obtain ⟨hplace, hlength, hitems⟩ := h.user ha
    refine ⟨h.liveOpen ha hopen, ?_, ?_, ?_, ?_⟩
    · exact fun u hu => hplace ▸ hplaces u hu
    · exact fun u hu => Nat.lt_of_lt_of_le (hrange u hu) hlength
    · intro u item' hu hremoved hitem'
      cases hitems u.item item' hitem' with
      | new hi => exact absurd (hrange u hu) (by rw [hi]; exact lt_irrefl _)
      | same hitem => exact hcleaned u item' hu hremoved hitem
      | set call _ _ hitem _ hbytes => exact hbytes.trans (hcleaned u _ hu hremoved hitem)
      | saved _ hends =>
        rcases hplaces u hu with hu | hu <;> rw [hu] at hends <;> rcases hends with h | h <;>
          cases h
    · intro message hmem hremoved
      rcases List.mem_append.mp hmem with hmem | hmem
      · exact hmessages message hmem hremoved
      · rw [(mem_sends hmem).1] at hremoved
        cases hremoved
  | @reports u hu hplace r₁ hr₁ herror =>
    obtain ⟨hmanager, hnone, hsame⟩ := hr₁
    refine ⟨hmanager ▸ hopen, ?_, ?_, ?_, ?_⟩
    · exact fun v hv => absurd (hnone.symm.trans hv) nofun
    · exact fun v hv => absurd (hnone.symm.trans hv) nofun
    · exact fun v _ hv => absurd (hnone.symm.trans hv) nofun
    · intro message hmem hremoved
      rcases List.mem_append.mp hmem with hmem | hmem
      · exact hmessages message (hsame ▸ hmem) hremoved
      · obtain ⟨item, hitem, rfl⟩ := mem_messageOf hmem
        exact hcleaned u item hu hremoved (hmanager ▸ hitem)

theorem reports_init (items : List DownloadItem) (files : Text → Option Text)
    (database : Database) : Reports (init items files database) := by
  have hnone : (init items files database).unreported = none := rfl
  refine ⟨?_, ?_, ?_, ?_, fun m hm => absurd hm List.not_mem_nil⟩
  · intro i item hinside
    cases hinside
  · exact fun u hu => absurd (hnone.symm.trans hu) nofun
  · exact fun u hu => absurd (hnone.symm.trans hu) nofun
  · exact fun u item hu => absurd (hnone.symm.trans hu) nofun

/-! ## When the messages agree -/

/-- The thread does not come back from a download that has succeeded, and no cancel is set
between the end of one that has failed and its message. -/
def threadFair (r : DownloadReporter) : ReporterAction → Bool
  | .manager (.thread _) =>
    match r.manager.place with
    | .returned _ result => result != .noErr
    | _ => true
  | .manager (.set (.cancel i _)) =>
    match r.unreported with
    | some u => u.item != i || u.error == .userCancel
    | none => true
  | _ => true

/-- A cancel is set only where the error of the item is that of a cancel already. -/
def userFair (r : DownloadReporter) : ReporterAction → Bool
  | .manager (.set (.cancel i _)) => r.errors i == .userCancel
  | _ => true

/-- The thread's messages agree, and the next one will. -/
structure Settled (r : DownloadReporter) : Prop where
  reports : Reports r
  unreported : ∀ u item, r.unreported = some u → r.manager.items[u.item]? = some item →
    item.state.Agrees u.error
  messages : ∀ m ∈ r.messages, m.byThread = true → m.Agrees

/-- The message about a download that starts says nothing of its error. -/
theorem starting_agrees {e : ThreadEvent} {m : Manager} {message : StateMessage}
    (hm : r.manager.threadStep prefs e = some m) (hmem : message ∈ r.sends (.thread e) m) :
    message.Agrees := by
  obtain ⟨-, item, hitem, hstate, -, hwhy⟩ := mem_sends hmem
  rcases hwhy with ⟨-, -, hplace⟩ | ⟨_, ha, -⟩ | ⟨⟨_, ha⟩, -⟩
  · obtain ⟨item', hitem', hdownloading⟩ := threadStep_starting hplace hm
    obtain rfl := Option.some.inj (hitem.symm.trans hitem')
    unfold StateMessage.Agrees
    rw [hstate, hdownloading]
    trivial
  · cases ha
  · cases ha

theorem Settled.step {a : ReporterAction} (hr : Settled r) (hfair : r.threadFair a = true)
    (h : Told prefs r a r') : Settled r' := by
  have hreports := hr.reports.step h
  obtain ⟨⟨hopen, hplaces, hrange, -, -⟩, hsettled, hmessages⟩ := hr
  cases h with
  | @returned e i result item hplace hnone hitem =>
    refine ⟨hreports, ?_, hmessages⟩
    intro u item' hu hitem'
    rw [← Option.some.inj hu] at hitem' ⊢
    have hresult : result ≠ .noErr := by
      unfold threadFair at hfair
      rw [hplace] at hfair
      exact bne_iff_ne.mp hfair
    have hinside : (r.manager.place.phase i).inside = true := by
      rw [hplace, phase_returned]
      rfl
    exact finish_agrees hitem (hopen i item hinside hitem) hresult hitem'
  | @cleans e i item hplace hitem =>
    refine ⟨hreports, ?_, hmessages⟩
    intro u item' hu hitem'
    obtain ⟨v, hv, rfl⟩ := Option.map_eq_some_iff.mp hu
    rw [goto_items, setFile_items, setItem_items] at hitem'
    by_cases hi : v.item = i
    · rw [hi, getElem?_set_self' hitem] at hitem'
      rw [← Option.some.inj hitem']
      exact hsettled v item hv (hi ▸ hitem)
    · rw [List.getElem?_set_ne (Ne.symm hi)] at hitem'
      exact hsettled v item' hv hitem'
  | @works e m h hreturned hnone =>
    refine ⟨hreports, fun u _ hu => absurd (hnone.symm.trans hu) nofun, ?_⟩
    intro message hmem hthread
    rcases List.mem_append.mp hmem with hmem | hmem
    · exact hmessages message hmem hthread
    · exact starting_agrees h hmem
  | @calls a m h ha =>
    refine ⟨hreports, ?_, ?_⟩
    · intro u item' hu hitem'
      cases (h.user ha).2.2 u.item item' hitem' with
      | new hi => exact absurd (hrange u hu) (by rw [hi]; exact lt_irrefl _)
      | same hitem => exact hsettled u item' hu hitem
      | set call hset hcall hitem hstate =>
        rw [hstate]
        cases call with
        | queue i now => trivial
        | cancel i allowResume =>
          rw [hset] at hfair
          unfold threadFair at hfair
          rw [hu] at hfair
          have hitems : u.item = i := hcall.symm
          have herror : u.error = .userCancel := by
            simpa [hitems] using hfair
          rw [herror]
          cases allowResume <;> rfl
      | saved _ hends =>
        rcases hplaces u hu with hu | hu <;> rw [hu] at hends <;> rcases hends with h | h <;>
          cases h
    · intro message hmem hthread
      rcases List.mem_append.mp hmem with hmem | hmem
      · exact hmessages message hmem hthread
      · obtain ⟨-, item, hitem, hstate, -, hwhy⟩ := mem_sends hmem
        rcases hwhy with ⟨e, rfl, -⟩ | ⟨_, -, -, hnot⟩ | ⟨-, -, hnot⟩
        · exact absurd rfl (ha e)
        · rw [hthread] at hnot
          cases hnot
        · rw [hthread] at hnot
          cases hnot
  | @reports u hu hplace r₁ hr₁ herror =>
    obtain ⟨hmanager, hnone, hsame⟩ := hr₁
    refine ⟨hreports, fun v _ hv => absurd (hnone.symm.trans hv) nofun, ?_⟩
    intro message hmem hthread
    rcases List.mem_append.mp hmem with hmem | hmem
    · exact hmessages message (hsame ▸ hmem) hthread
    · obtain ⟨item, hitem, rfl⟩ := mem_messageOf hmem
      unfold StateMessage.Agrees
      rw [herror]
      exact hsettled u item hu (hmanager ▸ hitem)

theorem calls_agree {a : ManagerAction} {m : Manager} {message : StateMessage}
    (h : Stepped prefs r.manager a m) (ha : ∀ e, a ≠ .thread e)
    (hfair : r.userFair (.manager a) = true) (hmem : message ∈ r.sends a m) : message.Agrees := by
  obtain ⟨-, item, hitem, hstate, herror, hwhy⟩ := mem_sends hmem
  unfold StateMessage.Agrees
  rw [hstate, herror]
  have hleaves := (h.user ha).2.2 message.item item hitem
  rcases hwhy with ⟨e, rfl, -⟩ | ⟨call, rfl, hi, -⟩ | ⟨⟨added, rfl⟩, hi, -⟩
  · exact absurd rfl (ha e)
  · cases h with
    | set _ _ hset =>
      obtain ⟨_, item', -, hitem', hsets, -⟩ := set_sets hset
      rw [hi] at hitem ⊢
      obtain rfl := Option.some.inj (hitem.symm.trans hitem')
      rw [hsets]
      cases call with
      | queue i now => trivial
      | cancel i allowResume =>
        have herrors : r.errors i = .userCancel := beq_iff_eq.mp hfair
        rw [show (UserCall.cancel i allowResume).item = i from rfl, herrors]
        cases allowResume <;> rfl
  · cases hleaves with
    | new _ hqueued =>
      rw [hqueued]
      trivial
    | same hold =>
      rw [hi, List.getElem?_eq_none le_rfl] at hold
      cases hold
    | set _ hset => cases hset
    | saved hsave => cases hsave

/-- Everything that has been told agrees. -/
structure AllAgree (r : DownloadReporter) : Prop where
  settled : Settled r
  messages : ∀ m ∈ r.messages, m.Agrees

theorem AllAgree.step {a : ReporterAction} (hr : AllAgree r) (hthread : r.threadFair a = true)
    (huser : r.userFair a = true) (h : Told prefs r a r') : AllAgree r' := by
  have hsettled := hr.settled.step hthread h
  obtain ⟨-, hmessages⟩ := hr
  refine ⟨hsettled, ?_⟩
  cases h with
  | returned => exact hmessages
  | cleans => exact hmessages
  | works h =>
    intro message hmem
    rcases List.mem_append.mp hmem with hmem | hmem
    · exact hmessages message hmem
    · exact starting_agrees h hmem
  | calls h ha =>
    intro message hmem
    rcases List.mem_append.mp hmem with hmem | hmem
    · exact hmessages message hmem
    · exact calls_agree h ha huser hmem
  | reports _ _ hr₁ =>
    intro message hmem
    rcases List.mem_append.mp hmem with hold | hnew
    · exact hmessages message (hr₁.2.2 ▸ hold)
    · obtain ⟨item, -, rfl⟩ := mem_messageOf hnew
      exact hsettled.messages _ hmem rfl

/-- Every run: the bytes of an item whose file has been removed are none.  When no download
succeeds and no cancel comes before the message about a download that has failed, what the
thread tells agrees; and so does everything that is told, when what is cancelled has been
cancelled before. -/
theorem messages_agree (prefs : DownloadPrefs) (items : List DownloadItem)
    (files : Text → Option Text) (database : Database) (as : List ReporterAction)
    (r : DownloadReporter) :
    (Run (Steps (next prefs)) (init items files database) as r →
      ∀ m ∈ r.messages, m.removed = true → m.bytesReceived = 0) ∧
    (Run (Guarded (fun r a => r.threadFair a = true) (Steps (next prefs)))
        (init items files database) as r →
      ∀ m ∈ r.messages, m.byThread = true → m.Agrees) ∧
    (Run (Guarded (fun r a => r.threadFair a = true ∧ r.userFair a = true) (Steps (next prefs)))
        (init items files database) as r →
      ∀ m ∈ r.messages, m.Agrees) := by
  have hinit := reports_init items files database
  have hsettled : Settled (init items files database) := by
    have hnone : (init items files database).unreported = none := rfl
    exact ⟨hinit, fun u item hu => absurd (hnone.symm.trans hu) nofun,
      fun m hm => absurd hm List.not_mem_nil⟩
  have hall : AllAgree (init items files database) :=
    ⟨hsettled, fun m hm => absurd hm List.not_mem_nil⟩
  refine ⟨?_, ?_, ?_⟩
  · intro hrun
    exact (hrun.invariant (fun _ _ _ hr hstep => hr.step (next_told hstep)) hinit).messages
  · intro hrun
    exact (hrun.invariant (fun _ _ _ hr hstep => hr.step hstep.1 (next_told hstep.2))
      hsettled).messages
  · intro hrun
    exact (hrun.invariant
      (fun _ _ _ hr hstep => hr.step hstep.1.1 hstep.1.2 (next_told hstep.2)) hall).messages

/-- The manager of one queued item. -/
def queuedReporter : DownloadReporter :=
  init queuedManager.items queuedManager.files queuedManager.database

/-- The item is downloaded, submitted to the database and reported. -/
def reportedActions : List ReporterAction :=
  finishingActions.map .manager ++ [.manager (.thread .step), .report]

/-- The request fails, and that is reported. -/
def failedActions : List ReporterAction :=
  requestActions.map .manager ++
    [.manager (.thread (.ready .failed)), .manager (.thread (.resources true (.ok ()))),
      .manager (.thread .step), .report]

/-- A run in which the request fails. -/
theorem messages_agree_failed :
    ∃ r, Run (Guarded (fun r a => r.threadFair a = true ∧ r.userFair a = true)
        (Steps (next ⟨false, []⟩))) queuedReporter failedActions r ∧
      r.messages.length = 2 ∧ ∀ m ∈ r.messages, m.Agrees := by
  have hexec : ((exec (guardedNext (fun r a => r.threadFair a = true ∧ r.userFair a = true)
      (next ⟨false, []⟩)) queuedReporter failedActions).map fun r => r.messages.length) =
        some 2 := by
    decide
  obtain ⟨r, hr, hlength⟩ := Option.map_eq_some_iff.mp hexec
  have hrun := Run.of_guarded_exec hr
  exact ⟨r, hrun, hlength, (messages_agree ⟨false, []⟩ queuedManager.items queuedManager.files
    queuedManager.database failedActions r).2.2 hrun⟩

/-- A download that has succeeded is reported as done, with an error. -/
theorem messages_agree_fails :
    ∃ r, Run (Steps (next ⟨false, []⟩)) queuedReporter reportedActions r ∧
      ∃ m ∈ r.messages, m.byThread = true ∧ m.state = .done ∧ m.error = .invalidParam ∧
        ¬ m.Agrees := by
  have hexec : (exec (next ⟨false, []⟩) queuedReporter reportedActions).map
      (fun r => r.messages.any fun m => m.byThread && m.state == .done &&
        m.error == .invalidParam) = some true := by
    decide
  obtain ⟨r, hr, hany⟩ := Option.map_eq_some_iff.mp hexec
  obtain ⟨m, hm, htold⟩ := List.any_eq_true.mp hany
  simp only [Bool.and_eq_true, beq_iff_eq] at htold
  obtain ⟨⟨hthread, hstate⟩, herror⟩ := htold
  refine ⟨r, Run.of_exec hr, m, hm, hthread, hstate, herror, ?_⟩
  unfold StateMessage.Agrees
  rw [hstate, herror]
  nofun

end DownloadReporter

end FreeAmp.Base
