/-
  Base/PlayerQuit.lean --- how the player ends, from `base/src/player.cpp`.

  `CMD_QuitPlayer` makes the player send every user interface a `CMD_Cleanup` and wait for
  as many `INFO_ReadyToDieUI` as there are interfaces.  Who has sent them it does not know.

      quits_of_run   it ends once, and behind the answers of all of them

  The events that neither function looks at are left out.
-/
import FreeAmp.Lib.Transition

namespace FreeAmp.Base

open FreeAmp.Lib

/-- The events of the end; the player does not see the sender of an answer. -/
inductive QuitEvent (υ : Type) where
  | quitPlayer
  | readyToDieUI (ui : υ)
  deriving DecidableEq

/-- `class Player` and its user interfaces, with what they have to do with the end. -/
structure QuittingPlayer (υ : Type) where
  uiList : List υ
  eventQueue : List (QuitEvent υ)
  imQuitting : Bool
  quitWaitingFor : Int
  /-- the calls of `m_pTermSem->Signal()` -/
  signals : Nat
  /-- `EventServiceThreadFunc` has returned -/
  ended : Bool
  /-- the interfaces with a `CMD_Cleanup` that they have not answered -/
  asked : List υ
  /-- those whose answers have been serviced -/
  answered : List υ

/-- `CMD_QuitPlayer` is sent, an interface has cleaned up, or an event is serviced. -/
inductive QuitAction (υ : Type) where
  | sendQuit
  | answer (ui : υ)
  | service

namespace QuittingPlayer

variable {υ : Type}

def init (uiList : List υ) : QuittingPlayer υ := ⟨uiList, [], false, 0, 0, false, [], []⟩

def acceptEvent (s : QuittingPlayer υ) (e : QuitEvent υ) : QuittingPlayer υ :=
  { s with eventQueue := s.eventQueue ++ [e] }

/-- `m_pTermSem->Signal(); return 1;` -/
def terminate (s : QuittingPlayer υ) : QuittingPlayer υ :=
  { s with signals := s.signals + 1, ended := true }

def quit (s : QuittingPlayer υ) : QuittingPlayer υ :=
  let s := { s with
    imQuitting := true, quitWaitingFor := s.uiList.length, asked := s.asked ++ s.uiList }
  if s.quitWaitingFor = 0 then s.terminate else s

def readyToDieUI (s : QuittingPlayer υ) (ui : υ) : QuittingPlayer υ :=
  let s := { s with answered := ui :: s.answered }
  if !s.imQuitting then s
  else
    let s := { s with quitWaitingFor := s.quitWaitingFor - 1 }
    if s.quitWaitingFor > 0 then s else s.terminate

def serviceEvent (s : QuittingPlayer υ) : QuitEvent υ → QuittingPlayer υ
  | .quitPlayer => s.quit
  | .readyToDieUI ui => s.readyToDieUI ui

variable [DecidableEq υ]

def next (s : QuittingPlayer υ) : QuitAction υ → Option (QuittingPlayer υ)
  | .sendQuit => some (s.acceptEvent .quitPlayer)
  | .answer ui =>
    if ui ∈ s.asked then
      some ({ s with asked := s.asked.erase ui }.acceptEvent (.readyToDieUI ui))
    else none
  | .service =>
    match s.eventQueue with
    | [] => none
    | e :: events =>
      if s.ended then none else some (serviceEvent { s with eventQueue := events } e)

/-- The player is told to quit once. -/
def Once (s : QuittingPlayer υ) (a : QuitAction υ) : Prop :=
  a = .sendQuit → s.imQuitting = false ∧ .quitPlayer ∉ s.eventQueue

instance (s : QuittingPlayer υ) (a : QuitAction υ) : Decidable (Once s a) :=
  match a with
  | .sendQuit => decidable_of_iff (s.imQuitting = false ∧ .quitPlayer ∉ s.eventQueue)
      ⟨fun h _ => h, fun h => h rfl⟩
  | .answer _ => isTrue nofun
  | .service => isTrue nofun

/-! ## The end -/

/-- Before `CMD_QuitPlayer` is serviced. -/
structure Running (uis : List υ) (s : QuittingPlayer υ) : Prop where
  uiList : s.uiList = uis
  imQuitting : s.imQuitting = false
  queue : s.eventQueue = [] ∨ s.eventQueue = [.quitPlayer]
  asked : s.asked = []
  answered : s.answered = []
  ended : s.ended = false
  signals : s.signals = 0

/-- Behind it every interface is still to answer, or its answer is in the queue, or it has been
serviced. -/
structure Waiting (uis sent : List υ) (s : QuittingPlayer υ) : Prop where
  uiList : s.uiList = uis
  imQuitting : s.imQuitting = true
  queue : s.eventQueue = sent.map .readyToDieUI
  all : (s.asked ++ (sent ++ s.answered)).Perm uis
  quitWaitingFor : s.quitWaitingFor = ↑(s.asked.length + sent.length)
  ended : s.ended = true ↔ s.asked.length + sent.length = 0
  signals : s.signals = s.ended.toNat

def Inv (uis : List υ) (s : QuittingPlayer υ) : Prop :=
  Running uis s ∨ ∃ sent, Waiting uis sent s

variable {uis sent : List υ} {s t : QuittingPlayer υ} {ui : υ}

theorem Running.quit (h : Running uis s) : Waiting uis [] (quit { s with eventQueue := [] }) := by
  obtain ⟨hlist, -, -, hasked, hanswered, hended, hsignals⟩ := h
  unfold QuittingPlayer.quit
  dsimp only
  rw [hasked, hanswered, hlist, List.nil_append]
  have hall : (uis ++ ([] ++ [])).Perm uis := by simp
  split
  · rename_i hnone
    refine ⟨rfl, rfl, rfl, hall, rfl, ?_, ?_⟩
    · exact ⟨fun _ => Int.ofNat_inj.mp hnone, fun _ => rfl⟩
    · rw [terminate, hsignals]
      rfl
  · rename_i hsome
    refine ⟨rfl, rfl, rfl, hall, rfl, ?_, ?_⟩
    · rw [hended]
      exact ⟨nofun, fun hlen => absurd (congrArg Int.ofNat hlen) hsome⟩
    · rw [hended, hsignals]
      rfl

theorem Waiting.answer (h : Waiting uis sent s) (hui : ui ∈ s.asked) :
    Waiting uis (sent ++ [ui])
      ({ s with asked := s.asked.erase ui }.acceptEvent (.readyToDieUI ui)) := by
  have hlen : (s.asked.erase ui).length + (sent ++ [ui]).length =
      s.asked.length + sent.length := by
    have hpos := List.length_pos_of_mem hui
    rw [List.length_erase_of_mem hui, List.length_append, List.length_singleton]
    omega
  have hmoved : (s.asked.erase ui ++ (sent ++ [ui] ++ s.answered)).Perm
      (ui :: s.asked.erase ui ++ (sent ++ s.answered)) := by
    rw [List.append_assoc, List.singleton_append, List.cons_append]
    exact (List.perm_middle.append_left _).trans List.perm_middle
  refine ⟨h.uiList, h.imQuitting, ?_, ?_, ?_, ?_, h.signals⟩
  · rw [acceptEvent, h.queue, List.map_append]
    rfl
  · exact hmoved.trans (((List.perm_cons_erase hui).symm.append_right _).trans h.all)
  · exact h.quitWaitingFor.trans (congrArg Int.ofNat hlen.symm)
  · exact h.ended.trans (Iff.of_eq (congrArg (· = 0) hlen.symm))

theorem Waiting.ready (h : Waiting uis (ui :: sent) s) (hended : s.ended = false) :
    Waiting uis sent (readyToDieUI { s with eventQueue := sent.map .readyToDieUI } ui) := by
  obtain ⟨hlist, hquitting, -, hall, hwaiting, -, hsignals⟩ := h
  have hless : s.quitWaitingFor - 1 = ↑(s.asked.length + sent.length) := by
    rw [hwaiting, List.length_cons]
    omega
  have hall' : (s.asked ++ (sent ++ ui :: s.answered)).Perm uis :=
    (List.perm_middle.append_left _).trans hall
  unfold readyToDieUI
  dsimp only
  rw [hquitting, hless]
  split
  · rename_i hbad
    exact absurd hbad nofun
  · split
    · rename_i hmore
      refine ⟨hlist, rfl, rfl, hall', rfl, ?_, hsignals⟩
      rw [hended]
      refine ⟨nofun, fun hlen => ?_⟩
      have hzero : s.asked.length + sent.length = 0 := hlen
      omega
    · rename_i hnone
      refine ⟨hlist, rfl, rfl, hall', rfl, ?_, ?_⟩
      · exact ⟨fun _ => by show s.asked.length + sent.length = 0; omega, fun _ => rfl⟩
      · rw [terminate, hsignals, hended]
        rfl

theorem Inv.step {a : QuitAction υ} (h : Inv uis s) (honce : Once s a)
    (hstep : s.next a = some t) : Inv uis t := by
  cases a with
  | sendQuit =>
    obtain ⟨hquitting, hqueue⟩ := honce rfl
    rw [← Option.some.inj hstep]
    rcases h with h | ⟨sent, h⟩
    · rcases h.queue with hnone | hone
      · exact .inl { h with queue := .inr (by rw [acceptEvent, hnone]; rfl) }
      · exact absurd (hone ▸ List.mem_singleton_self _) hqueue
    · exact absurd (hquitting.symm.trans h.imQuitting) nofun
  | answer ui =>
    rw [next] at hstep
    split at hstep
    · rename_i hui
      rw [← Option.some.inj hstep]
      rcases h with h | ⟨sent, h⟩
      · exact absurd (h.asked ▸ hui) List.not_mem_nil
      · exact .inr ⟨_, h.answer hui⟩
    · cases hstep
  | service =>
    rw [next] at hstep
    rcases h with h | ⟨sent, h⟩
    · rcases h.queue with hnone | hone
      · rw [hnone] at hstep
        cases hstep
      · rw [hone] at hstep
        dsimp only at hstep
        rw [if_neg (Bool.eq_false_iff.mp h.ended)] at hstep
        obtain rfl := Option.some.inj hstep
        exact .inr ⟨[], h.quit⟩
    · rw [h.queue] at hstep
      cases sent with
      | nil => cases hstep
      | cons ui sent =>
        rw [List.map_cons] at hstep
        dsimp only at hstep
        split at hstep
        · cases hstep
        · rename_i hended
          obtain rfl := Option.some.inj hstep
          exact .inr ⟨sent, h.ready (Bool.eq_false_iff.mpr hended)⟩

/-- In every order of these steps the player ends at most once; then every interface has
answered once; and until then an event or an answer is still to come. -/
theorem quits_of_run {as : List (QuitAction υ)}
    (hrun : Run (Guarded Once (Steps next)) (init uis) as s) :
    s.signals = s.ended.toNat ∧ (s.ended = true → s.answered.Perm uis ∧ s.eventQueue = []) ∧
      (s.imQuitting = true → s.ended = false → s.eventQueue ≠ [] ∨ s.asked ≠ []) := by
  have hinv : Inv uis s := hrun.invariant (fun _ _ _ h hstep => h.step hstep.1 hstep.2)
    (.inl ⟨rfl, rfl, .inl rfl, rfl, rfl, rfl, rfl⟩)
  rcases hinv with h | ⟨sent, h⟩
  · refine ⟨by rw [h.signals, h.ended]; rfl, fun hended => ?_, fun hquitting => ?_⟩
    · exact absurd (h.ended.symm.trans hended) nofun
    · exact absurd (h.imQuitting.symm.trans hquitting) nofun
  · refine ⟨h.signals, fun hended => ?_, fun _ hended => ?_⟩
    · have hnone := Nat.add_eq_zero_iff.mp (h.ended.mp hended)
      have hall := h.all
      have hqueue := h.queue
      rw [List.length_eq_zero_iff.mp hnone.1, List.length_eq_zero_iff.mp hnone.2] at hall
      rw [List.length_eq_zero_iff.mp hnone.2] at hqueue
      exact ⟨hall, hqueue⟩
    · by_contra hnot
      rw [not_or, not_not, not_not, h.queue, List.map_eq_nil_iff] at hnot
      have hover := h.ended.mpr (by rw [hnot.1, hnot.2]; rfl)
      exact absurd (hended.symm.trans hover) nofun

/-- Both of two interfaces answer. -/
def twoAnswers : List (QuitAction Nat) :=
  [.sendQuit, .service, .answer 1, .answer 0, .service, .service]

theorem quits_of_run_two : ∃ s, exec (guardedNext Once next) (init [0, 1]) twoAnswers = some s ∧
    s.ended = true ∧ s.answered.Perm [0, 1] :=
  ⟨_, rfl, rfl,
    ((@quits_of_run Nat _ [0, 1] _ twoAnswers (Run.of_guarded_exec rfl)).2.1 rfl).1⟩

/-- Told to quit twice, it takes two answers of one interface for the answers of both. -/
example : (exec next (init [0, 1]) [.sendQuit, .service, .sendQuit, .service, .answer 0, .answer 0,
    .service, .service]).map (fun s => (s.ended, s.answered)) = some (true, [0, 0]) := by
  decide

end QuittingPlayer

end FreeAmp.Base
