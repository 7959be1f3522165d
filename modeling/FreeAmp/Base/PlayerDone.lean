/-
  Base/PlayerDone.lean --- an output object that is done and the events that are serviced
  before its `INFO_DoneOutputting`, from `base/src/player.cpp`.

  `DoneOutputting` counts the current item, deletes the current output object and goes on
  from the current item, whichever has sent the event.  It is right about all three when
  nothing moves the current item or makes an output object between the end of the old one
  and its event, `Timely`.
-/
import FreeAmp.Base.Player

namespace FreeAmp.Base

open FreeAmp.Lib

/-- It is an `INFO_DoneOutputting`. -/
def PlayerEvent.isDone : PlayerEvent → Bool
  | .doneOutputting _ _ => true
  | _ => false

/-- What can happen. -/
inductive PlayerAction (ι : Type) where
  /-- the current item of the playlist is changed -/
  | change (current : Option ι)
  /-- the user sends an event -/
  | send (e : PlayerEvent)
  /-- the worker of the output object sends its `INFO_DoneOutputting` and returns -/
  | finish (dueToError : Bool)
  /-- the next event is serviced -/
  | service (a : Answers ι)

namespace Player

section System

variable {ι : Type} [DecidableEq ι]

omit [DecidableEq ι] in
/-- What follows an action. -/
def next (s : Player ι) : PlayerAction ι → Option (Player ι)
  | .change current => some { s with current := current }
  | .send e => if e.isDone then none else some (s.acceptEvent e)
  | .finish dueToError =>
    match s.pmo with
    | some p =>
      if p ∈ s.finished then none
      else some ({ s with finished := s.finished ++ [p] }.acceptEvent (.doneOutputting dueToError p))
    | none => none
  | .service a =>
    match s.queue with
    | [] => none
    | e :: queue =>
      match { s with queue := queue }.serviceEvent e a with
      | .ok t => some t
      | .error _ => none

/-! ## The condition -/

omit [DecidableEq ι] in
/-- The event makes an output object. -/
def makesOutput (s : Player ι) : PlayerEvent → Answers ι → Bool
  | .play, a => s.playerState != .playing && s.pmo.isNone && s.current.isSome &&
      a.creation == .created
  | .playPaused, a => (s.playerState == .playing || s.pmo.isNone) && s.current.isSome &&
      a.creation == .created
  | _, _ => false

/-- The event moves the current item. -/
def movesCurrent (s : Player ι) : PlayerEvent → Answers ι → Bool
  | .next, a => a.moved != s.current
  | .previous, a => a.moved != s.current
  | _, _ => false

/-- An output object is done while its item is the current one, and until its event is serviced
the current item stays and no output object is made. -/
def timely (s : Player ι) : PlayerAction ι → Bool
  | .change current => !s.queue.any PlayerEvent.isDone || current == s.current
  | .send _ => true
  | .finish _ => s.pmo.bind (s.outputs[·]?) == s.current
  | .service a =>
    match s.queue with
    | [] => true
    | e :: queue =>
      !queue.any PlayerEvent.isDone || (!s.makesOutput e a && !s.movesCurrent e a)

end System

/-- Only the item of the output object that was done is counted; it goes on from its own item, once,
and deletes no other output object. -/
structure RightlyDone {ι : Type} (s : Player ι) : Prop where
  counted : ∀ x ∈ s.counted, s.outputs[x.2]? = some x.1
  once : (s.advances.map Advance.sender).Nodup
  advances : ∀ x ∈ s.advances, x.item = s.outputs[x.sender]? ∧
    (x.pmo = none ∨ x.pmo = some x.sender)

/-- The output object that is waiting for its event to be serviced. -/
structure Waiting {ι : Type} (s : Player ι) (p : Nat) : Prop where
  item : s.outputs[p]? = s.current
  made : p < s.outputs.length
  pmo : s.pmo = none ∨ s.pmo = some p
  finished : p ∈ s.finished
  fresh : p ∉ s.advances.map Advance.sender

/-- It holds between the steps. -/
structure InTime {ι : Type} (s : Player ι) : Prop where
  rightly : RightlyDone s
  made : ∀ p, s.pmo = some p → p < s.outputs.length
  known : ∀ x ∈ s.counted, x.2 < s.outputs.length
  waiting : ∀ dueToError p, .doneOutputting dueToError p ∈ s.queue → Waiting s p
  single : (s.queue.filter PlayerEvent.isDone).length ≤ 1
  spent : ∀ p ∈ s.advances.map Advance.sender, p ∈ s.finished ∧ p < s.outputs.length

/-! ## The events of the user -/

/-- What an event that is not an `INFO_DoneOutputting` does. -/
structure Others {ι : Type} [DecidableEq ι] (s : Player ι) (e : PlayerEvent) (a : Answers ι)
    (t : Player ι) : Prop where
  counted : t.counted = s.counted
  advances : t.advances = s.advances
  finished : t.finished = s.finished
  queue : ∃ es, t.queue = s.queue ++ es ∧ ∀ e ∈ es, e.isDone = false
  output : (t.outputs = s.outputs ∧ (t.pmo = none ∨ t.pmo = s.pmo)) ∨
    (s.makesOutput e a = true ∧ ∃ item, t.outputs = s.outputs ++ [item] ∧
      t.pmo = some s.outputs.length)
  current : t.current = s.current ∨ s.movesCurrent e a = true

section Events

variable {ι : Type} [DecidableEq ι] {s t : Player ι} {e : PlayerEvent} {a : Answers ι}

/-- An event that only deletes the output object, or leaves it. -/
theorem others_of_same (hcounted : t.counted = s.counted) (hadvances : t.advances = s.advances)
    (hfinished : t.finished = s.finished) (hqueue : t.queue = s.queue)
    (houtputs : t.outputs = s.outputs) (hpmo : t.pmo = none ∨ t.pmo = s.pmo)
    (hcurrent : t.current = s.current) : Others s e a t where
  counted := hcounted
  advances := hadvances
  finished := hfinished
  queue := ⟨[], by rw [hqueue, List.append_nil], fun _ h => absurd h List.not_mem_nil⟩
  output := .inl ⟨houtputs, hpmo⟩
  current := .inl hcurrent

theorem createPMO_others {item : ι} (h : s.createPMO item a = .ok t) :
    t.counted = s.counted ∧ t.advances = s.advances ∧ t.finished = s.finished ∧
      t.current = s.current ∧ (∃ es, t.queue = s.queue ++ es ∧ ∀ e ∈ es, e.isDone = false) ∧
      ((t.outputs = s.outputs ∧ t.pmo = none) ∨ (a.creation = .created ∧
        t.outputs = s.outputs ++ [item] ∧ t.pmo = some s.outputs.length)) := by
  unfold createPMO at h
  dsimp only at h
  cases hcreation : a.creation with
  | noInput =>
    rw [hcreation] at h
    obtain rfl := Except.ok.inj h
    exact ⟨rfl, rfl, rfl, rfl, ⟨[.message], rfl, by decide⟩, .inl ⟨rfl, rfl⟩⟩
  | nullPlugin =>
    rw [hcreation] at h
    exact absurd h nofun
  | fileNotFound =>
    rw [hcreation] at h
    obtain rfl := Except.ok.inj h
    refine ⟨rfl, rfl, rfl, rfl, ⟨[.message, .play], ?_, by decide⟩, .inl ⟨rfl, rfl⟩⟩
    unfold acceptEvent deletePMO
    exact List.append_assoc s.queue [.message] [.play]
  | failed =>
    rw [hcreation] at h
    obtain rfl := Except.ok.inj h
    exact ⟨rfl, rfl, rfl, rfl, ⟨[], (List.append_nil _).symm, by decide⟩, .inl ⟨rfl, rfl⟩⟩
  | created =>
    rw [hcreation] at h
    obtain rfl := Except.ok.inj h
    exact ⟨rfl, rfl, rfl, rfl, ⟨[], (List.append_nil _).symm, by decide⟩,
      .inr ⟨rfl, rfl, rfl⟩⟩

theorem others_refl : Others s e a s :=
  others_of_same rfl rfl rfl rfl rfl (.inr rfl) rfl

/-- What is done after the event has been served, when it is only to set the state. -/
theorem Others.setState (h : Others s e a t) (state : PlayerState) :
    Others s e a (t.setState state) where
  counted := h.counted
  advances := h.advances
  finished := h.finished
  queue := h.queue
  output := h.output
  current := h.current

theorem startPMO_others {u : Player ι} (h : u.startPMO a = .ok t)
    (hu : u = s ∨ u = s.deletePMO.setState .stopped)
    (hmakes : u.pmo = none → s.current.isSome → a.creation = .created →
      s.makesOutput e a = true) : Others s e a t := by
  have hcounted : u.counted = s.counted := by rcases hu with rfl | rfl <;> rfl
  have hadvances : u.advances = s.advances := by rcases hu with rfl | rfl <;> rfl
  have hfinished : u.finished = s.finished := by rcases hu with rfl | rfl <;> rfl
  have hqueue : u.queue = s.queue := by rcases hu with rfl | rfl <;> rfl
  have houtputs : u.outputs = s.outputs := by rcases hu with rfl | rfl <;> rfl
  have hcurrent : u.current = s.current := by rcases hu with rfl | rfl <;> rfl
  have hpmo : u.pmo = none ∨ u.pmo = s.pmo := by
    rcases hu with rfl | rfl
    · exact .inr rfl
    · exact .inl rfl
  unfold startPMO at h
  split at h
  · rename_i item hnone hitem
    obtain ⟨hc, ha, hf, hcur, hq, ho⟩ := createPMO_others h
    refine ⟨hc.trans hcounted, ha.trans hadvances, hf.trans hfinished, ?_, ?_,
      .inl (hcur.trans hcurrent)⟩
    · rw [hqueue] at hq
      exact hq
    · rcases ho with ⟨ho, hp⟩ | ⟨hcreated, ho, hp⟩
      · exact .inl ⟨ho.trans houtputs, .inl hp⟩
      · rw [houtputs] at ho hp
        have hsome : s.current.isSome := by
          rw [← hcurrent, hitem]
          rfl
        exact .inr ⟨hmakes hnone hsome hcreated, item, ho, hp⟩
  · obtain rfl := Except.ok.inj h
    exact others_of_same hcounted hadvances hfinished hqueue houtputs hpmo hcurrent

theorem play_others {paused : Bool} (h : s.play paused a = .ok t)
    (he : e = if paused then .playPaused else .play) : Others s e a t := by
  unfold play at h
  split at h
  · obtain rfl := Except.ok.inj h
    exact others_refl
  · rename_i hplays
    dsimp only at h
    obtain ⟨v, hv, h⟩ := bind_eq_ok.mp h
    have hstart : Others s e a v := by
      refine startPMO_others hv ?_ ?_
      · split
        · exact .inr rfl
        · exact .inl rfl
      · intro hnone hsome hcreated
        cases paused with
        | true =>
          have hidle : s.playerState = .playing ∨ s.pmo = none := by
            by_cases hstate : s.playerState = .playing
            · exact .inl hstate
            · rw [if_neg hstate] at hnone
              exact .inr hnone
          rw [he, if_pos rfl]
          rcases hidle with hidle | hidle <;> simp [makesOutput, hidle, hsome, hcreated]
        | false =>
          have hstate : s.playerState ≠ .playing := fun hstate => hplays ⟨hstate, rfl⟩
          rw [if_neg hstate] at hnone
          rw [he, if_neg Bool.false_ne_true]
          simp [makesOutput, hstate, hnone, hsome, hcreated]
    split at h
    · obtain rfl := Except.ok.inj h
      exact hstart
    · split at h
      · obtain rfl := Except.ok.inj h
        exact hstart.setState .paused
      · obtain ⟨_, _, h⟩ := bind_eq_ok.mp h
        obtain rfl := Except.ok.inj h
        exact hstart.setState .playing

theorem goto_others (he : s.movesCurrent e a = (a.moved != s.current)) :
    Others s e a (s.goto a) := by
  have hcurrent : a.moved = s.current ∨ s.movesCurrent e a = true := by
    by_cases h : a.moved = s.current
    · exact .inl h
    · rw [he]
      exact .inr (bne_iff_ne.mpr h)
  unfold goto
  cases s.playerState with
  | stopped =>
    exact ⟨rfl, rfl, rfl, ⟨[], (List.append_nil _).symm, by decide⟩, .inl ⟨rfl, .inr rfl⟩, hcurrent⟩
  | paused =>
    refine ⟨rfl, rfl, rfl, ⟨[.stop, .playPaused], ?_, by decide⟩, .inl ⟨rfl, .inr rfl⟩, hcurrent⟩
    exact List.append_assoc s.queue [.stop] [.playPaused]
  | playing =>
    refine ⟨rfl, rfl, rfl, ⟨[.stop, .play], ?_, by decide⟩, .inl ⟨rfl, .inr rfl⟩, hcurrent⟩
    exact List.append_assoc s.queue [.stop] [.play]

theorem pause_others (h : s.pause = .ok t) : Others s e a t := by
  unfold pause at h
  split at h
  · obtain ⟨_, _, h⟩ := bind_eq_ok.mp h
    obtain rfl := Except.ok.inj h
    exact others_refl.setState .paused
  · obtain rfl := Except.ok.inj h
    exact others_refl

theorem unPause_others (h : s.unPause = .ok t) : Others s e a t := by
  unfold unPause at h
  split at h
  · obtain ⟨_, _, h⟩ := bind_eq_ok.mp h
    obtain rfl := Except.ok.inj h
    exact others_refl.setState .playing
  · obtain rfl := Except.ok.inj h
    exact others_refl

theorem togglePause_others (h : s.togglePause = .ok t) : Others s e a t := by
  unfold togglePause at h
  split at h
  · split at h
    · exact pause_others h
    · exact unPause_others h
    · obtain rfl := Except.ok.inj h
      exact others_refl
  · obtain rfl := Except.ok.inj h
    exact others_refl

/-- What an event that is not an `INFO_DoneOutputting` does. -/
theorem serviceEvent_others (he : e.isDone = false) (h : s.serviceEvent e a = .ok t) :
    Others s e a t := by
  cases e with
  | doneOutputting dueToError sender => exact absurd he nofun
  | stop =>
    obtain rfl := Except.ok.inj h
    exact others_of_same rfl rfl rfl rfl rfl (.inl rfl) rfl
  | play => exact play_others h rfl
  | playPaused => exact play_others h rfl
  | next =>
    obtain rfl := Except.ok.inj h
    exact goto_others rfl
  | previous =>
    obtain rfl := Except.ok.inj h
    exact goto_others rfl
  | pause => exact pause_others h
  | unPause => exact unPause_others h
  | togglePause => exact togglePause_others h
  | message =>
    obtain rfl := Except.ok.inj h
    exact others_refl

theorem Others.outputs_getElem? (h : Others s e a t) {p : Nat} (hp : p < s.outputs.length) :
    t.outputs[p]? = s.outputs[p]? ∧ p < t.outputs.length := by
  rcases h.output with ⟨ho, _⟩ | ⟨_, item, ho, _⟩
  · rw [ho]
    exact ⟨rfl, hp⟩
  · rw [ho, List.length_append]
    exact ⟨List.getElem?_append_left hp, by omega⟩

end Events

/-! ## The steps -/

section Steps

variable {ι : Type} [DecidableEq ι] {s t : Player ι} {a : Answers ι}

omit [DecidableEq ι] in
theorem not_any_isDone (h : (s.queue.any PlayerEvent.isDone) = false) {dueToError : Bool} {p : Nat} :
    .doneOutputting dueToError p ∉ s.queue := by
  intro hp
  rw [List.any_eq_false] at h
  exact h _ hp rfl

omit [DecidableEq ι] in
theorem any_isDone_iff : s.queue.any PlayerEvent.isDone = false ↔
    s.queue.filter PlayerEvent.isDone = [] := by
  rw [List.any_eq_false, List.filter_eq_nil_iff]

omit [DecidableEq ι] in
theorem InTime.tail {e : PlayerEvent} {queue : List PlayerEvent} (h : InTime s)
    (hqueue : s.queue = e :: queue) : InTime { s with queue := queue } where
  rightly := ⟨h.rightly.counted, h.rightly.once, h.rightly.advances⟩
  made := h.made
  known := h.known
  waiting := by
    intro dueToError p hp
    have hw := h.waiting dueToError p (hqueue ▸ List.mem_cons_of_mem e hp)
    exact ⟨hw.item, hw.made, hw.pmo, hw.finished, hw.fresh⟩
  single := by
    refine Nat.le_trans (List.Sublist.length_le ?_) h.single
    rw [hqueue]
    exact (List.sublist_cons_self e queue).filter _
  spent := h.spent

omit [DecidableEq ι] in
theorem InTime.single_done {dueToError : Bool} {p : Nat} {queue : List PlayerEvent} (h : InTime s)
    (hqueue : s.queue = .doneOutputting dueToError p :: queue) :
    queue.any PlayerEvent.isDone = false := by
  have hsingle := h.single
  rw [hqueue, List.filter_cons_of_pos rfl, List.length_cons] at hsingle
  rw [List.any_eq_false]
  have hnil : queue.filter PlayerEvent.isDone = [] := List.length_eq_zero_iff.mp (by omega)
  exact List.filter_eq_nil_iff.mp hnil

/-- An event of the user keeps it, when it comes to no output object and moves nothing while an
output object waits. -/
theorem InTime.others {e : PlayerEvent} (h : InTime s) (ho : Others s e a t)
    (htimely : s.queue.any PlayerEvent.isDone = true →
      s.makesOutput e a = false ∧ s.movesCurrent e a = false) : InTime t := by
  obtain ⟨es, hqueue, hes⟩ := ho.queue
  have hfilter : t.queue.filter PlayerEvent.isDone = s.queue.filter PlayerEvent.isDone := by
    have hnil : es.filter PlayerEvent.isDone = [] := by
      rw [List.filter_eq_nil_iff]
      intro e he
      rw [hes e he]
      exact Bool.false_ne_true
    rw [hqueue, List.filter_append, hnil, List.append_nil]
  refine ⟨⟨?_, ?_, ?_⟩, ?_, ?_, ?_, ?_, ?_⟩
  · intro x hx
    rw [ho.counted] at hx
    rw [(ho.outputs_getElem? (h.known x hx)).1]
    exact h.rightly.counted x hx
  · rw [ho.advances]
    exact h.rightly.once
  · intro x hx
    rw [ho.advances] at hx
    rw [(ho.outputs_getElem? (h.spent _ (List.mem_map_of_mem hx)).2).1]
    exact h.rightly.advances x hx
  · intro p hp
    rcases ho.output with ⟨houtputs, hnone | hsame⟩ | ⟨_, item, houtputs, hnew⟩
    · rw [hnone] at hp
      exact absurd hp nofun
    · rw [houtputs]
      rw [hsame] at hp
      exact h.made p hp
    · rw [hnew] at hp
      rw [houtputs, ← Option.some.inj hp, List.length_append]
      exact Nat.lt_succ_self _
  · intro x hx
    rw [ho.counted] at hx
    exact (ho.outputs_getElem? (h.known x hx)).2
  · intro dueToError p hp
    have hmem : .doneOutputting dueToError p ∈ s.queue := by
      have hin : .doneOutputting dueToError p ∈ t.queue.filter PlayerEvent.isDone :=
        List.mem_filter.mpr ⟨hp, rfl⟩
      rw [hfilter] at hin
      exact (List.mem_filter.mp hin).1
    obtain ⟨hmakes, hmoves⟩ := htimely (List.any_eq_true.mpr ⟨_, hmem, rfl⟩)
    have hw := h.waiting dueToError p hmem
    have hcurrent : t.current = s.current := by
      rcases ho.current with hcurrent | hmoved
      · exact hcurrent
      · exact absurd (hmoves.symm.trans hmoved) nofun
    have hpmo : t.pmo = none ∨ t.pmo = s.pmo := by
      rcases ho.output with ⟨_, hpmo⟩ | ⟨hmade, _⟩
      · exact hpmo
      · exact absurd (hmakes.symm.trans hmade) nofun
    refine ⟨?_, (ho.outputs_getElem? hw.made).2, ?_, ?_, ?_⟩
    · rw [hcurrent, (ho.outputs_getElem? hw.made).1]
      exact hw.item
    · rcases hpmo with hpmo | hpmo
      · exact .inl hpmo
      · rw [hpmo]
        exact hw.pmo
    · rw [ho.finished]
      exact hw.finished
    · rw [ho.advances]
      exact hw.fresh
  · rw [hfilter]
    exact h.single
  · intro p hp
    rw [ho.advances] at hp
    rw [ho.finished]
    exact ⟨(h.spent p hp).1, (ho.outputs_getElem? (h.spent p hp).2).2⟩

omit [DecidableEq ι] in
theorem doneOutputting_does (s : Player ι) (dueToError : Bool) (p : Nat) (a : Answers ι) :
    let t := s.doneOutputting dueToError p a
    t.outputs = s.outputs ∧ t.pmo = none ∧ t.finished = s.finished ∧
      (t.queue = s.queue ∨ t.queue = s.queue ++ [.play]) ∧
      (t.counted = s.counted ∨ ∃ item, s.current = some item ∧
        t.counted = s.counted ++ [(item, p)]) ∧
      (t.advances = s.advances ∨ t.advances = s.advances ++ [⟨p, s.current, s.pmo⟩]) := by
  have hcount : ∃ counted, s.deletePMO.countPlay p a = { s.deletePMO with counted := counted } ∧
      (counted = s.counted ∨ ∃ item, s.current = some item ∧
        counted = s.counted ++ [(item, p)]) := by
    unfold countPlay
    split
    · rename_i item hitem
      split
      · exact ⟨s.counted ++ [(item, p)], rfl, .inr ⟨item, hitem, rfl⟩⟩
      · exact ⟨s.counted, rfl, .inl rfl⟩
    · exact ⟨s.counted, rfl, .inl rfl⟩
  obtain ⟨counted, hcount, hcounted⟩ := hcount
  unfold doneOutputting
  dsimp only
  rw [hcount]
  split
  · exact ⟨rfl, rfl, rfl, .inl rfl, hcounted, .inl rfl⟩
  · split
    · exact ⟨rfl, rfl, rfl, .inr rfl, hcounted, .inr rfl⟩
    · exact ⟨rfl, rfl, rfl, .inl rfl, hcounted, .inl rfl⟩

omit [DecidableEq ι] in
/-- The event of the output object that waits counts its item, and goes on from it. -/
theorem InTime.doneOutputting {p : Nat} (h : InTime s) (hw : Waiting s p)
    (hsingle : s.queue.any PlayerEvent.isDone = false) (dueToError : Bool) (a : Answers ι) :
    InTime (s.doneOutputting dueToError p a) := by
  obtain ⟨houtputs, hpmo, hfinished, hqueue, hcounted, hadvances⟩ :=
    doneOutputting_does s dueToError p a
  have hnone : (s.doneOutputting dueToError p a).queue.any PlayerEvent.isDone = false := by
    rcases hqueue with hqueue | hqueue
    · rw [hqueue]
      exact hsingle
    · rw [hqueue, List.any_append, hsingle]
      rfl
  refine ⟨⟨?_, ?_, ?_⟩, ?_, ?_, ?_, ?_, ?_⟩
  · intro x hx
    rw [houtputs]
    rcases hcounted with hcounted | ⟨item, hitem, hcounted⟩
    · rw [hcounted] at hx
      exact h.rightly.counted x hx
    · rw [hcounted, List.mem_append, List.mem_singleton] at hx
      rcases hx with hx | rfl
      · exact h.rightly.counted x hx
      · exact hw.item.trans hitem
  · rcases hadvances with hadvances | hadvances
    · rw [hadvances]
      exact h.rightly.once
    · rw [hadvances, List.map_append, List.map_singleton]
      refine List.nodup_append.mpr ⟨h.rightly.once, List.pairwise_singleton _ p, ?_⟩
      intro q hq r hr hqr
      have hqp : q = p := hqr.trans (List.mem_singleton.mp hr)
      exact hw.fresh (hqp ▸ hq)
  · intro x hx
    rw [houtputs]
    rcases hadvances with hadvances | hadvances
    · rw [hadvances] at hx
      exact h.rightly.advances x hx
    · rw [hadvances, List.mem_append, List.mem_singleton] at hx
      rcases hx with hx | rfl
      · exact h.rightly.advances x hx
      · exact ⟨hw.item.symm, hw.pmo⟩
  · intro q hq
    rw [hpmo] at hq
    exact absurd hq nofun
  · intro x hx
    rw [houtputs]
    rcases hcounted with hcounted | ⟨item, hitem, hcounted⟩
    · rw [hcounted] at hx
      exact h.known x hx
    · rw [hcounted, List.mem_append, List.mem_singleton] at hx
      rcases hx with hx | rfl
      · exact h.known x hx
      · exact hw.made
  · intro dueToError q hq
    exact absurd hq (not_any_isDone hnone)
  · rw [any_isDone_iff.mp hnone]
    exact Nat.zero_le 1
  · intro q hq
    rw [houtputs, hfinished]
    rcases hadvances with hadvances | hadvances
    · rw [hadvances] at hq
      exact h.spent q hq
    · rw [hadvances, List.map_append, List.mem_append, List.map_singleton,
        List.mem_singleton] at hq
      rcases hq with hq | rfl
      · exact h.spent q hq
      · exact ⟨hw.finished, hw.made⟩

omit [DecidableEq ι] in
/-- The output object is done while its item is the current one. -/
theorem InTime.finish {p : Nat} (h : InTime s) (hpmo : s.pmo = some p) (hp : p ∉ s.finished)
    (hitem : s.outputs[p]? = s.current) (dueToError : Bool) :
    InTime ({ s with finished := s.finished ++ [p] }.acceptEvent (.doneOutputting dueToError p)) := by
  -- an output object that waits is the one that is there, or is deleted
  have hnone : s.queue.any PlayerEvent.isDone = false := by
    rw [List.any_eq_false]
    intro e he
    cases e with
    | doneOutputting dueToError q =>
      have hw := h.waiting dueToError q he
      rcases hw.pmo with hq | hq
      · exact absurd (hpmo.symm.trans hq) nofun
      · have hpq : p = q := Option.some.inj (hpmo.symm.trans hq)
        exact absurd (hpq ▸ hw.finished) hp
    | _ => exact Bool.false_ne_true
  refine ⟨⟨h.rightly.counted, h.rightly.once, h.rightly.advances⟩, h.made, h.known, ?_, ?_, ?_⟩
  · intro d q hq
    rcases List.mem_append.mp hq with hq | hq
    · exact absurd hq (not_any_isDone hnone)
    · obtain ⟨rfl, rfl⟩ := PlayerEvent.doneOutputting.inj (List.mem_singleton.mp hq)
      exact ⟨hitem, h.made q hpmo, .inr hpmo, List.mem_append_right _ (List.mem_singleton_self q),
        fun hq => hp (h.spent q hq).1⟩
  · have hqueue : s.queue.filter PlayerEvent.isDone = [] := any_isDone_iff.mp hnone
    have hfilter : (s.queue ++ [PlayerEvent.doneOutputting dueToError p]).filter
        PlayerEvent.isDone = [PlayerEvent.doneOutputting dueToError p] := by
      rw [List.filter_append, hqueue, List.nil_append]
      rfl
    unfold acceptEvent
    rw [hfilter]
    exact Nat.le_refl 1
  · intro q hq
    exact ⟨List.mem_append_left _ (h.spent q hq).1, (h.spent q hq).2⟩

theorem next_inTime (h : InTime s) {x : PlayerAction ι} (htimely : s.timely x = true)
    (ht : s.next x = some t) : InTime t := by
  cases x with
  | change current =>
    obtain rfl := Option.some.inj ht
    refine ⟨⟨h.rightly.counted, h.rightly.once, h.rightly.advances⟩, h.made, h.known, ?_,
      h.single, h.spent⟩
    intro dueToError p hp
    have hw := h.waiting dueToError p hp
    have hcurrent : current = s.current := by
      rcases Bool.or_eq_true_iff.mp htimely with hnone | hcurrent
      · exact absurd hp (not_any_isDone (Bool.not_eq_true' _ ▸ hnone))
      · exact beq_iff_eq.mp hcurrent
    exact ⟨hw.item.trans hcurrent.symm, hw.made, hw.pmo, hw.finished, hw.fresh⟩
  | send e =>
    by_cases he : e.isDone = true
    · simp only [next, he, if_pos] at ht
      exact absurd ht nofun
    · have he : e.isDone = false := eq_false_of_ne_true he
      simp only [next, he, Bool.false_eq_true, if_false] at ht
      obtain rfl := Option.some.inj ht
      -- to send it is to serve a message that puts it into the queue
      have hsame : Others s .message ⟨.failed, false, false, false, none⟩ (s.acceptEvent e) := by
        refine ⟨rfl, rfl, rfl, ⟨[e], rfl, ?_⟩, .inl ⟨rfl, .inr rfl⟩, .inl rfl⟩
        intro e' he'
        rw [List.mem_singleton.mp he']
        exact he
      exact h.others hsame fun _ => ⟨rfl, rfl⟩
  | finish dueToError =>
    cases hpmo : s.pmo with
    | none =>
      simp only [next, hpmo] at ht
      exact absurd ht nofun
    | some p =>
      by_cases hp : p ∈ s.finished
      · simp only [next, hpmo, hp, if_pos] at ht
        exact absurd ht nofun
      · simp only [next, hpmo, hp, if_false] at ht
        obtain rfl := Option.some.inj ht
        have hitem : s.outputs[p]? = s.current := by
          simp only [timely, hpmo, Option.bind_some, beq_iff_eq] at htimely
          exact htimely
        rw [← hpmo]
        exact h.finish hpmo hp hitem dueToError
  | service a =>
    cases hqueue : s.queue with
    | nil =>
      simp only [next, hqueue] at ht
      exact absurd ht nofun
    | cons e queue =>
      simp only [next, hqueue] at ht
      simp only [timely, hqueue] at htimely
      have htail := h.tail hqueue
      split at ht
      · rename_i u hserved
        obtain rfl := Option.some.inj ht
        by_cases he : e.isDone = true
        · cases e with
          | doneOutputting dueToError p =>
            obtain rfl := Except.ok.inj hserved
            have hw := h.waiting dueToError p (hqueue ▸ List.mem_cons_self)
            exact htail.doneOutputting ⟨hw.item, hw.made, hw.pmo, hw.finished, hw.fresh⟩
              (h.single_done hqueue) dueToError a
          | _ => exact absurd he Bool.false_ne_true
        · refine htail.others (serviceEvent_others (eq_false_of_ne_true he) hserved) ?_
          intro hany
          rcases Bool.or_eq_true_iff.mp htimely with hnone | hboth
          · rw [hany] at hnone
            exact absurd hnone Bool.false_ne_true
          · obtain ⟨hmakes, hmoves⟩ := Bool.and_eq_true_iff.mp hboth
            exact ⟨Bool.not_eq_true' _ ▸ hmakes, Bool.not_eq_true' _ ▸ hmoves⟩
      · exact absurd ht nofun

end Steps

theorem inTime_init {ι : Type} (current : Option ι) : InTime (init current) where
  rightly := ⟨nofun, List.nodup_nil, nofun⟩
  made := nofun
  known := nofun
  waiting := nofun
  single := Nat.zero_le 1
  spent := nofun

/-- When every output object is done while its item is current, and until its event is serviced
nothing moves the current item and no output object is made, only the items that were played to
their end are counted, and each output object that was done is followed by one advance at most. -/
theorem done_rightly {ι : Type} [DecidableEq ι] (current : Option ι) (xs : List (PlayerAction ι))
    (s : Player ι)
    (h : Run (Guarded (fun s x => s.timely x = true) (Steps next)) (init current) xs s) :
    RightlyDone s := by
  have hinvariant : InTime s := by
    refine h.invariant (P := InTime) ?_ (inTime_init current)
    rintro u x v hu ⟨htimely, hstep⟩
    exact next_inTime hu htimely hstep
  exact hinvariant.rightly

/-- An item is played to its end, and the next one is played. -/
def playedInTime : List (PlayerAction Nat) :=
  let a : Answers Nat := ⟨.created, true, false, true, some 2⟩
  [.send .play, .service a, .finish false, .send .pause, .service a, .service a, .service a]

theorem done_rightly_playedInTime :
    ∃ s : Player Nat,
      Run (Guarded (fun s x => s.timely x = true) (Steps next)) (init (some 1)) playedInTime s ∧
        s.outputs = [1, 2] ∧ s.counted = [(1, 0)] ∧ RightlyDone s := by
  have hexec : (exec (guardedNext (fun s x => s.timely x = true) next) (init (some 1))
      playedInTime).map (fun s => (s.outputs, s.counted)) = some ([1, 2], [(1, 0)]) := by
    decide
  obtain ⟨s, hs, heq⟩ := Option.map_eq_some_iff.mp hexec
  obtain ⟨houtputs, hcounted⟩ := Prod.mk.inj heq
  have hrun := Run.of_guarded_exec hs
  exact ⟨s, hrun, houtputs, hcounted, done_rightly (some 1) playedInTime s hrun⟩

/-- The user goes on from item 1 to item 2; item 1 ends before that is serviced. -/
def playedLate : List (PlayerAction Nat) :=
  let a : Answers Nat := ⟨.created, true, false, true, some 2⟩
  [.send .play, .service a, .send .next, .finish false, .service a,
    .service { a with moved := some 3 }]

/-- Item 2 is counted, and skipped, because item 1 has come to its end. -/
theorem done_rightly_fails :
    ¬ ∀ (current : Option Nat) (xs : List (PlayerAction Nat)) (s : Player Nat),
      Run (Steps next) (init current) xs s → RightlyDone s := by
  intro h
  have hexec : (exec next (init (some 1)) playedLate).map
      (fun s => (s.outputs, s.counted, s.current)) = some ([1], [(2, 0)], some 3) := by
    decide
  obtain ⟨s, hs, heq⟩ := Option.map_eq_some_iff.mp hexec
  obtain ⟨houtputs, hrest⟩ := Prod.mk.inj heq
  have hcounted := (h (some 1) playedLate s (Run.of_exec hs)).counted (2, 0) (by
    rw [(Prod.mk.inj hrest).1]
    exact List.mem_singleton_self (2, 0))
  rw [houtputs] at hcounted
  exact absurd hcounted (by decide)

end Player

end FreeAmp.Base
