/-
  Io/SoundCardRun.lean --- what the device has got when the sound card output
  reports that it is done.

  `PMO_Quit` is the last thing the decoder hands in, so its mark stands at the end
  of the stream.  The worker reads whole blocks; when it is told that the event at
  the head is pending and the event is `PMO_Quit`, it returns, and what is then
  left in the buffer is never written.  `Drains` says of the steps of `BeginRead`
  that this does not happen: the comparison meets `PMO_Quit` either with the buffer
  empty or with more than a block in it, and a block is granted only where it ends
  inside the allocation.
-/
import FreeAmp.Io.SoundCard

namespace FreeAmp.Io

open FreeAmp.Lib

/-! ## The condition -/

/-- `PMO_Quit` is compared for a consumer that has everything, or has more than the bytes
wanted (but not exactly a full ring) before it. -/
def QuitApart (s : EventEnds PmoEvent) : Consumer PmoEvent → Prop
  | .peeked n (some e) => e.event = .quit →
      e.stamp = s.position ∨
        n < e.stamp - s.position ∧ e.stamp - s.position ≠ s.ends.buffer.bufferSize
  | _ => True

/-- A block that is there ends inside the allocation. -/
def BlockFits (b : PullBuffer) : Consumer PmoEvent → Prop
  | .pulling n _ => b.readable n → b.readIndex + n ≤ b.bufferSize + b.overflowSize
  | _ => True

/-- A step of the worker that loses no byte. -/
def Drains (s : SoundCard) : CardAction → Prop
  | .compare => QuitApart s.input s.input.consumer
  | .pull => BlockFits s.input.ends.buffer s.input.consumer
  | _ => True

instance (s : EventEnds PmoEvent) : (c : Consumer PmoEvent) → Decidable (QuitApart s c)
  | .peeked _ (some _) => inferInstanceAs (Decidable (_ → _))
  | .peeked _ none | .idle | .pulling _ _ | .told _ => isTrue trivial

instance (b : PullBuffer) : (c : Consumer PmoEvent) → Decidable (BlockFits b c)
  | .pulling _ _ => inferInstanceAs (Decidable (_ → _))
  | .peeked _ _ | .idle | .told _ => isTrue trivial

instance (s : SoundCard) : (a : CardAction) → Decidable (Drains s a)
  | .compare => inferInstanceAs (Decidable (QuitApart _ _))
  | .pull => inferInstanceAs (Decidable (BlockFits _ _))
  | .produce _ | .outer _ | .beginRead | .peekEvent | .getEvent _ | .drained | .write _
  | .writeFailed => isTrue trivial

/-! ## The stream underneath -/

/-- The bytes of a run in which every region granted is allocated in full. -/
structure Streaming (s : Ends) : Prop where
  inv : Inv s
  exit : s.buffer.exit = false
  fits : ∀ r, s.reading = some r →
    r.pointer + r.size ≤ s.buffer.bufferSize + s.buffer.overflowSize
  taken : s.consumed <+: s.committed

namespace Streaming

theorem init {S O : Nat} (hS : 0 < S) (garbage : Memory UInt8) :
    Streaming (.init S O garbage) where
  inv := .init hS garbage
  exit := rfl
  fits r hr := by simp [Ends.init] at hr
  taken := List.prefix_rfl

variable {s t : Ends}

theorem step (h : Streaming s) {a : Action} (ha : a ≠ .exit)
    (hfits : ∀ n, a = .beginRead n → s.buffer.readable n →
      s.buffer.readIndex + n ≤ s.buffer.bufferSize + s.buffer.overflowSize)
    (hst : s.next a = some t) : Streaming t := by
  obtain ⟨hsize, hover⟩ := Ends.next_sizes hst
  have htaken : t.consumed <+: t.committed := by
    obtain ⟨ops, habs⟩ := step_refines h.inv h.fits hst
    exact habs.invariant Fifo.step_prefix h.taken
  refine ⟨h.inv.step hst, ?_, ?_, htaken⟩
  · refine exit_of_run (.single hst) h.exit ?_
    intro hmem
    exact ha (List.mem_singleton.mp hmem).symm
  · intro r hr
    rw [hsize, hover]
    cases a with
    | beginRead n =>
      obtain rfl | ⟨_, hcount, hfit, rfl⟩ := Ends.beginRead_cases hst
      · exact h.fits r hr
      · obtain rfl := Option.some.inj hr
        exact hfits n rfl ⟨hcount, hfit⟩
    | endRead m =>
      obtain ⟨_, _, _, _, rfl⟩ := Ends.endRead_cases hst
      simp at hr
    | exit => exact absurd rfl ha
    | beginWrite n => exact h.fits r ((Ends.write_frame rfl hst).2.1 ▸ hr)
    | store offset byte => exact h.fits r ((Ends.write_frame rfl hst).2.1 ▸ hr)
    | endWrite m => exact h.fits r ((Ends.write_frame rfl hst).2.1 ▸ hr)
    | setEndOfStream eos => exact h.fits r ((Ends.write_frame rfl hst).2.1 ▸ hr)

end Streaming

/-! ## The invariant -/

/-- The mark of `PMO_Quit`: it stands at the end of the stream. -/
structure QuitMark (s : SoundCard) (e : BufferEvent PmoEvent) : Prop where
  quitting : s.quitting = true
  index_eq : e.index = e.stamp % s.input.ends.buffer.bufferSize
  stamp_eq : e.stamp = s.input.ends.committed.length

/-- The worker has written everything. -/
def SoundCard.Drained (s : SoundCard) : Prop :=
  s.input.ends.consumed.length = s.input.ends.committed.length

/-- The invariant of runs whose steps lose no byte. -/
structure Feeding (s : SoundCard) : Prop where
  streaming : Streaming s.input.ends
  device_eq : s.device = s.input.ends.consumed
  queued : ∀ e ∈ s.input.queue, e.event = .quit → QuitMark s e
  accepting : ∀ e, s.input.accepting = some e → e.event = .quit → QuitMark s e
  seen : ∀ n e, s.input.consumer = .peeked n (some e) → s.input.queue.head? = some e
  /-- `PMO_Quit` is acted on only when everything is written -/
  due : s.worker = .pending ∨ s.worker = .fetching →
    ∃ e, s.input.queue.head? = some e ∧ (e.event = .quit → s.Drained)
  waiting : s.worker ≠ .draining
  finished : s.worker = .done → s.quitting = true ∧ s.Drained

namespace Feeding

variable {s t : SoundCard}

theorem init {S O : Nat} (hS : 0 < S) (garbage : Memory UInt8) :
    Feeding (.init S O garbage) where
  streaming := .init hS garbage
  device_eq := rfl
  queued e he := by simp [SoundCard.init, EventEnds.init] at he
  accepting e he := by simp [SoundCard.init, EventEnds.init] at he
  seen n e he := by simp [SoundCard.init, EventEnds.init] at he
  due hw := by simp [SoundCard.init] at hw
  waiting := by simp [SoundCard.init]
  finished hw := by simp [SoundCard.init] at hw

/-! ### The decoder -/

/-- Until the decoder has handed in `PMO_Quit` there is no mark of it. -/
theorem not_quit (h : Feeding s) (hq : s.quitting = false) {e : BufferEvent PmoEvent}
    (he : e ∈ s.input.queue ∨ s.input.accepting = some e) : e.event ≠ .quit := by
  intro hquit
  have hmark : QuitMark s e := by
    rcases he with hmem | hacc
    · exact h.queued e hmem hquit
    · exact h.accepting e hacc hquit
  have hquitting := hmark.quitting
  rw [hq] at hquitting
  simp at hquitting

theorem produceWrite (h : Feeding s) {a : Action} (hq : s.quitting = false)
    {input : EventEnds PmoEvent} (hst : s.input.write a = some input) :
    Feeding { s with input := input } := by
  obtain ⟨ends, hw, hacc, hends, rfl⟩ := EventEnds.write_cases hst
  obtain ⟨hcons, hread, -, -⟩ := Ends.write_frame hw hends
  have hstream : Streaming ends := by
    refine h.streaming.step ?_ ?_ hends
    · rintro rfl
      simp [Action.isWriters] at hw
    · rintro n rfl
      simp [Action.isWriters] at hw
  refine
    { streaming := hstream
      device_eq := h.device_eq.trans hcons.symm
      queued := fun e he hquit => absurd hquit (h.not_quit hq (.inl he))
      accepting := fun e he hquit => absurd hquit (h.not_quit hq (.inr he))
      seen := h.seen
      due := ?_
      waiting := h.waiting
      finished := ?_ }
  · intro hworker
    obtain ⟨e, he, -⟩ := h.due hworker
    refine ⟨e, he, fun hquit => ?_⟩
    exact absurd hquit (h.not_quit hq (.inl (List.mem_of_mem_head? he)))
  · intro hworker
    have hquitting := (h.finished hworker).1
    rw [hq] at hquitting
    simp at hquitting

theorem produceAccept (h : Feeding s) {event : PmoEvent} (hq : s.quitting = false)
    {input : EventEnds PmoEvent} (hst : s.input.acceptEvent event = some input) :
    Feeding { s with
      input := input
      quitting := s.quitting || (EventAction.acceptEvent event).isQuit } := by
  obtain ⟨index, hacc, hindex, rfl⟩ := EventEnds.acceptEvent_cases hst
  have hindex' : index = s.input.ends.committed.length % s.input.ends.buffer.bufferSize := by
    unfold PullBuffer.getWriteIndex at hindex
    rw [if_neg (by simp [h.streaming.exit])] at hindex
    split at hindex
    · simp at hindex
    · obtain rfl := Option.some.inj hindex
      exact h.streaming.inv.cursors.writeIndex_eq
  refine
    { streaming := h.streaming
      device_eq := h.device_eq
      queued := fun e he hquit => absurd hquit (h.not_quit hq (.inl he))
      accepting := ?_
      seen := h.seen
      due := h.due
      waiting := h.waiting
      finished := ?_ }
  · intro e he hquit
    obtain rfl := Option.some.inj he
    obtain rfl : event = .quit := hquit
    exact { quitting := by simp [EventAction.isQuit], index_eq := hindex', stamp_eq := rfl }
  · intro hworker
    obtain ⟨hquitting, hdrained⟩ := h.finished hworker
    exact ⟨by simp [hquitting], hdrained⟩

theorem produceQueue (h : Feeding s) {input : EventEnds PmoEvent}
    (hst : s.input.queueWrite = some input) : Feeding { s with input := input } := by
  obtain ⟨e, hacc, rfl⟩ := EventEnds.queueWrite_cases hst
  have hhead : ∀ first, s.input.queue.head? = some first →
      (s.input.queue ++ [e]).head? = some first := by
    intro first hfirst
    rw [List.head?_append, hfirst, Option.some_or]
  refine
    { streaming := h.streaming
      device_eq := h.device_eq
      queued := ?_
      accepting := fun e' he' => by simp at he'
      seen := fun n first hfirst => hhead first (h.seen n first hfirst)
      due := ?_
      waiting := h.waiting
      finished := h.finished }
  · intro e' he' hquit
    rcases List.mem_append.mp he' with hold | hlast
    · exact { h.queued e' hold hquit with }
    · obtain rfl := List.mem_singleton.mp hlast
      exact { h.accepting e' hacc hquit with }
  · intro hworker
    obtain ⟨first, hfirst, hdue⟩ := h.due hworker
    exact ⟨first, hhead first hfirst, hdue⟩

theorem produce (h : Feeding s) {a : EventAction PmoEvent} (hst : s.produce a = some t) :
    Feeding t := by
  unfold SoundCard.produce at hst
  split at hst
  · rename_i hallowed
    obtain ⟨hdecoder, hlast⟩ := hallowed
    split at hst
    · rename_i input hinput
      obtain rfl := Option.some.inj hst
      have hquiet : a.isLast = false → s.quitting = false := by
        intro hnot
        cases hq : s.quitting with
        | false => rfl
        | true => simp [hlast hq] at hnot
      cases a with
      | write a =>
        have hsame : (s.quitting || (EventAction.write a).isQuit) = s.quitting := by
          simp [EventAction.isQuit]
        rw [hsame]
        exact h.produceWrite (hquiet rfl) hinput
      | acceptEvent event => exact h.produceAccept (hquiet rfl) hinput
      | queueWrite =>
        have hsame : (s.quitting || (EventAction.queueWrite).isQuit) = s.quitting := by
          simp [EventAction.isQuit]
        rw [hsame]
        exact h.produceQueue hinput
      | beginRead n => simp [EventAction.isDecoders] at hdecoder
      | compare => simp [EventAction.isDecoders] at hdecoder
      | pull => simp [EventAction.isDecoders] at hdecoder
      | endRead m => simp [EventAction.isDecoders] at hdecoder
      | getEvent => simp [EventAction.isDecoders] at hdecoder
    · simp at hst
  · simp at hst

/-! ### The worker -/

/-- The invariant says nothing about a worker at these places. -/
theorem move (h : Feeding s) {w : WorkerAt} (hw : w ≠ .pending ∧ w ≠ .fetching ∧
    w ≠ .draining ∧ w ≠ .done) : Feeding { s with worker := w } :=
  { h with
    queued := fun e he hquit => { h.queued e he hquit with }
    accepting := fun e he hquit => { h.accepting e he hquit with }
    due := fun hdue => by
      rcases hdue with rfl | rfl
      · exact absurd rfl hw.1
      · exact absurd rfl hw.2.1
    waiting := hw.2.2.1
    finished := fun hdone => absurd hdone hw.2.2.2 }

theorem initDevice (h : Feeding s) (maxBufferSize : Nat) (outcome : InitOutcome) :
    Feeding (s.initDevice maxBufferSize outcome) := by
  have hany : ∀ p d, Feeding { s with properlyInitialized := p, dataSize := d } := fun p d =>
    { h with
      queued := fun e he hquit => { h.queued e he hquit with }
      accepting := fun e he hquit => { h.accepting e he hquit with } }
  cases outcome with
  | openFailed => exact hany false s.dataSize
  | configFailed => exact hany false maxBufferSize
  | ok => exact hany true maxBufferSize

theorem fetch (h : Feeding s) {input : EventEnds PmoEvent}
    (hst : s.input.getEvent = some input) {w : WorkerAt} (hw : w ≠ .pending ∧ w ≠ .fetching ∧
      w ≠ .draining ∧ w ≠ .done) : Feeding { s with input := input, worker := w } := by
  obtain ⟨-, rfl⟩ | ⟨e, rest, hqueue, rfl⟩ := EventEnds.getEvent_cases hst
  · exact
      { (h.move hw) with
        queued := fun e he hquit => { h.queued e he hquit with }
        accepting := fun e he hquit => { h.accepting e he hquit with }
        seen := fun n e he => by simp at he
        due := (h.move hw).due
        finished := (h.move hw).finished }
  · refine
      { streaming := h.streaming
        device_eq := h.device_eq
        queued := ?_
        accepting := fun e' he' hquit => { h.accepting e' he' hquit with }
        seen := fun n e' he' => by simp at he'
        due := ?_
        waiting := hw.2.2.1
        finished := fun hdone => absurd hdone hw.2.2.2 }
    · intro e' he' hquit
      have hmem : e' ∈ s.input.queue := by
        rw [hqueue]
        exact List.mem_cons_of_mem _ he'
      exact { h.queued e' hmem hquit with }
    · rintro (rfl | rfl)
      · exact absurd rfl hw.1
      · exact absurd rfl hw.2.1

theorem outer (h : Feeding s) {outcome : InitOutcome} (hst : s.outer outcome = some t) :
    Feeding t := by
  unfold SoundCard.outer at hst
  split at hst
  · rename_i hat
    split at hst
    · obtain rfl := Option.some.inj hst
      exact h.move (by decide)
    · split at hst
      · simp at hst
      · rename_i input hinput
        split at hst
        · rename_i maxBufferSize hevent
          obtain rfl := Option.some.inj hst
          have hfetched : Feeding { s with input := input, worker := .outer } :=
            h.fetch hinput (by decide)
          rw [← hat] at hfetched
          refine (hfetched.initDevice maxBufferSize outcome).move ?_
          split <;> decide
        · obtain rfl := Option.some.inj hst
          have hfetched : Feeding { s with input := input, worker := .outer } :=
            h.fetch hinput (by decide)
          rwa [← hat] at hfetched
  · simp at hst

theorem beginRead (h : Feeding s) (hst : s.beginRead = some t) : Feeding t := by
  unfold SoundCard.beginRead at hst
  split at hst
  · split at hst
    · rename_i input hinput
      obtain rfl := Option.some.inj hst
      obtain ⟨-, rfl⟩ := EventEnds.beginRead_cases hinput
      have hmoved : Feeding { s with worker := .comparing } := h.move (by decide)
      refine
        { hmoved with
          queued := fun e he hquit => { h.queued e he hquit with }
          accepting := fun e he hquit => { h.accepting e he hquit with }
          seen := ?_
          due := hmoved.due
          finished := hmoved.finished }
      intro n e he
      simp only [Consumer.peeked.injEq] at he
      exact he.2
    · simp at hst
  · simp at hst

/-- A comparison that loses no byte answers that `PMO_Quit` is pending only to a worker
that has written everything. -/
theorem quit_due (h : Feeding s) {n : Nat} {e : BufferEvent PmoEvent}
    (hc : s.input.consumer = .peeked n (some e)) (hun : Drains s .compare)
    {readIndex : Nat} (hindex : s.input.ends.buffer.getReadIndex = some readIndex)
    (hpending : eventPending (some e) readIndex s.input.ends.buffer.bufferSize n = true)
    (hquit : e.event = .quit) : s.Drained := by
  have hcur := h.streaming.inv.cursors
  have hmark := h.queued e (List.mem_of_mem_head? (h.seen n e hc)) hquit
  have hstamp := hmark.stamp_eq
  have hcount := hcur.count_eq
  have hcle := hcur.count_le
  have hread : readIndex = s.input.position % s.input.ends.buffer.bufferSize := by
    unfold PullBuffer.getReadIndex at hindex
    rw [if_neg (by simp [h.streaming.exit])] at hindex
    split at hindex
    · simp at hindex
    · obtain rfl := Option.some.inj hindex
      exact hcur.readIndex_eq
  have hapart : QuitApart s.input s.input.consumer := hun
  rw [hc] at hapart
  have hcase := hapart hquit
  unfold SoundCard.Drained
  unfold EventEnds.position at hcase hread
  rw [hread, eventPending_iff hcur.size_pos hmark.index_eq (by omega) (by omega)] at hpending
  omega

theorem compare (h : Feeding s) (hun : Drains s .compare) (hst : s.compare = some t) :
    Feeding t := by
  unfold SoundCard.compare at hst
  split at hst
  · split at hst
    · rename_i input hinput
      obtain rfl := Option.some.inj hst
      obtain ⟨n, head, readIndex, hc, hindex, rfl⟩ := EventEnds.compare_cases hinput
      cases hp : eventPending head readIndex s.input.ends.buffer.bufferSize n with
      | false =>
        have hmoved : Feeding { s with worker := .pulling } := h.move (by decide)
        exact
          { hmoved with
            queued := fun e he hquit => { h.queued e he hquit with }
            accepting := fun e he hquit => { h.accepting e he hquit with }
            seen := fun k e he => by simp at he
            due := hmoved.due
            finished := hmoved.finished }
      | true =>
        refine
          { streaming := h.streaming
            device_eq := h.device_eq
            queued := fun e he hquit => { h.queued e he hquit with }
            accepting := fun e he hquit => { h.accepting e he hquit with }
            seen := fun k e he => by simp at he
            due := fun _ => ?_
            waiting := by simp [EventEnds.toldBy]
            finished := fun hdone => by simp [EventEnds.toldBy] at hdone }
        cases head with
        | none => simp [eventPending] at hp
        | some e => exact ⟨e, h.seen n e hc, h.quit_due hc hun hindex hp⟩
    · simp at hst
  · simp at hst

theorem pull (h : Feeding s) (hun : Drains s .pull) (hst : s.pull = some t) : Feeding t := by
  unfold SoundCard.pull at hst
  split at hst
  · split at hst
    · rename_i input eErr _ _ hinput _
      obtain rfl := Option.some.inj hst
      obtain ⟨n, head, ends, hc, hends, rfl⟩ := EventEnds.pull_cases hinput
      have hfits : BlockFits s.input.ends.buffer s.input.consumer := hun
      rw [hc] at hfits
      have hstream : Streaming ends := by
        refine h.streaming.step (a := .beginRead n) (by simp) ?_ hends
        intro k hk
        obtain rfl : n = k := by simpa using hk
        exact hfits
      have hcons : ends.consumed = s.input.ends.consumed ∧
          ends.committed = s.input.ends.committed ∧
          ends.buffer.bufferSize = s.input.ends.buffer.bufferSize := by
        obtain rfl | ⟨_, _, _, rfl⟩ := Ends.beginRead_cases hends <;> exact ⟨rfl, rfl, rfl⟩
      have hmark : ∀ e, QuitMark s e →
          QuitMark { s with
            input := { s.input with ends := ends, consumer := .idle }
            worker := if eErr = .noDataAvail then .reading else .writing } e := fun e hm =>
        { quitting := hm.quitting
          index_eq := hcons.2.2 ▸ hm.index_eq
          stamp_eq := hcons.2.1 ▸ hm.stamp_eq }
      refine
        { streaming := hstream
          device_eq := h.device_eq.trans hcons.1.symm
          queued := fun e he hquit => hmark e (h.queued e he hquit)
          accepting := fun e he hquit => hmark e (h.accepting e he hquit)
          seen := fun k e he => by simp at he
          due := ?_
          waiting := by simp only; split <;> decide
          finished := ?_ }
      · intro hworker
        simp only at hworker
        split at hworker <;> simp at hworker
      · intro hworker
        simp only at hworker
        split at hworker <;> simp at hworker
    · simp at hst
  · simp at hst

theorem peekEvent (h : Feeding s) (hst : s.peekEvent = some t) : Feeding t := by
  unfold SoundCard.peekEvent at hst
  split at hst
  · rename_i hat
    obtain ⟨e, he, hdue⟩ := h.due (.inl hat)
    rw [he] at hst
    obtain rfl := Option.some.inj hst
    have hempty : ¬ (e.event = .quit ∧ 0 < s.input.ends.buffer.bytesInBuffer) := by
      rintro ⟨hquit, hbytes⟩
      have hcount := h.streaming.inv.cursors.count_eq
      have hdrained := hdue hquit
      unfold SoundCard.Drained at hdrained
      omega
    rw [if_neg hempty]
    exact
      { h with
        queued := fun e he hquit => { h.queued e he hquit with }
        accepting := fun e he hquit => { h.accepting e he hquit with }
        due := fun _ => ⟨e, he, hdue⟩
        waiting := by simp
        finished := fun hdone => by simp at hdone }
  · simp at hst

theorem getEvent (h : Feeding s) {outcome : InitOutcome}
    (hst : s.getEvent outcome = some t) : Feeding t := by
  unfold SoundCard.getEvent at hst
  split at hst
  · rename_i hat
    obtain ⟨e, he, hdue⟩ := h.due (.inr hat)
    split at hst
    · rename_i input event hinput hevent
      have hgone : Feeding { s with input := input, worker := .reading } :=
        h.fetch hinput (by decide)
      rw [he] at hevent
      obtain rfl : e.event = event := by simpa using hevent
      cases hkind : e.event with
      | init maxBufferSize =>
        simp only [hkind] at hst
        obtain rfl := Option.some.inj hst
        exact hgone.initDevice maxBufferSize outcome
      | quit =>
        simp only [hkind] at hst
        obtain rfl := Option.some.inj hst
        have hmark := h.queued e (List.mem_of_mem_head? he) hkind
        have hends : input.ends = s.input.ends := by
          obtain ⟨-, rfl⟩ | ⟨_, _, _, rfl⟩ := EventEnds.getEvent_cases hinput <;> rfl
        have hdrained := hdue hkind
        unfold SoundCard.Drained at hdrained
        exact
          { hgone with
            queued := fun e he hquit => { hgone.queued e he hquit with }
            accepting := fun e he hquit => { hgone.accepting e he hquit with }
            due := fun hworker => by simp at hworker
            waiting := by simp
            finished := fun _ => ⟨hmark.quitting, by
              unfold SoundCard.Drained
              simp only [hends, hdrained]⟩ }
      | info =>
        simp only [hkind] at hst
        obtain rfl := Option.some.inj hst
        exact hgone
      | reset =>
        simp only [hkind] at hst
        obtain rfl := Option.some.inj hst
        exact hgone
      | error =>
        simp only [hkind] at hst
        obtain rfl := Option.some.inj hst
        exact hgone
    · simp at hst
  · simp at hst

/-- `EndRead(ret)` after the device has taken `ret` bytes. -/
theorem release (h : Feeding s) {r : ReadRegion} (hr : s.input.ends.reading = some r)
    {ret : Nat} {input : EventEnds PmoEvent} (hst : s.input.endRead ret = some input)
    {w : WorkerAt} (hw : w ≠ .pending ∧ w ≠ .fetching ∧ w ≠ .draining ∧ w ≠ .done) :
    Feeding { s with
      input := input
      worker := w
      device := s.device ++ s.input.ends.buffer.pullBuffer.slice r.pointer ret } := by
  obtain ⟨ends, hc, hends, rfl⟩ := EventEnds.endRead_cases hst
  have hstream : Streaming ends := h.streaming.step (a := .endRead ret) (by simp) (by simp) hends
  obtain ⟨r', hr', _, _, rfl⟩ := Ends.endRead_cases hends
  obtain rfl : r' = r := Option.some.inj (hr'.symm.trans hr)
  exact
    { streaming := hstream
      device_eq := by simp only [h.device_eq]
      queued := fun e he hquit => { h.queued e he hquit with }
      accepting := fun e he hquit => { h.accepting e he hquit with }
      seen := fun k e he => by simp [hc] at he
      due := fun hdue => by
        rcases hdue with rfl | rfl
        · exact absurd rfl hw.1
        · exact absurd rfl hw.2.1
      waiting := hw.2.2.1
      finished := fun hdone => absurd hdone hw.2.2.2 }

theorem write (h : Feeding s) {ret : Nat} (hst : s.write ret = some t) : Feeding t := by
  unfold SoundCard.write at hst
  split at hst
  · split at hst
    · rename_i r hr
      split at hst
      · rename_i input hinput
        obtain rfl := Option.some.inj hst
        exact h.release hr hinput (by decide)
      · simp at hst
    · split at hst
      · obtain rfl := Option.some.inj hst
        exact h.move (by decide)
      · simp at hst
  · simp at hst

theorem writeFailed (h : Feeding s) (hst : s.writeFailed = some t) : Feeding t := by
  unfold SoundCard.writeFailed at hst
  split at hst
  · split at hst
    · rename_i r hr
      split at hst
      · rename_i input hinput
        obtain rfl := Option.some.inj hst
        have hreleased : Feeding { s with
            input := input
            worker := .stopped
            device := s.device ++ s.input.ends.buffer.pullBuffer.slice r.pointer 0 } :=
          h.release hr hinput (by decide)
        rwa [Memory.slice_zero, List.append_nil] at hreleased
      · simp at hst
    · obtain rfl := Option.some.inj hst
      exact h.move (by decide)
  · simp at hst

theorem step {a : CardAction} (h : Feeding s) (hun : Drains s a) (hst : s.next a = some t) :
    Feeding t := by
  cases a with
  | produce a => exact h.produce hst
  | outer outcome => exact h.outer hst
  | beginRead => exact h.beginRead hst
  | compare => exact h.compare hun hst
  | pull => exact h.pull hun hst
  | peekEvent => exact h.peekEvent hst
  | getEvent outcome => exact h.getEvent hst
  | drained =>
    have hstep : s.drained = some t := hst
    unfold SoundCard.drained at hstep
    split at hstep
    · rename_i hat
      exact absurd hat h.waiting
    · simp at hstep
  | write ret => exact h.write hst
  | writeFailed => exact h.writeFailed hst

end Feeding

/-! ## Every run -/

/-- In every run whose steps lose no byte, when the worker has sent `INFO_DoneOutputting`
the device has been handed every byte the decoder has committed, in order. -/
theorem handed_before_done {S O : Nat} (hS : 0 < S) {garbage : Memory UInt8}
    {acts : List CardAction} {s : SoundCard}
    (hrun : Run (Guarded Drains (Steps SoundCard.next)) (.init S O garbage) acts s)
    (hdone : s.worker = .done) : s.device = s.input.ends.committed := by
  have hinv : Feeding s := by
    refine hrun.invariant (P := Feeding) ?_ (.init hS garbage)
    rintro u a v hu ⟨hun, hst⟩
    exact hu.step hun hst
  have hlen := (hinv.finished hdone).2
  unfold SoundCard.Drained at hlen
  rw [hinv.device_eq]
  exact hinv.streaming.taken.eq_of_length hlen

/-- A block of four bytes that the worker reads before the decoder is at its end. -/
def oneBlock : List CardAction :=
  [.produce (.acceptEvent (.init 4)), .produce .queueWrite, .outer .ok, .outer .ok,
   .produce (.write (.beginWrite 4)), .produce (.write (.store 0 7)),
   .produce (.write (.endWrite 4)),
   .beginRead, .compare, .pull, .write 4, .outer .ok,
   .produce (.acceptEvent .quit), .produce .queueWrite,
   .beginRead, .compare, .peekEvent, .getEvent .ok]

theorem handed_before_done_oneBlock :
    ∃ s, exec (guardedNext Drains SoundCard.next) (.init 8 0 fun _ => 0) oneBlock = some s ∧
      s.input.ends.committed = [7, 0, 0, 0] ∧ s.device = s.input.ends.committed :=
  ⟨_, rfl, rfl,
    @handed_before_done 8 0 (by decide) (fun _ => 0) oneBlock _ (Run.of_guarded_exec rfl) rfl⟩

/-- The same block, with the decoder at its end before the worker reads. -/
def oneBlockThenQuit : List CardAction :=
  [.produce (.acceptEvent (.init 4)), .produce .queueWrite, .outer .ok, .outer .ok,
   .produce (.write (.beginWrite 4)), .produce (.write (.store 0 7)),
   .produce (.write (.endWrite 4)),
   .produce (.acceptEvent .quit), .produce .queueWrite,
   .beginRead, .compare, .peekEvent, .drained]

/-- The worker is done and the device has been handed nothing. -/
theorem lost_before_done_oneBlock :
    ¬ ∀ (S O : Nat) (garbage : Memory UInt8) (acts : List CardAction) (s : SoundCard),
      0 < S → Run (Steps SoundCard.next) (.init S O garbage) acts s → s.worker = .done →
        s.device = s.input.ends.committed := by
  intro h
  obtain ⟨s, hexec, hworker, hdevice, hcommitted⟩ :
      ∃ s, exec SoundCard.next (.init 8 0 fun _ => 0) oneBlockThenQuit = some s ∧
        s.worker = .done ∧ s.device = [] ∧ s.input.ends.committed = [7, 0, 0, 0] :=
    ⟨_, rfl, rfl, rfl, rfl⟩
  have hs := h 8 0 (fun _ => 0) oneBlockThenQuit s (by decide) (Run.of_exec hexec) hworker
  rw [hdevice, hcommitted] at hs
  simp at hs

end FreeAmp.Io
