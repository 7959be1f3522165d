/-
  Io/EventBufferRun.lean --- when an `EventBuffer` keeps events and bytes in order.

  The consumer takes the distance to the next mark from two ring indices.  The
  indices are the two totals modulo the ring size, and while the consumer has not
  passed the mark the true distance is at most the ring size; so the indices give
  the distance away, except that a mark one full lap ahead looks like a mark that
  has been reached (`eventPending_iff`).  A comparison that asks for more than is
  left would then be right; the one in the source asks for as much as is left.

  `Unambiguous` is what has to be true of a step of `BeginRead` for the answer to
  be right, and of its last step for the region to end at the mark when the mark
  was set only after `Peek` found the queue empty.
-/
import FreeAmp.Io.EventBuffer

namespace FreeAmp.Io

open FreeAmp.Lib

variable {ε : Type}

/-! ## What the indices tell -/

/-- The comparison of `BeginRead`, for a consumer at `R` and a mark at most one lap
ahead: it answers that the event is pending when the mark is reached, when it is one
full lap away, and when no more than the bytes wanted are left. -/
theorem eventPending_iff {S R n : Nat} {e : BufferEvent ε} (hS : 0 < S)
    (hindex : e.index = e.stamp % S) (hlo : R ≤ e.stamp) (hhi : e.stamp ≤ R + S) :
    eventPending (some e) (R % S) S n = true ↔
      e.stamp - R = 0 ∨ e.stamp - R = S ∨ e.stamp - R ≤ n := by
  obtain ⟨d, hd⟩ : ∃ d, e.stamp = R + d := ⟨e.stamp - R, by omega⟩
  have hdist : e.stamp - R = d := by omega
  have hr := Nat.mod_lt R hS
  simp only [eventPending, Bool.or_eq_true, beq_iff_eq, decide_eq_true_eq]
  rw [hdist, hindex, hd]
  unfold maxBytes
  rcases Nat.lt_or_ge d S with hlap | hlap
  · rcases Nat.lt_or_ge (R % S + d) S with hwrap | hwrap
    · rw [add_mod_of_lt hwrap]
      split <;> omega
    · rw [add_mod_of_ge hwrap (by omega)]
      split <;> omega
  · obtain rfl : d = S := by omega
    simp

/-- A distance and a request for which the comparison gives the right answer. -/
def Apart (bufferSize distance bytesWanted : Nat) : Prop :=
  distance = 0 ∨ (distance < bufferSize ∧ distance ≠ bytesWanted) ∨
    (distance = bufferSize ∧ bufferSize < bytesWanted)

instance (bufferSize distance bytesWanted : Nat) :
    Decidable (Apart bufferSize distance bytesWanted) :=
  inferInstanceAs (Decidable (_ ∨ _))

/-- The answer is the right one exactly then: pending when the mark is reached or fewer
bytes than wanted are left before it. -/
theorem eventPending_right_iff {S R n : Nat} {e : BufferEvent ε} (hS : 0 < S)
    (hindex : e.index = e.stamp % S) (hlo : R ≤ e.stamp) (hhi : e.stamp ≤ R + S) :
    (eventPending (some e) (R % S) S n = true ↔ (e.stamp = R ∨ e.stamp < R + n)) ↔
      Apart S (e.stamp - R) n := by
  rw [eventPending_iff hS hindex hlo hhi]
  unfold Apart
  omega

/-! ## What the users rely on -/

/-- The answer is that the event is pending exactly when the consumer has reached the
mark or fewer bytes than wanted remain before it. -/
def Report.Right (rep : Report) : Prop :=
  rep.pending = true ↔
    ∃ stamp, rep.stamp = some stamp ∧
      (stamp = rep.position ∨ stamp < rep.position + rep.wanted)

/-- Events and bytes are in order. -/
structure EventsInOrder (s : EventEnds ε) : Prop where
  /-- the events obtained, then those still queued, are the events accepted -/
  order : s.obtained ++ s.queue.map BufferEvent.event = s.accepted
  reports : ∀ rep ∈ s.reports, rep.Right
  /-- a region handed to the consumer ends before the mark -/
  region : ∀ r h, s.ends.reading = some r → s.queue.head? = some h →
    s.position + r.size ≤ h.stamp
  /-- an event delivered to a consumer that reads in units dividing the byte count -/
  deliveries : ∀ d ∈ s.deliveries, ∀ n, d.toldBy = some n → n ∣ d.stamp - d.position →
    d.position = d.stamp

/-- The comparison of a consumer that has found an event can only go right. -/
def CompareUnambiguous (s : EventEnds ε) : Consumer ε → Prop
  | .peeked n (some h) => Apart s.ends.buffer.bufferSize (h.stamp - s.position) n
  | _ => True

/-- No mark has come to stand inside the region of a consumer that has found none. -/
def PullUnambiguous (s : EventEnds ε) : Consumer ε → Option (BufferEvent ε) → Prop
  | .pulling n none, some h => s.ends.buffer.readable n → s.position + n ≤ h.stamp
  | _, _ => True

/-- A step that keeps events and bytes in order. -/
def Unambiguous (s : EventEnds ε) : EventAction ε → Prop
  | .compare => CompareUnambiguous s s.consumer
  | .pull => PullUnambiguous s s.consumer s.queue.head?
  | _ => True

instance (s : EventEnds ε) : (c : Consumer ε) → Decidable (CompareUnambiguous s c)
  | .peeked _ (some _) => inferInstanceAs (Decidable (Apart _ _ _))
  | .peeked _ none | .idle | .pulling _ _ | .told _ => isTrue trivial

instance (s : EventEnds ε) : (c : Consumer ε) → (head : Option (BufferEvent ε)) →
    Decidable (PullUnambiguous s c head)
  | .pulling _ none, some _ => inferInstanceAs (Decidable (_ → _))
  | .pulling _ none, none | .pulling _ (some _), _ | .idle, _ | .peeked _ _, _
  | .told _, _ => isTrue trivial

instance (s : EventEnds ε) : (a : EventAction ε) → Decidable (Unambiguous s a)
  | .compare => inferInstanceAs (Decidable (CompareUnambiguous s s.consumer))
  | .pull => inferInstanceAs (Decidable (PullUnambiguous s s.consumer s.queue.head?))
  | .write _ | .acceptEvent _ | .queueWrite | .beginRead _ | .endRead _ | .getEvent =>
    isTrue trivial

/-! ## The invariant -/

/-- How far the consumer's region goes. -/
def EventEnds.reach (s : EventEnds ε) : Nat :=
  match s.ends.reading with
  | some r => s.position + r.size
  | none => s.position

/-- A mark between the consumer and the producer, as its index remembers it. -/
structure Mark (s : EventEnds ε) (e : BufferEvent ε) : Prop where
  index_eq : e.index = e.stamp % s.ends.buffer.bufferSize
  ahead : s.reach ≤ e.stamp
  behind : e.stamp ≤ s.ends.committed.length

/-- What the consumer knows in the middle of a call. -/
def Knows (s : EventEnds ε) : Consumer ε → Prop
  | .idle => True
  | .peeked _ head => s.ends.reading = none ∧ ∀ h, head = some h → s.queue.head? = some h
  | .pulling n head => s.ends.reading = none ∧
      ∀ h, head = some h → s.queue.head? = some h ∧ s.position + n ≤ h.stamp
  | .told n => s.ends.reading = none ∧
      ∃ h, s.queue.head? = some h ∧ (h.stamp = s.position ∨ h.stamp < s.position + n)

/-- The invariant of runs whose steps are unambiguous. -/
structure Marks (s : EventEnds ε) : Prop where
  cursors : Cursors s.ends
  exit : s.ends.buffer.exit = false
  queued : ∀ e ∈ s.queue, Mark s e
  ordered : s.queue.Pairwise fun e e' => e.stamp ≤ e'.stamp
  accepting : ∀ e, s.accepting = some e →
    e.index = e.stamp % s.ends.buffer.bufferSize ∧ e.stamp = s.ends.committed.length
  consumer : Knows s s.consumer

namespace Marks

variable {s t : EventEnds ε}

theorem init {S O : Nat} (hS : 0 < S) (garbage : Memory UInt8) :
    Marks (.init S O garbage : EventEnds ε) where
  cursors := .init hS garbage
  exit := rfl
  queued e he := by simp [EventEnds.init] at he
  ordered := .nil
  accepting e he := by simp [EventEnds.init] at he
  consumer := trivial

theorem reach_le (h : Marks s) : s.reach ≤ s.ends.committed.length := by
  have hcount := h.cursors.count_eq
  unfold EventEnds.reach EventEnds.position
  split
  · rename_i r hr
    have havail := (h.cursors.reader r hr).available
    omega
  · omega

theorem reach_reading {r : ReadRegion} (hr : s.ends.reading = some r) :
    s.reach = s.position + r.size := by
  unfold EventEnds.reach
  rw [hr]

theorem within_lap (h : Marks s) {e : BufferEvent ε} (he : e ∈ s.queue) :
    s.position ≤ e.stamp ∧ e.stamp ≤ s.position + s.ends.buffer.bufferSize := by
  have hmark := h.queued e he
  have hahead := hmark.ahead
  have hbehind := hmark.behind
  have hcount := h.cursors.count_eq
  have hcle := h.cursors.count_le
  unfold EventEnds.reach at hahead
  unfold EventEnds.position at hahead ⊢
  split at hahead <;> omega

/-- What ends before the first mark ends before every mark. -/
theorem le_of_head (h : Marks s) {p : Nat} (hp : ∀ e, s.queue.head? = some e → p ≤ e.stamp)
    {e : BufferEvent ε} (he : e ∈ s.queue) : p ≤ e.stamp := by
  have hordered := h.ordered
  cases hq : s.queue with
  | nil => simp [hq] at he
  | cons first rest =>
    have hfirst : p ≤ first.stamp := hp first (by simp [hq])
    rw [hq] at he hordered
    rcases List.mem_cons.mp he with rfl | hrest
    · exact hfirst
    · exact Nat.le_trans hfirst (List.rel_of_pairwise_cons hordered hrest)

/-! ### Preservation -/

theorem write (h : Marks s) {a : Action} (hst : s.write a = some t) : Marks t := by
  obtain ⟨ends, hw, hacc, hends, rfl⟩ := EventEnds.write_cases hst
  obtain ⟨hcons, hread, hcomm, hexit⟩ := Ends.write_frame hw hends
  obtain ⟨hsize, -⟩ := Ends.next_sizes hends
  refine
    { cursors := h.cursors.step hends
      exit := hexit.trans h.exit
      queued := ?_
      ordered := h.ordered
      accepting := fun e he => by simp [hacc] at he
      consumer := ?_ }
  · intro e he
    have hmark := h.queued e he
    exact
      { index_eq := hsize ▸ hmark.index_eq
        ahead := by
          have hahead := hmark.ahead
          unfold EventEnds.reach EventEnds.position at hahead ⊢
          rwa [hread, hcons]
        behind := Nat.le_trans hmark.behind hcomm }
  · have hknows := h.consumer
    cases hc : s.consumer with
    | idle => trivial
    | peeked n head => simpa [Knows, EventEnds.position, hc, hread, hcons] using hknows
    | pulling n head => simpa [Knows, EventEnds.position, hc, hread, hcons] using hknows
    | told n => simpa [Knows, EventEnds.position, hc, hread, hcons] using hknows

theorem acceptEvent (h : Marks s) {event : ε} (hst : s.acceptEvent event = some t) :
    Marks t := by
  obtain ⟨index, hacc, hindex, rfl⟩ := EventEnds.acceptEvent_cases hst
  refine
    { cursors := h.cursors
      exit := h.exit
      queued := fun e he => { h.queued e he with }
      ordered := h.ordered
      accepting := ?_
      consumer := h.consumer }
  intro e he
  obtain rfl := Option.some.inj he
  unfold PullBuffer.getWriteIndex at hindex
  rw [if_neg (by simp [h.exit])] at hindex
  split at hindex
  · simp at hindex
  · obtain rfl := Option.some.inj hindex
    exact ⟨h.cursors.writeIndex_eq, rfl⟩

theorem queueWrite (h : Marks s) (hst : s.queueWrite = some t) : Marks t := by
  obtain ⟨e, hacc, rfl⟩ := EventEnds.queueWrite_cases hst
  obtain ⟨hindex, hstamp⟩ := h.accepting e hacc
  have hnew : Mark s e := ⟨hindex, by rw [hstamp]; exact h.reach_le, Nat.le_of_eq hstamp⟩
  have hhead : ∀ head, s.queue.head? = some head → (s.queue ++ [e]).head? = some head := by
    intro head hq
    rw [List.head?_append, hq, Option.some_or]
  refine
    { cursors := h.cursors
      exit := h.exit
      queued := ?_
      ordered := ?_
      accepting := fun e' he' => by simp at he'
      consumer := ?_ }
  · intro e' he'
    rcases List.mem_append.mp he' with hold | hlast
    · exact { h.queued e' hold with }
    · obtain rfl := List.mem_singleton.mp hlast
      exact { hnew with }
  · refine List.pairwise_append.mpr ⟨h.ordered, List.pairwise_singleton _ _, ?_⟩
    intro e' he' e'' he''
    obtain rfl := List.mem_singleton.mp he''
    rw [hstamp]
    exact (h.queued e' he').behind
  · have hknows := h.consumer
    cases hc : s.consumer with
    | idle => trivial
    | peeked n head =>
      rw [hc] at hknows
      exact ⟨hknows.1, fun first hf => hhead first (hknows.2 first hf)⟩
    | pulling n head =>
      rw [hc] at hknows
      exact ⟨hknows.1, fun first hf =>
        ⟨hhead first (hknows.2 first hf).1, (hknows.2 first hf).2⟩⟩
    | told n =>
      rw [hc] at hknows
      obtain ⟨hread, first, hfirst, hdue⟩ := hknows
      exact ⟨hread, first, hhead first hfirst, hdue⟩

theorem beginRead (h : Marks s) {n : Nat} (hst : s.beginRead n = some t) : Marks t := by
  obtain ⟨hread, rfl⟩ := EventEnds.beginRead_cases hst
  exact
    { cursors := h.cursors
      exit := h.exit
      queued := fun e he => { h.queued e he with }
      ordered := h.ordered
      accepting := h.accepting
      consumer := ⟨hread, fun _ hf => hf⟩ }

theorem getReadIndex (h : Marks s) {readIndex : Nat}
    (hindex : s.ends.buffer.getReadIndex = some readIndex) :
    readIndex = s.position % s.ends.buffer.bufferSize := by
  unfold PullBuffer.getReadIndex at hindex
  rw [if_neg (by simp [h.exit])] at hindex
  split at hindex
  · simp at hindex
  · obtain rfl := Option.some.inj hindex
    exact h.cursors.readIndex_eq

/-- The answer of `BeginRead` to a consumer that has found an event is right exactly
when the distance to the mark and the request are `Apart`. -/
theorem compare_right_iff (h : Marks s) {n readIndex : Nat} {first : BufferEvent ε}
    (hfirst : s.queue.head? = some first)
    (hindex : s.ends.buffer.getReadIndex = some readIndex) :
    (eventPending (some first) readIndex s.ends.buffer.bufferSize n = true ↔
        (first.stamp = s.position ∨ first.stamp < s.position + n)) ↔
      Apart s.ends.buffer.bufferSize (first.stamp - s.position) n := by
  have hmem : first ∈ s.queue := List.mem_of_mem_head? hfirst
  obtain ⟨hlo, hhi⟩ := h.within_lap hmem
  obtain rfl := h.getReadIndex hindex
  exact eventPending_right_iff h.cursors.size_pos (h.queued first hmem).index_eq hlo hhi

theorem compare (h : Marks s) (hun : Unambiguous s .compare) (hst : s.compare = some t) :
    Marks t := by
  obtain ⟨n, head, readIndex, hc, hindex, rfl⟩ := EventEnds.compare_cases hst
  have hknows := h.consumer
  rw [hc] at hknows
  refine
    { cursors := h.cursors
      exit := h.exit
      queued := fun e he => { h.queued e he with }
      ordered := h.ordered
      accepting := h.accepting
      consumer := ?_ }
  cases head with
  | none => exact ⟨hknows.1, fun _ hf => by simp at hf⟩
  | some first =>
    have hfirst := hknows.2 first rfl
    have hapart : CompareUnambiguous s s.consumer := hun
    rw [hc] at hapart
    have hright := (h.compare_right_iff (n := n) hfirst hindex).mpr hapart
    simp only
    split
    · rename_i hpending
      exact ⟨hknows.1, first, hfirst, hright.mp hpending⟩
    · rename_i hpending
      refine ⟨hknows.1, fun e he => ?_⟩
      obtain rfl := Option.some.inj he
      have hnot := mt hright.mpr hpending
      have hends : s.position + n ≤ first.stamp := by omega
      exact ⟨hfirst, hends⟩

/-- What `PullBuffer::BeginRead` grants ends before the first mark. -/
theorem pull_ends (h : Marks s) (hun : Unambiguous s .pull) {n : Nat}
    {head : Option (BufferEvent ε)} (hc : s.consumer = .pulling n head)
    (hreadable : s.ends.buffer.readable n) :
    ∀ e, s.queue.head? = some e → s.position + n ≤ e.stamp := by
  intro e he
  have hknows := h.consumer
  rw [hc] at hknows
  cases head with
  | none =>
    have hlate : PullUnambiguous s s.consumer s.queue.head? := hun
    rw [hc, he] at hlate
    exact hlate hreadable
  | some first =>
    obtain ⟨hfirst, hends⟩ := hknows.2 first rfl
    rw [hfirst] at he
    obtain rfl := Option.some.inj he
    exact hends

theorem pull (h : Marks s) (hun : Unambiguous s .pull) (hst : s.pull = some t) : Marks t := by
  obtain ⟨n, head, ends, hc, hends, rfl⟩ := EventEnds.pull_cases hst
  have hcur := h.cursors.beginRead hends
  obtain rfl | ⟨hread, hcount, hfit, rfl⟩ := Ends.beginRead_cases hends
  · exact
      { cursors := h.cursors
        exit := h.exit
        queued := fun e he => { h.queued e he with }
        ordered := h.ordered
        accepting := h.accepting
        consumer := trivial }
  · have hfirst := h.pull_ends hun hc ⟨hcount, hfit⟩
    refine
      { cursors := hcur
        exit := h.exit
        queued := ?_
        ordered := h.ordered
        accepting := h.accepting
        consumer := trivial }
    intro e he
    have hmark := h.queued e he
    exact
      { index_eq := hmark.index_eq
        ahead := h.le_of_head hfirst he
        behind := hmark.behind }

theorem endRead (h : Marks s) {m : Nat} (hst : s.endRead m = some t) : Marks t := by
  obtain ⟨ends, hc, hends, rfl⟩ := EventEnds.endRead_cases hst
  have hcur := h.cursors.endRead hends
  obtain ⟨r, hr, hm, -, rfl⟩ := Ends.endRead_cases hends
  refine
    { cursors := hcur
      exit := h.exit
      queued := ?_
      ordered := h.ordered
      accepting := h.accepting
      consumer := by simp only [hc]; trivial }
  intro e he
  have hmark := h.queued e he
  have hahead := hmark.ahead
  simp only [EventEnds.reach, EventEnds.position, hr] at hahead
  refine { index_eq := hmark.index_eq, ahead := ?_, behind := hmark.behind }
  simp only [EventEnds.reach, EventEnds.position, List.length_append, Memory.length_slice]
  omega

theorem getEvent (h : Marks s) (hst : s.getEvent = some t) : Marks t := by
  obtain ⟨-, rfl⟩ | ⟨e, rest, hqueue, rfl⟩ := EventEnds.getEvent_cases hst
  · exact
      { cursors := h.cursors
        exit := h.exit
        queued := fun e he => { h.queued e he with }
        ordered := h.ordered
        accepting := h.accepting
        consumer := trivial }
  · have hordered := h.ordered
    rw [hqueue] at hordered
    refine
      { cursors := h.cursors
        exit := h.exit
        queued := ?_
        ordered := (List.pairwise_cons.mp hordered).2
        accepting := h.accepting
        consumer := trivial }
    intro e' he'
    have hmem : e' ∈ s.queue := by
      rw [hqueue]
      exact List.mem_cons_of_mem _ he'
    exact { h.queued e' hmem with }

theorem step {a : EventAction ε} (h : Marks s) (hun : Unambiguous s a)
    (hst : s.next a = some t) : Marks t := by
  cases a with
  | write a => exact h.write hst
  | acceptEvent event => exact h.acceptEvent hst
  | queueWrite => exact h.queueWrite hst
  | beginRead n => exact h.beginRead hst
  | compare => exact h.compare hun hst
  | pull => exact h.pull hun hst
  | endRead m => exact h.endRead hst
  | getEvent => exact h.getEvent hst

end Marks

/-! ## Every run -/

namespace EventsInOrder

variable {s t : EventEnds ε}

theorem init (S O : Nat) (garbage : Memory UInt8) :
    EventsInOrder (.init S O garbage : EventEnds ε) where
  order := rfl
  reports rep hrep := by simp [EventEnds.init] at hrep
  region r h hr := by simp [EventEnds.init, Ends.init] at hr
  deliveries d hd := by simp [EventEnds.init] at hd

/-- A step of `BeginRead`'s comparison adds a right answer exactly when it is
unambiguous. -/
theorem compare_iff (hm : Marks s) (h : EventsInOrder s) (hst : s.compare = some t) :
    EventsInOrder t ↔ Unambiguous s .compare := by
  obtain ⟨n, head, readIndex, hc, hindex, rfl⟩ := EventEnds.compare_cases hst
  have hknows := hm.consumer
  rw [hc] at hknows
  have hright : Report.Right ⟨n, head.map BufferEvent.stamp, s.position,
      eventPending head readIndex s.ends.buffer.bufferSize n⟩ ↔ Unambiguous s .compare := by
    simp only [Unambiguous, hc]
    cases head with
    | none => simp [Report.Right, CompareUnambiguous, eventPending]
    | some first =>
      have hiff := hm.compare_right_iff (n := n) (hknows.2 first rfl) hindex
      simpa [Report.Right, CompareUnambiguous] using hiff
  rw [← hright]
  constructor
  · intro ht
    exact ht.reports _ (by simp)
  · intro hrep
    refine { h with reports := ?_ }
    intro rep hmem
    rcases List.mem_append.mp hmem with hold | hnew
    · exact h.reports rep hold
    · obtain rfl := List.mem_singleton.mp hnew
      exact hrep

/-- The last step of `BeginRead` hands out a region that ends before the mark exactly when
it is unambiguous. -/
theorem pull_iff (hm : Marks s) (h : EventsInOrder s) (hst : s.pull = some t) :
    EventsInOrder t ↔ Unambiguous s .pull := by
  obtain ⟨n, head, ends, hc, hends, rfl⟩ := EventEnds.pull_cases hst
  constructor
  · intro ht
    simp only [Unambiguous, hc]
    cases head with
    | some first => trivial
    | none =>
      cases hq : s.queue.head? with
      | none => trivial
      | some first =>
        intro hreadable
        have hknows := hm.consumer
        rw [hc] at hknows
        have hgrant := beginRead_granted hm.cursors hknows.1 hm.exit hreadable
        have hsome : ends.reading = some ⟨s.ends.buffer.readIndex, n⟩ ∧
            ends.consumed = s.ends.consumed := by
          unfold Ends.beginRead at hends
          rw [hknows.1, hgrant] at hends
          obtain rfl := by simpa using hends
          exact ⟨rfl, rfl⟩
        have hregion := ht.region _ first hsome.1 hq
        simpa [EventEnds.position, hsome.2] using hregion
  · intro hun
    obtain rfl | ⟨hread, hcount, hfit, rfl⟩ := Ends.beginRead_cases hends
    · exact { h with }
    · refine { h with region := ?_ }
      intro r first hr hfirst
      obtain rfl := Option.some.inj hr
      exact hm.pull_ends hun hc ⟨hcount, hfit⟩ first hfirst

theorem others (hm : Marks s) (h : EventsInOrder s) {a : EventAction ε}
    (hcompare : a ≠ .compare) (hpull : a ≠ .pull) (hst : s.next a = some t) :
    EventsInOrder t := by
  cases a with
  | write a =>
    obtain ⟨ends, hw, hacc, hends, rfl⟩ := EventEnds.write_cases hst
    obtain ⟨hcons, hread, -, -⟩ := Ends.write_frame hw hends
    refine { h with region := ?_ }
    intro r first hr hfirst
    have hregion := h.region r first (hread ▸ hr) hfirst
    simpa [EventEnds.position, hcons] using hregion
  | acceptEvent event =>
    obtain ⟨index, hacc, hindex, rfl⟩ := EventEnds.acceptEvent_cases hst
    exact { h with }
  | queueWrite =>
    obtain ⟨e, hacc, rfl⟩ := EventEnds.queueWrite_cases hst
    refine { h with order := ?_, region := ?_ }
    · have horder := h.order
      simp only [List.map_append, List.map_cons, List.map_nil]
      rw [← List.append_assoc, horder]
    · intro r first hr hfirst
      have hreach := hm.reach_le
      rw [List.head?_append] at hfirst
      cases hq : s.queue.head? with
      | some old =>
        rw [hq] at hfirst
        obtain rfl := Option.some.inj hfirst
        exact h.region r old hr hq
      | none =>
        rw [hq] at hfirst
        obtain rfl := Option.some.inj hfirst
        have hsr : s.ends.reading = some r := hr
        rw [(hm.accepting e hacc).2]
        rwa [Marks.reach_reading hsr] at hreach
  | beginRead n =>
    obtain ⟨hread, rfl⟩ := EventEnds.beginRead_cases hst
    exact { h with }
  | compare => exact absurd rfl hcompare
  | pull => exact absurd rfl hpull
  | endRead m =>
    obtain ⟨ends, hc, hends, rfl⟩ := EventEnds.endRead_cases hst
    obtain ⟨r, hr, hle, -, rfl⟩ := Ends.endRead_cases hends
    exact { h with region := fun r first hr => by simp at hr }
  | getEvent =>
    obtain ⟨-, rfl⟩ | ⟨e, rest, hqueue, rfl⟩ := EventEnds.getEvent_cases hst
    · exact { h with }
    · have hmem : e ∈ s.queue := by simp [hqueue]
      refine { order := ?_, reports := h.reports, region := ?_, deliveries := ?_ }
      · have horder := h.order
        rw [hqueue] at horder
        simpa using horder
      · intro r first hr hfirst
        have hfirst' : first ∈ s.queue := by
          rw [hqueue]
          exact List.mem_cons_of_mem _ (List.mem_of_mem_head? hfirst)
        have hsr : s.ends.reading = some r := hr
        have hahead := (hm.queued first hfirst').ahead
        rwa [Marks.reach_reading hsr] at hahead
      · intro d hd n hn hdvd
        rcases List.mem_append.mp hd with hold | hnew
        · exact h.deliveries d hold n hn hdvd
        · obtain rfl := List.mem_singleton.mp hnew
          have hlo := (hm.within_lap hmem).1
          have hknows := hm.consumer
          unfold EventEnds.toldBy at hn
          split at hn
          · rename_i k hc
            obtain rfl := Option.some.inj hn
            rw [hc] at hknows
            obtain ⟨-, first, hfirst, hdue⟩ := hknows
            obtain rfl : e = first := by simpa [hqueue] using hfirst
            -- fewer than `k` bytes are left, and a multiple of `k`
            rcases hdue with heq | hlt
            · exact heq.symm
            · have hzero : e.stamp - s.position = 0 :=
                Nat.eq_zero_of_dvd_of_lt hdvd (by omega)
              simp only
              omega
          · simp at hn

/-- A step keeps events and bytes in order exactly when it is unambiguous. -/
theorem step_iff (hm : Marks s) (h : EventsInOrder s) {a : EventAction ε}
    (hst : s.next a = some t) : EventsInOrder t ↔ Unambiguous s a := by
  by_cases hcompare : a = .compare
  · subst hcompare
    exact compare_iff hm h hst
  by_cases hpull : a = .pull
  · subst hpull
    exact pull_iff hm h hst
  refine iff_of_true (others hm h hcompare hpull hst) ?_
  cases a with
  | compare => exact absurd rfl hcompare
  | pull => exact absurd rfl hpull
  | _ => trivial

end EventsInOrder

/-- In every run of an `EventBuffer` whose steps are unambiguous, events and bytes are in
order; and from the states of such runs exactly the unambiguous steps keep them so. -/
theorem events_in_order {S O : Nat} (hS : 0 < S) {garbage : Memory UInt8}
    {acts : List (EventAction ε)} {s : EventEnds ε}
    (hrun : Run (Guarded Unambiguous (Steps EventEnds.next)) (.init S O garbage) acts s) :
    EventsInOrder s ∧
      ∀ a t, s.next a = some t → (EventsInOrder t ↔ Unambiguous s a) := by
  have hinv : Marks s ∧ EventsInOrder s := by
    refine hrun.invariant (P := fun s => Marks s ∧ EventsInOrder s) ?_
      ⟨.init hS garbage, .init S O garbage⟩
    rintro u a v ⟨hm, ho⟩ ⟨hun, hst⟩
    exact ⟨hm.step hun hst, (EventsInOrder.step_iff hm ho hst).mpr hun⟩
  exact ⟨hinv.2, fun a t hst => EventsInOrder.step_iff hinv.1 hinv.2 hst⟩

/-- An event that is met where it was handed in, and one that the consumer is still on its
way to. -/
def twoMarks : List (EventAction Unit) :=
  [.write (.beginWrite 4), .write (.endWrite 4), .beginRead 4, .compare, .pull, .endRead 4,
   .acceptEvent (), .queueWrite, .beginRead 2, .compare, .getEvent,
   .write (.beginWrite 4), .write (.endWrite 4), .acceptEvent (), .queueWrite,
   .beginRead 2, .compare, .pull]

theorem events_in_order_twoMarks :
    ∃ s, exec (guardedNext Unambiguous EventEnds.next) (.init 8 0 fun _ => 0) twoMarks = some s ∧
      s.obtained.length = 1 ∧ s.queue.length = 1 ∧ EventsInOrder s ∧
      ∀ a t, s.next a = some t → (EventsInOrder t ↔ Unambiguous s a) :=
  ⟨_, rfl, rfl, rfl,
    @events_in_order Unit 8 0 (by decide) (fun _ => 0) twoMarks _ (Run.of_guarded_exec rfl)⟩

/-- Four bytes, an event, and a read of four bytes. -/
def upToTheMark : List (EventAction Unit) :=
  [.write (.beginWrite 4), .write (.endWrite 4), .acceptEvent (), .queueWrite,
   .beginRead 4, .compare]

/-- The read is refused although exactly the four bytes asked for remain before the
mark. -/
theorem out_of_order_upToTheMark :
    ¬ ∀ (S O : Nat) (garbage : Memory UInt8) (acts : List (EventAction Unit))
        (s : EventEnds Unit), 0 < S →
      Run (Steps EventEnds.next) (.init S O garbage) acts s → EventsInOrder s := by
  intro h
  obtain ⟨s, hexec, hreports⟩ :
      ∃ s, exec EventEnds.next (.init 8 0 fun _ => 0) upToTheMark = some s ∧
        s.reports = [⟨4, some 4, 0, true⟩] := ⟨_, rfl, rfl⟩
  have hs := h 8 0 (fun _ => 0) upToTheMark s (by decide) (Run.of_exec hexec)
  have hright : Report.Right ⟨4, some 4, 0, true⟩ := hs.reports _ (by simp [hreports])
  simp [Report.Right] at hright

end FreeAmp.Io
