/-
  Io/PullBufferContents.lean --- the bytes in a `PullBuffer` are a FIFO.

  `Contents` is the half of the invariant that is about bytes.  Each of its
  clauses survives a step because the step writes only to cells that none of
  them speaks of:

      a store        to the free cells of the ring, or to the overflow
      EndWrite       spilled bytes to the head of the ring, below the read index
      BeginRead      the head of the ring to the overflow, where no writer is

  With it the buffer refines the abstract channel of `Lib/Fifo.lean`, and the
  reader's region is, for as long as the reader holds it, the next committed
  bytes.
-/
import FreeAmp.Io.PullBufferRun

namespace FreeAmp.Io

open FreeAmp.Lib

/-- The half of the invariant that is about bytes. -/
structure Contents (s : Ends) : Prop where
  /-- the ring holds what is committed and not yet consumed -/
  stored : Stored s.buffer.bufferSize s.buffer.pullBuffer s.committed s.consumed.length
  /-- the writer's region holds what the writer stored there -/
  draft : ∀ r, s.writing = some r →
    s.buffer.pullBuffer.slice r.pointer r.bytes.length = r.bytes
  /-- the reader's region holds the next committed bytes, as far as it is allocated -/
  region : ∀ r, s.reading = some r → ∀ i, i < r.size →
    r.pointer + i < s.buffer.bufferSize + s.buffer.overflowSize →
    s.committed[s.consumed.length + i]? = some (s.buffer.pullBuffer (r.pointer + i))

namespace Contents

variable {s t : Ends}

theorem init (S O : Nat) (garbage : Memory UInt8) : Contents (.init S O garbage) where
  stored p _ hlt := by simp [Ends.init] at hlt
  draft r hr := by simp [Ends.init] at hr
  region r hr := by simp [Ends.init] at hr

/-! ## Cells that are not live -/

/-- No live cell of the ring lies in the region granted to the writer. -/
theorem live_cell_ne (hc : Cursors s) {r : WriteRegion} (hr : WriterCursors s.buffer r)
    {i p : Nat} (hi : i < r.bytes.length) (hlo : s.consumed.length ≤ p)
    (hhi : p < s.committed.length) :
    p % s.buffer.bufferSize ≠ s.buffer.writeIndex + i := by
  have hroom := hr.room
  have hcount := hc.count_eq
  by_cases hend : s.buffer.writeIndex + i < s.buffer.bufferSize
  · rw [← hc.write_cell hend]
    exact mod_ne_of_lap (by omega) (by omega)
  · have hlt := Nat.mod_lt p hc.size_pos
    omega

/-- Nor does a cell of the region granted to the reader. -/
theorem region_cell_ne (hc : Cursors s) {r : WriteRegion} (hr : WriterCursors s.buffer r)
    {i k : Nat} (hi : i < r.bytes.length) (hk : k < s.buffer.bytesInBuffer) :
    s.buffer.readIndex + k ≠ s.buffer.writeIndex + i := by
  by_cases hend : s.buffer.readIndex + k < s.buffer.bufferSize
  · rw [← hc.read_cell hend]
    have hcount := hc.count_eq
    exact live_cell_ne hc hr hi (by omega) (by omega)
  · -- the region is wrapped, so the writer does not reach the overflow
    intro heq
    have hunwrapped := hr.unwrapped (by omega)
    omega

/-- `EndWrite` brings the spill back below the read index. -/
theorem spill_le_readIndex {r : WriteRegion} (hr : WriterCursors s.buffer r) {m : Nat}
    (hm : m ≤ r.bytes.length) :
    s.buffer.writeIndex + m - s.buffer.bufferSize ≤ s.buffer.readIndex := by
  have hroom := hr.room
  by_cases hspill : s.buffer.bufferSize < s.buffer.writeIndex + m
  · have hunwrapped := hr.unwrapped (by omega)
    omega
  · omega

/-! ## Preservation -/

theorem beginWrite (h : Contents s) {n : Nat} (hst : s.beginWrite n = some t) :
    Contents t := by
  obtain rfl | ⟨_, _, _, _, rfl⟩ := Ends.beginWrite_cases hst
  · exact h
  · refine { h with draft := ?_ }
    intro r hr
    obtain rfl := Option.some.inj hr
    simp

theorem store (hc : Cursors s) (h : Contents s) {offset : Nat} {byte : UInt8}
    (hst : s.store offset byte = some t) : Contents t := by
  obtain ⟨r, hw, hoff, rfl⟩ := Ends.store_cases hst
  have hr := hc.writer r hw
  constructor
  · refine h.stored.frame fun p hlo hhi => Memory.poke_other ?_
    rw [hr.pointer_eq]
    exact live_cell_ne hc hr hoff hlo hhi
  · intro r' hr'
    obtain rfl := Option.some.inj hr'
    simp only [List.length_set]
    rw [Memory.slice_poke, h.draft r hw]
  · intro q hq i hi hin
    have hqc := hc.reader q hq
    have havail := hqc.available
    have hne : q.pointer + i ≠ r.pointer + offset := by
      rw [hqc.pointer_eq, hr.pointer_eq]
      exact region_cell_ne hc hr hoff (by omega)
    simp only
    rw [Memory.poke_other hne]
    exact h.region q hq i hi hin

theorem endWrite (hc : Cursors s) (h : Contents s) {m : Nat}
    (hst : s.endWrite m = some t) : Contents t := by
  obtain ⟨r, hw, hm, hroom, rfl⟩ := Ends.endWrite_cases hst
  have hr := hc.writer r hw
  have hspill := spill_le_readIndex hr hm
  have hcount := hc.count_eq
  have hwlt := hc.layout.writeIndex_lt
  constructor
  · refine Stored.append (h.stored.frame ?_) ?_
    · -- the committed bytes lie above the spill
      intro p hlo hhi
      refine PullBuffer.endWriteMemory_above ?_
      by_cases hspilled : s.buffer.bufferSize < s.buffer.writeIndex + m
      · have hunwrapped := hr.unwrapped (by omega)
        have hp : p = s.consumed.length + (p - s.consumed.length) := by omega
        rw [hp, hc.read_cell (by omega)]
        omega
      · omega
    · -- the new bytes are in the cells that come next
      intro i hi
      have him : i < m := Nat.lt_of_lt_of_le hi (by simp)
      have hbyte : r.bytes[i]? = some (s.buffer.pullBuffer (s.buffer.writeIndex + i)) := by
        have hdraft : (s.buffer.pullBuffer.slice r.pointer r.bytes.length)[i]? =
            some (s.buffer.pullBuffer (r.pointer + i)) := Memory.getElem?_slice (by omega)
        rwa [h.draft r hw, hr.pointer_eq] at hdraft
      rw [List.getElem?_take_of_lt him, hbyte]
      simp only [Option.some.injEq]
      by_cases hend : s.buffer.writeIndex + i < s.buffer.bufferSize
      · rw [hc.write_cell hend, PullBuffer.endWriteMemory_above (by omega)]
      · rw [hc.write_cell_wrapped (by omega) (by omega), PullBuffer.endWriteMemory_below (by omega)]
        congr 1
        omega
  · intro q hq
    simp at hq
  · intro q hq i hi hin
    have hqc := hc.reader q hq
    have havail := hqc.available
    have hptr := hqc.pointer_eq
    have hsame := h.region q hq i hi hin
    simp only
    rw [List.getElem?_append_left (by omega), hsame, PullBuffer.endWriteMemory_above (by omega)]

theorem beginRead (hc : Cursors s) (h : Contents s) {n : Nat}
    (hst : s.beginRead n = some t) : Contents t := by
  obtain rfl | ⟨_, hcount, hfit, rfl⟩ := Ends.beginRead_cases hst
  · exact h
  have htotal := hc.count_eq
  have hcle := hc.count_le
  have hwlt := hc.layout.writeIndex_lt
  constructor
  · exact h.stored.frame fun p _ _ => PullBuffer.beginReadMemory_ring (Nat.mod_lt p hc.size_pos)
  · intro r hr
    have hwc := hc.writer r hr
    have hdraft := h.draft r hr
    refine Eq.trans (Memory.slice_congr fun i hi => ?_) hdraft
    simp only
    unfold PullBuffer.beginReadMemory
    split
    · rename_i hcopies
      -- committed bytes are wrapped, so the writer's region ends inside the ring
      have hinside : ¬ s.buffer.bufferSize < s.buffer.writeIndex + r.bytes.length := by
        intro hspill
        have hunwrapped := hwc.unwrapped hspill
        have := hcopies.2
        omega
      have hptr := hwc.pointer_eq
      exact Memory.copy_outside (.inl (by omega))
    · rfl
  · intro r hr i hi hin
    obtain rfl := Option.some.inj hr
    simp only at hi hin ⊢
    have hlive := h.stored (s.consumed.length + i) (by omega) (by omega)
    rw [hlive]
    by_cases hend : s.buffer.readIndex + i < s.buffer.bufferSize
    · rw [hc.read_cell hend, PullBuffer.beginReadMemory_ring hend]
    · have hsplit : s.buffer.readIndex + i =
          s.buffer.bufferSize + (s.buffer.readIndex + i - s.buffer.bufferSize) := by omega
      rw [hc.read_cell_wrapped (by omega) (by omega), hsplit,
        PullBuffer.beginReadMemory_overflow (by omega) (by omega)]
      congr 2
      omega

theorem endRead (h : Contents s) {m : Nat} (hst : s.endRead m = some t) : Contents t := by
  obtain ⟨r, hr, hm, hcount, rfl⟩ := Ends.endRead_cases hst
  constructor
  · refine h.stored.drop ?_
    simp
  · exact h.draft
  · intro q hq
    simp at hq

theorem step {a : Action} (hc : Cursors s) (h : Contents s) (hst : s.next a = some t) :
    Contents t := by
  cases a with
  | beginWrite n => exact h.beginWrite hst
  | store offset byte => exact h.store hc hst
  | endWrite m => exact h.endWrite hc hst
  | beginRead n => exact h.beginRead hc hst
  | endRead m => exact h.endRead hst
  | setEndOfStream eos =>
    obtain rfl := Option.some.inj hst
    exact { h with }
  | exit =>
    obtain rfl := Option.some.inj hst
    exact { h with }

/-! ## The reader's region -/

/-- A region that is allocated in full holds the next committed bytes. -/
theorem region_slice (hc : Cursors s) (h : Contents s) {r : ReadRegion}
    (hr : s.reading = some r)
    (hfits : r.pointer + r.size ≤ s.buffer.bufferSize + s.buffer.overflowSize) :
    s.buffer.pullBuffer.slice r.pointer r.size =
      (s.committed.drop s.consumed.length).take r.size := by
  refine List.ext_getElem? fun i => ?_
  by_cases hi : i < r.size
  · rw [Memory.getElem?_slice hi, List.getElem?_take_of_lt hi, List.getElem?_drop,
      h.region r hr i hi (by omega)]
  · rw [List.getElem?_eq_none (by simp; omega), List.getElem?_eq_none (by simp; omega)]

end Contents

/-! ## The invariant of every run -/

/-- Cursors and contents together. -/
structure Inv (s : Ends) : Prop where
  cursors : Cursors s
  contents : Contents s

theorem Inv.init {S O : Nat} (hS : 0 < S) (garbage : Memory UInt8) :
    Inv (.init S O garbage) :=
  ⟨.init hS garbage, .init S O garbage⟩

theorem Inv.step {s t : Ends} {a : Action} (h : Inv s) (hst : s.next a = some t) : Inv t :=
  ⟨h.cursors.step hst, h.contents.step h.cursors hst⟩

theorem Inv.of_run {S O : Nat} (hS : 0 < S) {garbage : Memory UInt8} {acts : List Action}
    {s : Ends} (hrun : Run (Steps Ends.next) (.init S O garbage) acts s) : Inv s :=
  hrun.invariant (fun _ _ _ h hst => h.step hst) (.init hS garbage)

/-! ## Refinement of the abstract channel -/

/-- The abstract channel a state of the system stands for. -/
def channel (s : Ends) : Fifo UInt8 := ⟨s.committed, s.consumed⟩

/-- Each step of the system is a put, a take or nothing on the abstract channel,
provided the reader's region is allocated in full. -/
theorem step_refines {s t : Ends} {a : Action} (h : Inv s)
    (hfits : ∀ r, s.reading = some r →
      r.pointer + r.size ≤ s.buffer.bufferSize + s.buffer.overflowSize)
    (hst : s.next a = some t) :
    ∃ ops, Run (Fifo.Step s.buffer.bufferSize) (channel s) ops (channel t) := by
  have hcount := h.cursors.count_eq
  cases a with
  | beginWrite n =>
    obtain rfl | ⟨_, _, _, _, rfl⟩ := Ends.beginWrite_cases hst <;> exact ⟨[], .refl _⟩
  | store offset byte =>
    obtain ⟨_, _, _, rfl⟩ := Ends.store_cases hst
    exact ⟨[], .refl _⟩
  | endWrite m =>
    obtain ⟨r, hw, hm, hroom, rfl⟩ := Ends.endWrite_cases hst
    refine ⟨[.put (r.bytes.take m)], .single (.put (channel s) _ ?_)⟩
    simp only [Fifo.inside, channel, List.length_drop, List.length_take]
    omega
  | beginRead n =>
    obtain rfl | ⟨_, _, _, rfl⟩ := Ends.beginRead_cases hst <;> exact ⟨[], .refl _⟩
  | endRead m =>
    obtain ⟨r, hr, hm, _, rfl⟩ := Ends.endRead_cases hst
    refine ⟨[.take (s.buffer.pullBuffer.slice r.pointer m)], .single (.take (channel s) _ ?_)⟩
    rw [← Memory.take_slice _ _ hm, h.contents.region_slice h.cursors hr (hfits r hr)]
    exact (List.take_prefix _ _).trans (List.take_prefix _ _)
  | setEndOfStream eos =>
    obtain rfl := Option.some.inj hst
    exact ⟨[], .refl _⟩
  | exit =>
    obtain rfl := Option.some.inj hst
    exact ⟨[], .refl _⟩

/-- With an overflow area every region `BeginRead` grants is allocated in full. -/
theorem region_fits {s : Ends} (h : Cursors s) (hover : 0 < s.buffer.overflowSize)
    {r : ReadRegion} (hr : s.reading = some r) :
    r.pointer + r.size ≤ s.buffer.bufferSize + s.buffer.overflowSize :=
  (h.reader r hr).fits (Nat.pos_iff_ne_zero.mp hover)

/-- Every run of a buffer with an overflow area is a run of the abstract channel. -/
theorem run_refines {S O : Nat} (hS : 0 < S) (hO : 0 < O) {garbage : Memory UInt8}
    {acts : List Action} {s : Ends}
    (hrun : Run (Steps Ends.next) (.init S O garbage) acts s) :
    ∃ ops, Run (Fifo.Step S) .empty ops (channel s) := by
  let R (s : Ends) (q : Fifo UInt8) : Prop :=
    Inv s ∧ s.buffer.bufferSize = S ∧ s.buffer.overflowSize = O ∧ q = channel s
  have hstep : ∀ s a t q, R s q → Steps Ends.next s a t →
      ∃ ops q', Run (Fifo.Step S) q ops q' ∧ R t q' := by
    rintro s a t _ ⟨hinv, hsize, hover, rfl⟩ hst
    obtain ⟨ops, habs⟩ := step_refines hinv
      (fun r hr => region_fits hinv.cursors (by omega) hr) hst
    obtain ⟨hsize', hover'⟩ := Ends.next_sizes hst
    exact ⟨ops, channel t, hsize ▸ habs, hinv.step hst, hsize'.trans hsize,
      hover'.trans hover, rfl⟩
  have hinit : R (.init S O garbage) .empty := ⟨.init hS garbage, rfl, rfl, rfl⟩
  obtain ⟨ops, q, habs, -, -, -, rfl⟩ := hrun.simulate hstep hinit
  exact ⟨ops, habs⟩

/-! ## What the reader can rely on -/

/-- A run in which the reader does not call `EndRead` leaves its region granted, the
consumed bytes as they are, and only adds to the committed ones. -/
theorem reading_of_run {s t : Ends} {acts : List Action} {r : ReadRegion}
    (hrun : Run (Steps Ends.next) s acts t) (hr : s.reading = some r)
    (hno : ∀ m, Action.endRead m ∉ acts) :
    t.reading = some r ∧ t.consumed = s.consumed ∧ s.committed <+: t.committed := by
  refine hrun.invariant_mem
    (P := fun t => t.reading = some r ∧ t.consumed = s.consumed ∧
      s.committed <+: t.committed) ?_ ⟨hr, rfl, List.prefix_rfl⟩
  intro u a v ha ⟨hu, hcons, hcomm⟩ hst
  cases a with
  | beginWrite n =>
    obtain rfl | ⟨_, _, _, _, rfl⟩ := Ends.beginWrite_cases hst <;> exact ⟨hu, hcons, hcomm⟩
  | store offset byte =>
    obtain ⟨_, _, _, rfl⟩ := Ends.store_cases hst
    exact ⟨hu, hcons, hcomm⟩
  | endWrite m =>
    obtain ⟨_, _, _, _, rfl⟩ := Ends.endWrite_cases hst
    exact ⟨hu, hcons, hcomm.trans (List.prefix_append _ _)⟩
  | beginRead n =>
    obtain rfl | ⟨hidle, _⟩ := Ends.beginRead_cases hst
    · exact ⟨hu, hcons, hcomm⟩
    · rw [hu] at hidle
      simp at hidle
  | endRead m => exact absurd ha (hno m)
  | setEndOfStream eos =>
    obtain rfl := Option.some.inj hst
    exact ⟨hu, hcons, hcomm⟩
  | exit =>
    obtain rfl := Option.some.inj hst
    exact ⟨hu, hcons, hcomm⟩

/-- A run without the destructor leaves `m_bExit` clear. -/
theorem exit_of_run {s t : Ends} {acts : List Action} (hrun : Run (Steps Ends.next) s acts t)
    (hexit : s.buffer.exit = false) (hno : Action.exit ∉ acts) : t.buffer.exit = false := by
  refine hrun.invariant_mem (P := fun t => t.buffer.exit = false) ?_ hexit
  intro u a v ha hu hst
  cases a with
  | beginWrite n =>
    obtain rfl | ⟨_, _, _, _, rfl⟩ := Ends.beginWrite_cases hst <;> exact hu
  | store offset byte =>
    obtain ⟨_, _, _, rfl⟩ := Ends.store_cases hst
    exact hu
  | endWrite m =>
    obtain ⟨_, _, _, _, rfl⟩ := Ends.endWrite_cases hst
    exact hu
  | beginRead n =>
    obtain rfl | ⟨_, _, _, rfl⟩ := Ends.beginRead_cases hst <;> exact hu
  | endRead m =>
    obtain ⟨_, _, _, _, rfl⟩ := Ends.endRead_cases hst
    exact hu
  | setEndOfStream eos =>
    obtain rfl := Option.some.inj hst
    exact hu
  | exit => exact absurd ha hno

/-- A read of bytes that are in the buffer, reaching no further than the overflow, is
granted. -/
theorem beginRead_granted {s : Ends} (h : Cursors s) (hidle : s.reading = none)
    (hexit : s.buffer.exit = false) {n : Nat} (hn : s.buffer.readable n) :
    s.buffer.beginRead n = some (.noErr, some s.buffer.readIndex,
      { s.buffer with pullBuffer := s.buffer.beginReadMemory n, bytesToRead := n }) := by
  have havail := h.layout.le_availToRead hn
  obtain ⟨hcount, hfit⟩ := hn
  have hover : ¬ (s.buffer.overflowSize ≠ 0 ∧
      s.buffer.readOverflow n > s.buffer.overflowSize) := by
    rintro ⟨hpos, hx⟩
    have hroom := hfit hpos
    unfold PullBuffer.readOverflow at hx
    omega
  have hmem : (0 < s.buffer.readOverflow n) ↔ s.buffer.bufferSize < s.buffer.readIndex + n := by
    unfold PullBuffer.readOverflow
    omega
  have hlen : (s.buffer.readOverflow n).toNat =
      s.buffer.readIndex + n - s.buffer.bufferSize := by
    unfold PullBuffer.readOverflow
    omega
  unfold PullBuffer.beginRead
  rw [if_pos (h.reader_idle hidle), if_neg (by simp [hexit]), if_neg (by omega),
    if_neg (by omega), if_neg (by omega), if_neg hover]
  simp only [PullBuffer.beginReadMemory, gt_iff_lt, hmem, hlen]

/-- A `PullBuffer` with an overflow area, one writer and one reader, in any
interleaving.  The bytes consumed are a prefix of the bytes committed.  From a
successful `BeginRead` to the matching `EndRead` the region stays granted and holds
the next committed bytes, whatever the writer does meanwhile.  And a read of at most
`O + 1` bytes is granted whenever that many are buffered. -/
theorem pullBuffer_fifo {S O : Nat} (hS : 0 < S) (hO : 0 < O) {garbage : Memory UInt8}
    {acts : List Action} {s : Ends}
    (hrun : Run (Steps Ends.next) (.init S O garbage) acts s) :
    s.consumed <+: s.committed ∧
    (∀ r, s.reading = some r → ∀ more t, Run (Steps Ends.next) s more t →
      (∀ m, Action.endRead m ∉ more) →
        t.reading = some r ∧
        t.buffer.pullBuffer.slice r.pointer r.size =
          (s.committed.drop s.consumed.length).take r.size) ∧
    (Action.exit ∉ acts → s.reading = none → ∀ n, n ≤ O + 1 →
      s.consumed.length + n ≤ s.committed.length →
        ∃ b, s.buffer.beginRead n = some (.noErr, some s.buffer.readIndex, b)) := by
  have hinv : Inv s := Inv.of_run hS hrun
  have hcount := hinv.cursors.count_eq
  obtain ⟨hsize, hover⟩ := Ends.run_sizes hrun
  refine ⟨?_, ?_, ?_⟩
  · obtain ⟨ops, habs⟩ := run_refines hS hO hrun
    exact Fifo.taken_prefix habs
  · intro r hr more t hmore hno
    obtain ⟨htr, htcons, later, htcomm⟩ := reading_of_run hmore hr hno
    have htrun := hrun.append hmore
    have htinv : Inv t := Inv.of_run hS htrun
    have hpos : 0 < t.buffer.overflowSize := by
      rw [(Ends.run_sizes htrun).2]
      exact hO
    have havail := (hinv.cursors.reader r hr).available
    have hlong : r.size ≤ (s.committed.drop s.consumed.length).length := by
      rw [List.length_drop]
      omega
    refine ⟨htr, ?_⟩
    rw [htinv.contents.region_slice htinv.cursors htr (region_fits htinv.cursors hpos htr),
      ← htcomm, htcons, List.drop_append_of_le_length (by omega),
      List.take_append_of_le_length hlong]
  · intro hno hidle n hn hbuffered
    have hlt := hinv.cursors.layout.readIndex_lt
    have hreadable : s.buffer.readable n := ⟨by omega, fun _ => by omega⟩
    exact ⟨_, beginRead_granted hinv.cursors hidle (exit_of_run hrun rfl hno) hreadable⟩

/-- A run in which a write spills into the overflow, is brought back, and a read that
straddles the end of the ring is open. -/
def straddling : List Action :=
  [.beginWrite 3, .store 0 1, .store 1 2, .store 2 3, .endWrite 3, .beginRead 2, .endRead 2,
   .beginWrite 3, .store 0 4, .store 1 5, .store 2 6, .endWrite 3, .beginRead 3]

theorem pullBuffer_fifo_straddling :
    ∃ s, exec Ends.next (.init 4 2 fun _ => 0) straddling = some s ∧
      s.consumed = [1, 2] ∧ s.committed = [1, 2, 3, 4, 5, 6] ∧
      s.consumed <+: s.committed ∧
      (∀ r, s.reading = some r → ∀ more t, Run (Steps Ends.next) s more t →
        (∀ m, Action.endRead m ∉ more) →
          t.reading = some r ∧
          t.buffer.pullBuffer.slice r.pointer r.size =
            (s.committed.drop s.consumed.length).take r.size) ∧
      (Action.exit ∉ straddling → s.reading = none → ∀ n, n ≤ 2 + 1 →
        s.consumed.length + n ≤ s.committed.length →
          ∃ b, s.buffer.beginRead n = some (.noErr, some s.buffer.readIndex, b)) :=
  ⟨_, rfl, rfl, rfl,
    @pullBuffer_fifo 4 2 (by decide) (by decide) (fun _ => 0) straddling _ (Run.of_exec rfl)⟩

end FreeAmp.Io
