/-
  Io/HttpBuffer.lean --- `Http::WriteToBuffer`, from `lib/http/src/Http.cpp`.

      writeToBuffer_spec      one call: the block is appended, or goes past the end
      writes_right_iff        any number of them

  The buffer grows once in a call, by `kBufferSize` where the block is larger than that and
  by `kBufferSize` and the block where it is not.
-/
import FreeAmp.Base.Database
import FreeAmp.Lib.Transition

namespace FreeAmp.Io.Http

open FreeAmp.Base FreeAmp.Lib

/-! ## The buffer -/

def kBufferSize : UInt32 := 8192

/-- A block and its size, an `unsigned int`. -/
structure Block where
  bytes : Text
  fits : bytes.length < 4294967296

def Block.size (block : Block) : UInt32 := UInt32.ofNat block.bytes.length

/-- What `new unsigned char[n]` returns, or nothing; a cell that has not been written has no
byte in it. -/
abbrev Cells := List (Option UInt8)

/-- `m_buffer`, `m_bufferSize` and `m_bytesInBuffer` -/
structure HttpBuffer where
  buffer : Option Cells
  bufferSize : UInt32
  bytesInBuffer : UInt32
  deriving DecidableEq

/-- As the constructor leaves them. -/
def HttpBuffer.new : HttpBuffer := ⟨none, 0, 0⟩

/-- `new unsigned char[size]` -/
def allocate (size : UInt32) : Cells := List.replicate size.toNat none

/-- `memcpy(cells + place, src, n)` with `n` the length of `src`; none past the end. -/
def copyTo (cells : Cells) (place : Nat) (src : Cells) : Option Cells :=
  if place + src.length ≤ cells.length then
    some (cells.take place ++ src ++ cells.drop (place + src.length))
  else none

/-- The first `n` cells; none past the end. -/
def firstCells (cells : Cells) (n : Nat) : Option Cells :=
  if n ≤ cells.length then some (cells.take n) else none

/-- What the buffer grows by. -/
def growth (size : UInt32) : UInt32 :=
  if kBufferSize < size then kBufferSize else kBufferSize + size

/-- The size of the buffer when it is needed. -/
def HttpBuffer.capacity (s : HttpBuffer) : UInt32 :=
  match s.buffer with
  | none => kBufferSize
  | some _ => s.bufferSize

/-- The buffer itself. -/
def HttpBuffer.cells (s : HttpBuffer) : Cells :=
  match s.buffer with
  | none => allocate kBufferSize
  | some cells => cells

/-- `WriteToBuffer`; none when it reads or writes past the end of an allocation. -/
def writeToBuffer (s : HttpBuffer) (block : Block) : Option HttpBuffer := do
  let size := block.size
  let (cells, bufferSize) ←
    if s.bytesInBuffer + size > s.capacity then do
      let bufferSize := s.capacity + growth size
      let old ← firstCells s.cells s.bytesInBuffer.toNat
      let temp ← copyTo (allocate bufferSize) 0 old
      pure (temp, bufferSize)
    else pure (s.cells, s.capacity)
  let cells ← copyTo cells s.bytesInBuffer.toNat (block.bytes.map some)
  pure { buffer := some cells, bufferSize, bytesInBuffer := s.bytesInBuffer + size }

/-! ## What is to hold -/

/-- What is in the buffer is what has been written. -/
structure Holds (s : HttpBuffer) (written : Text) : Prop where
  bounded : s.bytesInBuffer ≤ s.bufferSize
  bytes : s.bytesInBuffer.toNat = written.length
  first : (s.buffer.getD []).take s.bytesInBuffer.toNat = written.map some

/-- The block goes in, where the buffer is or when it has grown. -/
def Fits (s : HttpBuffer) (block : Block) : Prop :=
  s.bytesInBuffer.toNat + block.bytes.length ≤ s.capacity.toNat ∨
    s.capacity.toNat + (growth block.size).toNat < 4294967296 ∧
      s.bytesInBuffer.toNat + block.bytes.length ≤ s.capacity.toNat + (growth block.size).toNat

instance (s : HttpBuffer) (block : Block) : Decidable (Fits s block) :=
  inferInstanceAs (Decidable (_ ∨ _))

/-- Every block of the sequence fits when it is written. -/
def AllFit (s : HttpBuffer) : List Block → Prop
  | [] => True
  | block :: blocks => Fits s block ∧ ∀ t, writeToBuffer s block = some t → AllFit t blocks

/-! ## One call -/

/-- How the buffer and its sizes belong together. -/
structure Sound (s : HttpBuffer) (written : Text) : Prop where
  allocated : s.cells.length = s.capacity.toNat
  bytes : s.bytesInBuffer.toNat = written.length
  bounded : written.length ≤ s.capacity.toNat
  first : s.cells.take written.length = written.map some
  null : s.buffer = none → written = []

@[simp] theorem length_allocate (size : UInt32) : (allocate size).length = size.toNat :=
  List.length_replicate

theorem copyTo_eq {cells src : Cells} {place : Nat} (h : place + src.length ≤ cells.length) :
    copyTo cells place src =
      some (cells.take place ++ src ++ cells.drop (place + src.length)) := if_pos h

theorem copyTo_eq_none {cells src : Cells} {place : Nat} (h : cells.length < place + src.length) :
    copyTo cells place src = none := if_neg (Nat.not_le.mpr h)

theorem firstCells_eq {cells : Cells} {n : Nat} (h : n ≤ cells.length) :
    firstCells cells n = some (cells.take n) := if_pos h

theorem toNat_size (block : Block) : block.size.toNat = block.bytes.length := by
  unfold Block.size
  rw [UInt32.toNat_ofNat', Nat.mod_eq_of_lt block.fits]

/-- The buffer never grows by more than twice `kBufferSize`. -/
theorem growth_le (size : UInt32) : (growth size).toNat ≤ 16384 := by
  have hk : kBufferSize.toNat = 8192 := rfl
  unfold growth
  split
  · rw [hk]
    decide
  · rename_i hle
    rw [UInt32.lt_iff_toNat_lt, hk] at hle
    rw [UInt32.toNat_add, hk]
    omega

theorem sound_append {cells : Cells} {bufferSize bytesInBuffer : UInt32} {written more : Text}
    (hlength : cells.length = bufferSize.toNat)
    (hfirst : cells.take written.length = written.map some)
    (hbytes : bytesInBuffer.toNat = (written ++ more).length)
    (hle : written.length + more.length ≤ cells.length) :
    Sound ⟨some (cells.take written.length ++ more.map some ++
      cells.drop (written.length + (more.map some).length)), bufferSize, bytesInBuffer⟩
        (written ++ more) := by
  have hmore : (more.map some).length = more.length := List.length_map _
  have htaken : (cells.take written.length ++ more.map some).length = (written ++ more).length := by
    rw [hfirst, List.length_append, List.length_map, hmore, List.length_append]
  refine ⟨?_, hbytes, ?_, ?_, nofun⟩
  · show (_ ++ _ : Cells).length = bufferSize.toNat
    rw [List.length_append, htaken, List.length_append, List.length_drop, hmore]
    omega
  · show (written ++ more).length ≤ bufferSize.toNat
    rw [List.length_append]
    omega
  · show (_ ++ _ : Cells).take _ = _
    rw [← htaken, List.take_left, hfirst, List.map_append]

section Step

variable {s : HttpBuffer} {written : Text} {block : Block}

theorem grows_iff (h : Sound s written) :
    s.bytesInBuffer + block.size > s.capacity ↔
      s.capacity.toNat < (written.length + block.bytes.length) % 4294967296 := by
  rw [GT.gt, UInt32.lt_iff_toNat_lt, UInt32.toNat_add, toNat_size, h.bytes]

theorem writeToBuffer_fits (h : Sound s written) (hfits : Fits s block) :
    ∃ t, writeToBuffer s block = some t ∧ Sound t (written ++ block.bytes) := by
  have hcap : s.capacity.toNat < 4294967296 := s.capacity.toNat_lt
  unfold Fits at hfits
  rw [h.bytes] at hfits
  have hsum : (s.bytesInBuffer + block.size).toNat = (written ++ block.bytes).length := by
    rw [UInt32.toNat_add, toNat_size, h.bytes, List.length_append]
    omega
  have hmap : (block.bytes.map some).length = block.bytes.length := List.length_map _
  have hbounded := h.bounded
  unfold writeToBuffer
  by_cases hgrow : s.bytesInBuffer + block.size > s.capacity
  · simp only [if_pos hgrow]
    rw [grows_iff h] at hgrow
    have hlarge : (s.capacity + growth block.size).toNat =
        s.capacity.toNat + (growth block.size).toNat := by
      rw [UInt32.toNat_add]
      omega
    have hold : (s.cells.take written.length).length = written.length := by
      rw [List.length_take, h.allocated]
      omega
    rw [h.bytes, firstCells_eq (by rw [h.allocated]; exact hbounded)]
    simp only [Option.bind_eq_bind, Option.bind_some]
    rw [copyTo_eq (by rw [hold, length_allocate, hlarge]; omega)]
    simp only [Option.bind_some, Option.pure_def, List.take_zero, List.nil_append, Nat.zero_add,
      hold]
    have htemp : (s.cells.take written.length ++
        (allocate (s.capacity + growth block.size)).drop written.length).length =
          (s.capacity + growth block.size).toNat := by
      rw [List.length_append, hold, List.length_drop, length_allocate, hlarge]
      omega
    rw [copyTo_eq (by rw [htemp, hlarge, hmap]; omega)]
    refine ⟨_, rfl, sound_append htemp ?_ hsum (by rw [htemp, hlarge]; omega)⟩
    rw [List.take_append_of_le_length hold.ge, List.take_take, Nat.min_self]
    exact h.first
  · simp only [if_neg hgrow]
    rw [grows_iff h] at hgrow
    have hfit : written.length + block.bytes.length ≤ s.cells.length := by
      rw [h.allocated]
      rcases hfits with hfits | hfits
      · exact hfits
      · omega
    simp only [Option.bind_eq_bind, Option.pure_def, Option.bind_some, h.bytes]
    rw [copyTo_eq (by rw [hmap]; exact hfit)]
    exact ⟨_, rfl, sound_append h.allocated h.first hsum hfit⟩

theorem writeToBuffer_overflows (h : Sound s written) (hfits : ¬ Fits s block) :
    writeToBuffer s block = none := by
  have hcap : s.capacity.toNat < 4294967296 := s.capacity.toNat_lt
  have hgrowth := growth_le block.size
  unfold Fits at hfits
  rw [h.bytes, not_or, not_and, Nat.not_le] at hfits
  have hmap : (block.bytes.map some).length = block.bytes.length := List.length_map _
  have hbounded := h.bounded
  unfold writeToBuffer
  by_cases hgrow : s.bytesInBuffer + block.size > s.capacity
  · simp only [if_pos hgrow]
    have hlarge : (s.capacity + growth block.size).toNat < written.length + block.bytes.length := by
      rw [UInt32.toNat_add]
      omega
    have hold : (s.cells.take written.length).length = written.length := by
      rw [List.length_take, h.allocated]
      omega
    rw [h.bytes, firstCells_eq (by rw [h.allocated]; exact hbounded)]
    simp only [Option.bind_eq_bind, Option.bind_some]
    by_cases hcopied : written.length ≤ (s.capacity + growth block.size).toNat
    · rw [copyTo_eq (by rw [hold, length_allocate]; omega)]
      simp only [Option.bind_some, Option.pure_def, List.take_zero, List.nil_append, Nat.zero_add,
        hold]
      rw [copyTo_eq_none]
      · rfl
      · rw [List.length_append, hold, List.length_drop, length_allocate, hmap]
        omega
    · rw [copyTo_eq_none (by rw [hold, length_allocate]; omega)]
      rfl
  · simp only [if_neg hgrow]
    simp only [Option.bind_eq_bind, Option.pure_def, Option.bind_some, h.bytes]
    rw [copyTo_eq_none (by rw [hmap, h.allocated]; exact hfits.1)]
    rfl

theorem Sound.holds (h : Sound s written) : Holds s written := by
  have hsizes := h.bounded
  have hfirst := h.first
  have hnull := h.null
  have hbytes := h.bytes
  unfold HttpBuffer.capacity at hsizes
  unfold HttpBuffer.cells at hfirst
  cases hbuffer : s.buffer with
  | none =>
    have hempty : written = [] := hnull hbuffer
    subst hempty
    refine ⟨?_, hbytes, ?_⟩
    · rw [UInt32.le_iff_toNat_le, hbytes]
      exact Nat.zero_le _
    · rw [hbytes]
      rfl
  | some cells =>
    rw [hbuffer] at hsizes hfirst
    refine ⟨?_, hbytes, ?_⟩
    · rw [UInt32.le_iff_toNat_le, hbytes]
      exact hsizes
    · rw [hbytes, hbuffer]
      exact hfirst

end Step

/-! ## Any number of calls -/

theorem sound_new : Sound .new [] := by
  refine ⟨?_, rfl, Nat.zero_le _, rfl, fun _ => rfl⟩
  show (allocate kBufferSize).length = kBufferSize.toNat
  exact length_allocate _

theorem run_right_iff {blocks : List Block} : ∀ {s : HttpBuffer} {written : Text},
    Sound s written →
    ((∀ calls, calls <+: blocks → ∃ t, exec writeToBuffer s calls = some t ∧
      Holds t (written ++ calls.flatMap Block.bytes)) ↔ AllFit s blocks) := by
  induction blocks with
  | nil =>
    intro s written h
    refine iff_of_true (fun calls hcalls => ?_) trivial
    rw [List.prefix_nil.mp hcalls, List.flatMap_nil, List.append_nil]
    exact ⟨s, rfl, h.holds⟩
  | cons block blocks ih =>
    intro s written h
    by_cases hfits : Fits s block
    · obtain ⟨t, hwrite, hsound⟩ := writeToBuffer_fits h hfits
      have hexec : ∀ calls, exec writeToBuffer s (block :: calls) = exec writeToBuffer t calls := by
        intro calls
        rw [exec, hwrite]
      constructor
      · intro hall
        refine ⟨hfits, fun t' ht' => ?_⟩
        cases hwrite.symm.trans ht'
        refine (ih hsound).mp fun calls hcalls => ?_
        obtain ⟨u, hu, hholds⟩ := hall (block :: calls)
          (List.cons_prefix_cons.mpr ⟨rfl, hcalls⟩)
        rw [hexec] at hu
        rw [List.flatMap_cons, ← List.append_assoc] at hholds
        exact ⟨u, hu, hholds⟩
      · rintro ⟨-, hrest⟩ calls hcalls
        cases calls with
        | nil =>
          rw [List.flatMap_nil, List.append_nil]
          exact ⟨s, rfl, h.holds⟩
        | cons block' calls =>
          obtain ⟨rfl, hbefore⟩ := List.cons_prefix_cons.mp hcalls
          rw [hexec, List.flatMap_cons, ← List.append_assoc]
          exact (ih hsound).mpr (hrest t hwrite) calls hbefore
    · refine iff_of_false (fun hall => ?_) fun hall => hfits hall.1
      obtain ⟨u, hu, -⟩ := hall [block] (List.cons_prefix_cons.mpr ⟨rfl, List.nil_prefix⟩)
      rw [exec, writeToBuffer_overflows h hfits] at hu
      cases hu

/-- After every call the buffer holds what has been written, and no call reads or writes past
the end of it, just when every block fits. -/
theorem writes_right_iff (blocks : List Block) :
    (∀ calls, calls <+: blocks → ∃ s, exec writeToBuffer .new calls = some s ∧
      Holds s (calls.flatMap Block.bytes)) ↔ AllFit .new blocks :=
  run_right_iff sound_new

/-- A first block of more than twice `kBufferSize`. -/
theorem writes_right_fails : ¬ ∀ blocks calls, calls <+: blocks →
    ∃ s, exec writeToBuffer .new calls = some s ∧ Holds s (calls.flatMap Block.bytes) := by
  intro hall
  have hlength : (List.replicate 16385 (0 : UInt8)).length = 16385 := List.length_replicate
  let block : Block := ⟨List.replicate 16385 0, by rw [hlength]; decide⟩
  obtain ⟨s, hs, -⟩ := hall [block] [block] List.prefix_rfl
  have hfits : ¬ Fits .new block := by
    unfold Fits Block.size
    simp only [block, hlength]
    decide
  rw [exec, writeToBuffer_overflows sound_new hfits] at hs
  cases hs

end FreeAmp.Io.Http
