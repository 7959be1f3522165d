/-
  Io/ObsWorker.lean --- the datagrams of an RTP stream, as the worker of
  `io/obs/obsinput.cpp` puts them into the output buffer.

      Inv.step            what one step keeps
      committed_of_run    the payloads are committed, in the runs whose packets are whole

  The length of the header is taken off the length of the datagram before anything is
  compared, and the numbers of the packets are compared without the wrap of 16 bits.

  From `BeginWrite` on, a turn of the loop is one step: the reader leaves the region of
  the writer alone.  Between the turns the buffer may be changed in any way.
-/
import FreeAmp.Base.Database
import FreeAmp.Io.PullBuffer
import FreeAmp.Lib.Transition

namespace FreeAmp.Io

open FreeAmp.Base FreeAmp.Lib

/-! ## Packets -/

def rtpHeaderSize : Nat := 12

/-- `pHeader->iFlags`, behind `ntohl`. -/
def iFlags (pTemp : Memory UInt8) : Nat :=
  (((pTemp 0).toNat * 256 + (pTemp 1).toNat) * 256 + (pTemp 2).toNat) * 256 + (pTemp 3).toNat

/-- `iHeaderSize`: with a word for each CSRC. -/
def iHeaderSize (iFlags : Nat) : Nat := rtpHeaderSize + 4 + 4 * (iFlags / 2 ^ 24 % 16)

def iCurrNum (iFlags : Nat) : Nat := iFlags % 65536

/-- A datagram in memory. -/
def memoryOf (d : Text) : Memory UInt8 := fun i => d.getD i 0

/-- The length of the header of a datagram. -/
def packetHeaderSize (d : Text) : Nat := iHeaderSize (iFlags (memoryOf d))

/-- The number of a packet. -/
def packetNum (d : Text) : Nat := iCurrNum (iFlags (memoryOf d))

/-- A datagram at least as long as its header. -/
def Whole (d : Text) : Prop := packetHeaderSize d ≤ d.length

instance (d : Text) : Decidable (Whole d) := inferInstanceAs (Decidable (_ ≤ _))

/-- What is behind the header. -/
def payload (d : Text) : Text := if Whole d then d.drop (packetHeaderSize d) else []

/-- Whether the packet comes behind a lost one, if any has come before it. -/
def lossAfter : Option Nat → Text → Bool
  | none, _ => false
  | some n, d => decide (packetNum d ≠ (n + 1) % 65536)

/-- Which packets come behind a lost one. -/
def losses : Option Nat → List Text → List Bool
  | _, [] => []
  | last, d :: ds => lossAfter last d :: losses (some (packetNum d)) ds

/-- The number of the last packet. -/
def lastNum (last : Option Nat) (ds : List Text) : Option Nat :=
  ds.foldl (fun _ d => some (packetNum d)) last

/-! ## The worker -/

/-- Where the worker is. -/
inductive ObsPlace where
  /-- in front of `recvfrom` -/
  | listening
  /-- in front of `BeginWrite`, with what has been received -/
  | writing (d : Text)
  /-- behind the loop -/
  | stopped
  /-- in a `memcpy` of a negative length -/
  | overrun
  deriving DecidableEq, Repr

/-- `ObsInput` in its worker thread. -/
structure ObsInput where
  buffer : PullBuffer
  pTemp : Memory UInt8
  place : ObsPlace
  iPacketNum : Int
  /-- the datagrams for which `BeginWrite` has been granted -/
  received : List Text
  /-- the bytes of the region at every `EndWrite` -/
  committed : Text
  /-- for each of the datagrams, whether a lost packet is logged -/
  reported : List Bool

inductive ObsAction where
  /-- `recvfrom` returns a datagram -/
  | datagram (d : Text)
  /-- `recvfrom` returns -1 -/
  | failed
  /-- `BeginWrite`, and what follows it -/
  | turn
  /-- the buffer is changed by other threads, or by `DiscardBytes` -/
  | others (buffer : PullBuffer)

namespace ObsInput

/-- In front of the first `recvfrom`. -/
def init (buffer : PullBuffer) (garbage : Memory UInt8) : ObsInput :=
  ⟨buffer, garbage, .listening, -1, [], [], []⟩

def maxPacketSize : Nat := 8192

/-- The end of the loop: `SetEndOfStream(true)`. -/
def eos (s : ObsInput) : ObsInput :=
  { s with buffer := s.buffer.setEndOfStream true, place := .stopped }

/-- What follows a `BeginWrite` that has been granted. -/
def deliver (s : ObsInput) (d : Text) (pBuffer : Nat) (buffer : PullBuffer) : Option ObsInput :=
  let flags := iFlags s.pTemp
  -- the flags are put back in the order of the host
  let pTemp := s.pTemp.store 0 [s.pTemp 3, s.pTemp 2, s.pTemp 1, s.pTemp 0]
  let s := { s with
    pTemp
    received := s.received ++ [d]
    reported := s.reported ++
      [decide (s.iPacketNum ≠ -1 ∧ s.iPacketNum ≠ (iCurrNum flags : Int) - 1)]
    iPacketNum := iCurrNum flags }
  if (d.length : Int) - iHeaderSize flags < 0 then some { s with buffer, place := .overrun }
  else
    let iRead := d.length - iHeaderSize flags
    let mem := buffer.pullBuffer.store pBuffer (pTemp.slice (iHeaderSize flags) iRead)
    ({ buffer with pullBuffer := mem }.endWrite iRead).map fun buffer =>
      { s with buffer, committed := s.committed ++ mem.slice pBuffer iRead, place := .listening }

def next (s : ObsInput) : ObsAction → Option ObsInput
  | .datagram d =>
    if s.place = .listening ∧ s.buffer.eos = false ∧ d.length ≤ maxPacketSize then
      if d = [] then some s.eos
      else some { s with pTemp := s.pTemp.store 0 d, place := .writing d }
    else none
  | .failed => if s.place = .listening ∧ s.buffer.eos = false then some s.eos else none
  | .turn =>
    match s.place with
    | .writing d =>
      match s.buffer.beginWrite d.length with
      | some (.noErr, some pBuffer, buffer) => s.deliver d pBuffer buffer
      | some (.bufferTooSmall, _, buffer) => some { s with buffer }
      | some (_, _, buffer) => some { s with buffer, place := .stopped }
      | none => none
    | _ => none
  | .others buffer => some { s with buffer }

/-- A datagram that comes is empty or whole, and its number is not 0 behind 65535. -/
def Plain (s : ObsInput) : ObsAction → Prop
  | .datagram d => d ≠ [] → Whole d ∧ ¬ (s.iPacketNum = 65535 ∧ packetNum d = 0)
  | _ => True

instance (s : ObsInput) (a : ObsAction) : Decidable (s.Plain a) := by
  unfold Plain
  split <;> infer_instance

/-- The payloads are committed in order, the losses are reported, and nothing of a negative
length is copied. -/
structure Right (s : ObsInput) : Prop where
  place : s.place ≠ .overrun
  committed : s.committed = s.received.flatMap payload
  reported : s.reported = losses none s.received

/-! ## Packets in memory -/

theorem losses_append (last : Option Nat) (ds : List Text) (d : Text) :
    losses last (ds ++ [d]) = losses last ds ++ [lossAfter (lastNum last ds) d] := by
  induction ds generalizing last with
  | nil => rfl
  | cons e ds ih =>
    rw [List.cons_append, losses, ih, losses, List.cons_append]
    rfl

theorem lastNum_append (last : Option Nat) (ds : List Text) (d : Text) :
    lastNum last (ds ++ [d]) = some (packetNum d) := by
  unfold lastNum
  rw [List.foldl_append]
  rfl

theorem iFlags_congr {m m' : Memory UInt8} (h : ∀ i < 4, m i = m' i) : iFlags m = iFlags m' := by
  unfold iFlags
  rw [h 0 (by decide), h 1 (by decide), h 2 (by decide), h 3 (by decide)]

theorem packetHeaderSize_ge (d : Text) : 16 ≤ packetHeaderSize d := by
  unfold packetHeaderSize iHeaderSize rtpHeaderSize
  omega

theorem packetNum_lt (d : Text) : packetNum d < 65536 := Nat.mod_lt _ (by decide)

theorem slice_payload {pTemp : Memory UInt8} {d flags : Text}
    (htemp : ∀ i < d.length, pTemp i = memoryOf d i) (hwhole : Whole d)
    (hflags : flags.length = 4) :
    (pTemp.store 0 flags).slice (packetHeaderSize d) (d.length - packetHeaderSize d) =
      payload d := by
  have hsize := packetHeaderSize_ge d
  unfold payload
  rw [if_pos hwhole]
  refine List.ext_getElem (by simp) fun i hi hi' => ?_
  rw [Memory.length_slice] at hi
  simp only [Memory.slice, List.getElem_map, List.getElem_range, List.getElem_drop]
  rw [Memory.store_outside (Or.inr (by omega)), htemp _ (by omega)]
  unfold memoryOf
  rw [List.getD_eq_getElem?_getD, List.getElem?_eq_getElem (by omega)]
  rfl

/-! ## The invariant -/

/-- What is known of a datagram on its way. -/
def Held (s : ObsInput) : Prop :=
  ∀ d, s.place = .writing d → Whole d ∧ ¬ (s.iPacketNum = 65535 ∧ packetNum d = 0) ∧
    ∀ i < d.length, s.pTemp i = memoryOf d i

/-- `iPacketNum` of the last packet. -/
def numOf : Option Nat → Int
  | none => -1
  | some n => n

structure Inv (s : ObsInput) : Prop where
  right : s.Right
  num : s.iPacketNum = numOf (lastNum none s.received)
  held : s.Held

variable {s t : ObsInput}

theorem Inv.init (buffer : PullBuffer) (garbage : Memory UInt8) : Inv (.init buffer garbage) where
  right := ⟨nofun, rfl, rfl⟩
  num := rfl
  held := nofun

theorem Inv.move {buffer : PullBuffer} {place : ObsPlace} (h : Inv s) (hplace : place ≠ .overrun)
    (hheld : Held { s with buffer, place }) : Inv { s with buffer, place } :=
  ⟨⟨hplace, h.right.committed, h.right.reported⟩, h.num, hheld⟩

theorem Inv.eos (h : Inv s) : Inv s.eos := h.move nofun nofun

theorem Inv.datagram {d : Text} (h : Inv s) (hplain : s.Plain (.datagram d))
    (hst : s.next (.datagram d) = some t) : Inv t := by
  unfold next at hst
  dsimp only at hst
  split at hst
  · split at hst
    · obtain rfl := Option.some.inj hst
      exact h.eos
    · rename_i hne
      obtain rfl := Option.some.inj hst
      refine ⟨⟨nofun, h.right.committed, h.right.reported⟩, h.num, fun e he => ?_⟩
      obtain rfl : d = e := ObsPlace.writing.inj he
      refine ⟨(hplain hne).1, (hplain hne).2, fun i hi => ?_⟩
      have hcell := @Memory.store_inside _ s.pTemp 0 i d hi
      rw [Nat.zero_add] at hcell
      unfold memoryOf
      dsimp only
      rw [hcell, List.getD_eq_getElem?_getD, List.getElem?_eq_getElem hi]
      rfl
  · exact nomatch hst

theorem reported_iff {n : Option Nat} {d : Text} (hn : ∀ m, n = some m → m < 65536)
    (hwrap : ¬ (numOf n = 65535 ∧ packetNum d = 0)) :
    decide (numOf n ≠ -1 ∧ numOf n ≠ (packetNum d : Int) - 1) = lossAfter n d := by
  have hd := packetNum_lt d
  cases n with
  | none => rfl
  | some m =>
    have hm := hn m rfl
    have hnum : numOf (some m) = m := rfl
    rw [hnum] at hwrap ⊢
    unfold lossAfter
    refine decide_eq_decide.mpr ?_
    omega

theorem lastNum_lt (ds : List Text) : ∀ last, (∀ m, last = some m → m < 65536) →
    ∀ m, lastNum last ds = some m → m < 65536 := by
  induction ds with
  | nil => exact fun last h => h
  | cons d ds ih =>
    intro last _
    exact ih (some (packetNum d)) fun m hm => Option.some.inj hm ▸ packetNum_lt d

theorem Inv.deliver {d : Text} {pBuffer : Nat} {buffer : PullBuffer} (h : Inv s)
    (hplace : s.place = .writing d) (hst : s.deliver d pBuffer buffer = some t) : Inv t := by
  obtain ⟨hwhole, hwrap, htemp⟩ := h.held d hplace
  have hsize := packetHeaderSize_ge d
  have hlong : packetHeaderSize d ≤ d.length := hwhole
  have hflags : iFlags s.pTemp = iFlags (memoryOf d) :=
    iFlags_congr fun i hi => htemp i (by omega)
  unfold ObsInput.deliver at hst
  dsimp only at hst
  rw [hflags] at hst
  have hheader : iHeaderSize (iFlags (memoryOf d)) = packetHeaderSize d := rfl
  have hcurr : iCurrNum (iFlags (memoryOf d)) = packetNum d := rfl
  rw [hheader, hcurr, if_neg (by omega)] at hst
  obtain ⟨buffer', -, rfl⟩ := Option.map_eq_some_iff.mp hst
  rw [h.num] at hwrap
  have hslice := @slice_payload _ d [s.pTemp 3, s.pTemp 2, s.pTemp 1, s.pTemp 0] htemp hwhole rfl
  have hlen : (payload d).length = d.length - packetHeaderSize d := by
    rw [← hslice, Memory.length_slice]
  refine ⟨⟨nofun, ?_, ?_⟩, ?_, nofun⟩
  · dsimp only
    rw [hslice, ← hlen, Memory.slice_store, h.right.committed, List.flatMap_append,
      List.flatMap_singleton]
  · dsimp only
    rw [h.num, reported_iff (lastNum_lt _ none nofun) hwrap, losses_append, h.right.reported]
  · dsimp only
    rw [lastNum_append]
    rfl

theorem Inv.turn (h : Inv s) (hst : s.next .turn = some t) : Inv t := by
  unfold next at hst
  dsimp only at hst
  split at hst
  · rename_i d hplace
    split at hst
    · exact h.deliver hplace hst
    · obtain rfl := Option.some.inj hst
      exact ⟨⟨h.right.place, h.right.committed, h.right.reported⟩, h.num, h.held⟩
    · obtain rfl := Option.some.inj hst
      exact h.move nofun nofun
    · exact nomatch hst
  · exact nomatch hst

theorem Inv.step {a : ObsAction} (h : Inv s) (hst : Guarded Plain (Steps next) s a t) : Inv t := by
  obtain ⟨hplain, hst⟩ := hst
  unfold Steps at hst
  cases a with
  | datagram d => exact h.datagram hplain hst
  | failed =>
    unfold next at hst
    dsimp only at hst
    split at hst
    · obtain rfl := Option.some.inj hst
      exact h.eos
    · exact nomatch hst
  | turn => exact h.turn hst
  | others buffer =>
    obtain rfl := Option.some.inj hst
    exact ⟨⟨h.right.place, h.right.committed, h.right.reported⟩, h.num, h.held⟩

/-- In the runs of plain datagrams, the payloads are committed and the losses are reported. -/
theorem committed_of_run {buffer : PullBuffer} {garbage : Memory UInt8} {acts : List ObsAction}
    (hrun : Run (Guarded Plain (Steps next)) (.init buffer garbage) acts s) : s.Right :=
  (hrun.invariant (fun _ _ _ h hst => Inv.step h hst) (Inv.init buffer garbage)).right

/-- A packet of seventeen bytes. -/
theorem committed_of_run_seventeen :
    ∃ s, Run (Guarded Plain (Steps next)) (.init (.init 65536 16384 fun _ => 0) fun _ => 0)
      [.datagram (128 :: List.replicate 15 0 ++ [7]), .turn] s ∧ s.committed = [7] ∧ s.Right := by
  have hexec : (exec (guardedNext Plain next) (.init (.init 65536 16384 fun _ => 0) fun _ => 0)
      [.datagram (128 :: List.replicate 15 0 ++ [7]), .turn]).map (·.committed) = some [7] := by
    decide
  obtain ⟨s, hs, hcommitted⟩ := Option.map_eq_some_iff.mp hexec
  exact ⟨s, Run.of_guarded_exec hs, hcommitted, committed_of_run (Run.of_guarded_exec hs)⟩

/-- A datagram of one byte. -/
theorem committed_fails : ¬ ∀ (buffer : PullBuffer) (garbage : Memory UInt8)
    (acts : List ObsAction) (s : ObsInput),
    Run (Steps next) (.init buffer garbage) acts s → s.Right := by
  intro hall
  have hexec : (exec next (.init (.init 65536 16384 fun _ => 0) fun _ => 0)
      [.datagram [128], .turn]).map (·.place) = some .overrun := by decide
  obtain ⟨s, hs, hplace⟩ := Option.map_eq_some_iff.mp hexec
  exact (hall _ _ _ s (Run.of_exec hs)).place hplace

end ObsInput

end FreeAmp.Io
