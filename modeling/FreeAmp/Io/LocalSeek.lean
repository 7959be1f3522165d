/-
  Io/LocalSeek.lean --- the positions that a local file reports, from
  `io/local/localfileinput.cpp`.

      Inv.step        what one step keeps
      seek_of_run     the position of a seek, in the runs in which no block comes between

  The decoder reads from the buffer and seeks in one thread; the worker fills the buffer
  in another.  The functions of the file and of the buffer lock them, so that they are the
  steps of both.  `Tell` takes the bytes of the buffer off the position in the file, also
  behind the `fseek` of a `Seek`, and before the buffer is cleared.

  Beside the buffer the state has the offset in the file of each of its bytes.
-/
import FreeAmp.Io.PullBufferResize

namespace FreeAmp.Io

open FreeAmp.Lib

/-! ## The state -/

/-- What a seek counts from. -/
inductive Whence where
  | set
  | cur
  | fromEnd
  deriving DecidableEq, Repr

/-- The arguments of `Seek`. -/
structure SeekTo where
  iPos : Int
  iFrom : Whence
  deriving DecidableEq, Repr

def SeekTo.tells (r : SeekTo) : Bool := decide (r = ⟨0, .cur⟩)

/-- Where the decoder is. -/
inductive SeekPlace where
  /-- in no call -/
  | none
  /-- in front of the `ftell` of `Tell` -/
  | tell (r : SeekTo)
  /-- in front of `GetNumBytesInBuffer` -/
  | count (r : SeekTo) (iRet : Int)
  /-- in front of `m_pOutputBuffer->Clear()`, with what is returned when it is no error -/
  | clear (done : Option (SeekTo × Int))
  /-- behind a call that has succeeded, with the position -/
  | returned (r : SeekTo) (iRet : Int)
  deriving DecidableEq, Repr

inductive WorkerPlace where
  | top
  /-- behind `BeginWrite` -/
  | granted
  /-- behind `fread` -/
  | filled
  /-- behind `EndWrite`, when there were less bytes than asked for -/
  | ended
  deriving DecidableEq, Repr

/-- A `LocalFileInput`, the file and the output buffer. -/
structure LocalFileInput where
  /-- the length of the file -/
  size : Nat
  /-- the position in the file -/
  pos : Nat
  buffer : PullBuffer
  worker : WorkerPlace
  place : SeekPlace
  /-- the offsets of the bytes in the buffer that are not read -/
  queue : List Nat
  /-- the offsets of the bytes that the worker has got from `fread` -/
  draft : List Nat

namespace LocalFileInput

/-- The file opened, and nothing read. -/
def init (size pos bufferSize overflowSize : Nat) (garbage : Memory UInt8) : LocalFileInput :=
  ⟨size, pos, .init bufferSize overflowSize garbage, .top, .none, [], []⟩

def iReadBlock : Nat := 8192

/-- The offset of the byte that is read next. -/
def nextOffset (s : LocalFileInput) : Nat := (s.queue ++ s.draft).head?.getD s.pos

/-! ## Steps -/

inductive LocalAction where
  | beginWrite
  /-- with how many bytes are read -/
  | fread (n : Nat)
  | endWrite
  | setEndOfStream
  | beginRead (n : Nat)
  | endRead (n : Nat)
  /-- `Seek`, up to and with the `fseek` -/
  | seek (r : SeekTo)
  /-- `LocalFileInput::Clear`, up to and with the `fseek` to the beginning -/
  | rewind
  | ftell
  | getNumBytesInBuffer
  | clear
  /-- the call is left -/
  | leave
  deriving DecidableEq, Repr

/-- `fseek`, where -1 is none: positions are 0 and up, and 32 bits wide. -/
def fseek (s : LocalFileInput) (r : SeekTo) : Option Nat :=
  let target : Int := match r.iFrom with
    | .set => r.iPos
    | .cur => s.pos + r.iPos
    | .fromEnd => s.size + r.iPos
  if 0 ≤ target ∧ target < 2147483648 then some target.toNat else none

/-- A turn of `WorkerThread`, up to and with `BeginWrite`. -/
def beginWrite (s : LocalFileInput) : Option LocalFileInput :=
  if s.worker = .top ∧ s.buffer.eos = false then
    match s.buffer.beginWrite iReadBlock with
    | some (.noErr, _, buffer) => some { s with buffer, worker := .granted }
    | some (_, _, buffer) => some { s with buffer }
    | none => none
  else none

/-- `fread` gets what there is, and no more than is asked for. -/
def fread (s : LocalFileInput) (n : Nat) : Option LocalFileInput :=
  if s.worker = .granted ∧ n ≤ iReadBlock ∧ n ≤ s.size - s.pos then
    some { s with worker := .filled, pos := s.pos + n, draft := List.range' s.pos n }
  else none

def endWrite (s : LocalFileInput) : Option LocalFileInput :=
  if s.worker = .filled then
    (s.buffer.endWrite s.draft.length).map fun buffer => { s with
      buffer
      worker := if s.draft.length < iReadBlock then .ended else .top
      queue := s.queue ++ s.draft
      draft := [] }
  else none

def setEndOfStream (s : LocalFileInput) : Option LocalFileInput :=
  if s.worker = .ended then
    some { s with worker := .top, buffer := s.buffer.setEndOfStream true }
  else none

def beginRead (s : LocalFileInput) (n : Nat) : Option LocalFileInput :=
  if s.place = .none then
    (s.buffer.beginRead n).map fun r => { s with buffer := r.2.2 }
  else none

def endRead (s : LocalFileInput) (n : Nat) : Option LocalFileInput :=
  if s.place = .none then
    (s.buffer.endRead n).map fun buffer => { s with buffer, queue := s.queue.drop n }
  else none

/-- `Seek` and `LocalFileInput::Clear`, step by step. -/
def call (s : LocalFileInput) : LocalAction → Option LocalFileInput
  | .seek r =>
    if s.place = .none then
      if r.tells then some { s with place := .tell r }
      else match s.fseek r with
        | some pos => some { s with pos, place := .tell r }
        | none => some { s with place := .clear none }
    else none
  | .rewind =>
    if s.place = .none then some { s with pos := 0, place := .clear none } else none
  | .ftell =>
    match s.place with
    | .tell r => some { s with place := .count r s.pos }
    | _ => none
  | .getNumBytesInBuffer =>
    match s.place with
    | .count r iRet =>
      let iRet := iRet - s.buffer.bytesInBuffer
      if r.tells then some { s with place := .returned r iRet }
      else some { s with place := .clear (some (r, iRet)) }
    | _ => none
  | .clear =>
    match s.place, s.buffer.clear with
    | .clear done, some (.noErr, buffer) => some { s with
        buffer
        queue := []
        place := match done with
          | some (r, iRet) => .returned r iRet
          | none => .none }
    | _, _ => none
  | .leave =>
    match s.place with
    | .returned _ _ => some { s with place := .none }
    | _ => none
  | _ => none

def next (s : LocalFileInput) : LocalAction → Option LocalFileInput
  | .beginWrite => s.beginWrite
  | .fread n => s.fread n
  | .endWrite => s.endWrite
  | .setEndOfStream => s.setEndOfStream
  | .beginRead n => s.beginRead n
  | .endRead n => s.endRead n
  | a => s.call a

/-! ## Seeks that nothing comes between -/

/-- Whether the position in the file may be moved by the worker. -/
def movable : SeekPlace → Bool
  | .none => true
  | .tell r => r.tells
  | .count _ _ => false
  | .clear done => done.isNone
  | .returned _ _ => true

/-- No block is read in a `Seek` that moves, nor between the two halves of `Tell`; and when the
bytes of the buffer are counted, there are none if the seek moves, and no others on the way
if it does not. -/
def Undisturbed (s : LocalFileInput) : LocalAction → Prop
  | .fread _ => movable s.place = true
  | .getNumBytesInBuffer =>
    match s.place with
    | .count r _ => if r.tells then s.draft = [] else s.buffer.bytesInBuffer = 0
    | _ => True
  | _ => True

instance (s : LocalFileInput) (a : LocalAction) : Decidable (s.Undisturbed a) := by
  unfold Undisturbed
  split
  · infer_instance
  · split <;> infer_instance
  · infer_instance

/-- The position that a seek returns is that of the next byte, and the one it was asked for. -/
def Right (s : LocalFileInput) : Prop :=
  ∀ r iRet, s.place = .returned r iRet →
    iRet = s.nextOffset ∧ (r.iFrom = .set → iRet = r.iPos)

/-! ## The invariant -/

/-- The bytes that are not read come one behind the other, up to the position in the file. -/
def Chain (s : LocalFileInput) : Prop :=
  ∃ k n, s.queue ++ s.draft = List.range' k n ∧ k + n = s.pos

/-- What is known at the places of the decoder. -/
def PlaceInv (s : LocalFileInput) : Prop :=
  match s.place with
  | .none => s.Chain
  | .tell r => if r.tells then s.Chain else r.iFrom = .set → (s.pos : Int) = r.iPos
  | .count r iRet => iRet = s.pos ∧ if r.tells then s.Chain else r.iFrom = .set → iRet = r.iPos
  | .clear none => True
  | .clear (some (r, iRet)) => iRet = s.pos ∧ (r.iFrom = .set → iRet = r.iPos)
  | .returned r iRet => s.Chain ∧ iRet = s.nextOffset ∧ (r.iFrom = .set → iRet = r.iPos)

structure Inv (s : LocalFileInput) : Prop where
  exit : s.buffer.exit = false
  length : s.queue.length = s.buffer.bytesInBuffer
  /-- the worker holds a region of the buffer -/
  held : s.worker = .granted ∨ s.worker = .filled → s.buffer.bytesToWrite ≠ 0
  empty : s.worker ≠ .filled → s.draft = []
  place : s.PlaceInv

variable {s t : LocalFileInput}

theorem nextOffset_of_chain {k n : Nat} (hchain : s.queue ++ s.draft = List.range' k n)
    (hpos : k + n = s.pos) : s.nextOffset = k := by
  unfold nextOffset
  rw [hchain]
  cases n with
  | zero => exact hpos.symm
  | succ n => rfl

/-- The bytes and the position are all that the places ask about. -/
theorem PlaceInv.congr (h : s.PlaceInv) (hplace : t.place = s.place) (hpos : t.pos = s.pos)
    (hbytes : t.queue ++ t.draft = s.queue ++ s.draft) : t.PlaceInv := by
  unfold PlaceInv Chain nextOffset at *
  rw [hplace, hpos, hbytes]
  exact h

theorem Inv.init (size pos bufferSize overflowSize : Nat) (garbage : Memory UInt8) :
    Inv (LocalFileInput.init size pos bufferSize overflowSize garbage) where
  exit := rfl
  length := rfl
  held h := by rcases h with h | h <;> exact nomatch h
  empty _ := rfl
  place := ⟨pos, 0, rfl, rfl⟩

/-! ## The steps of the worker -/

theorem Inv.beginWrite (h : Inv s) (hst : s.beginWrite = some t) : Inv t := by
  unfold LocalFileInput.beginWrite at hst
  split at hst
  · rename_i htop
    have hempty := h.empty (by rw [htop.1]; exact nofun)
    split at hst
    · rename_i p buffer hb
      obtain rfl := Option.some.inj hst
      obtain ⟨he, -⟩ | ⟨he, -⟩ | ⟨-, -, rfl, -⟩ := PullBuffer.beginWrite_cases hb
      · exact nomatch he
      · exact nomatch he
      · exact ⟨h.exit, h.length, fun _ => (by decide : iReadBlock ≠ 0), fun _ => hempty,
          h.place.congr rfl rfl rfl⟩
    · rename_i e p buffer hne hb
      obtain rfl := Option.some.inj hst
      obtain ⟨-, rfl, -⟩ | ⟨-, rfl, -⟩ | ⟨rfl, -⟩ := PullBuffer.beginWrite_cases hb
      · exact h
      · exact h
      · exact (hne rfl).elim
    · exact nomatch hst
  · exact nomatch hst

theorem Inv.endWrite (h : Inv s) (hst : s.endWrite = some t) : Inv t := by
  unfold LocalFileInput.endWrite at hst
  split at hst
  · obtain ⟨buffer, hb, rfl⟩ := Option.map_eq_some_iff.mp hst
    obtain ⟨-, -, rfl⟩ := PullBuffer.endWrite_cases hb
    refine ⟨h.exit, ?_, fun hheld => ?_, fun _ => rfl, h.place.congr rfl rfl ?_⟩
    · have hlength := h.length
      simp only [List.length_append]
      omega
    · dsimp only at hheld
      split at hheld <;> rcases hheld with hheld | hheld <;> exact nomatch hheld
    · exact List.append_nil _
  · exact nomatch hst

theorem Inv.setEndOfStream (h : Inv s) (hst : s.setEndOfStream = some t) : Inv t := by
  unfold LocalFileInput.setEndOfStream at hst
  split at hst
  · rename_i hended
    obtain rfl := Option.some.inj hst
    have hempty := h.empty (by rw [hended]; exact nofun)
    refine ⟨h.exit, h.length, fun hheld => ?_, fun _ => hempty, h.place.congr rfl rfl rfl⟩
    rcases hheld with hheld | hheld <;> exact nomatch hheld
  · exact nomatch hst

theorem chain_fread {k n m : Nat} (hchain : s.queue ++ [] = List.range' k n)
    (hpos : k + n = s.pos) : s.queue ++ List.range' s.pos m = List.range' k (n + m) := by
  rw [List.append_nil] at hchain
  rw [hchain, ← hpos, List.range'_append_1]

theorem PlaceInv.fread {m : Nat} (h : s.PlaceInv) (hdraft : s.draft = [])
    (hmove : movable s.place = true) :
    PlaceInv { s with
      worker := .filled, pos := s.pos + m, draft := List.range' s.pos m } := by
  have hchain : s.Chain → Chain { s with
      worker := .filled, pos := s.pos + m, draft := List.range' s.pos m } := by
    rintro ⟨k, n, hbytes, hpos⟩
    rw [hdraft] at hbytes
    exact ⟨k, n + m, chain_fread hbytes hpos, by dsimp only; omega⟩
  unfold PlaceInv at h ⊢
  dsimp only
  split at h
  · exact hchain h
  · rename_i r hplace
    have htells : r.tells = true := by rwa [hplace] at hmove
    rw [if_pos htells] at h ⊢
    exact hchain h
  · rename_i hplace
    rw [hplace] at hmove
    exact nomatch hmove
  · trivial
  · rename_i hplace
    rw [hplace] at hmove
    exact nomatch hmove
  · obtain ⟨⟨k, n, hbytes, hpos⟩, hret, hset⟩ := h
    have hold := nextOffset_of_chain hbytes hpos
    rw [hdraft] at hbytes
    have hnext : nextOffset { s with
        worker := .filled, pos := s.pos + m, draft := List.range' s.pos m } = k :=
      nextOffset_of_chain (chain_fread hbytes hpos) (by dsimp only; omega)
    refine ⟨hchain ⟨k, n, by rw [hdraft]; exact hbytes, hpos⟩, ?_, hset⟩
    rw [hret, hold, hnext]

theorem Inv.fread {n : Nat} (h : Inv s) (hmove : movable s.place = true)
    (hst : s.fread n = some t) : Inv t := by
  unfold LocalFileInput.fread at hst
  split at hst
  · rename_i hgranted
    obtain rfl := Option.some.inj hst
    have hdraft := h.empty (by rw [hgranted.1]; exact nofun)
    exact ⟨h.exit, h.length, fun _ => h.held (.inl hgranted.1), fun hne => absurd rfl hne,
      h.place.fread hdraft hmove⟩
  · exact nomatch hst

/-! ## The steps of the decoder -/

theorem Inv.beginRead {n : Nat} (h : Inv s) (hst : s.beginRead n = some t) : Inv t := by
  unfold LocalFileInput.beginRead at hst
  split at hst
  · obtain ⟨⟨e, p, buffer⟩, hb, rfl⟩ := Option.map_eq_some_iff.mp hst
    obtain ⟨-, rfl⟩ | ⟨-, -, -, -, -, rfl⟩ := PullBuffer.beginRead_cases hb
    · exact h
    · exact ⟨h.exit, h.length, h.held, h.empty, h.place.congr rfl rfl rfl⟩
  · exact nomatch hst

theorem Inv.endRead {n : Nat} (h : Inv s) (hst : s.endRead n = some t) : Inv t := by
  unfold LocalFileInput.endRead at hst
  split at hst
  · rename_i hplace
    obtain ⟨buffer, hb, rfl⟩ := Option.map_eq_some_iff.mp hst
    obtain ⟨-, hle, rfl⟩ := PullBuffer.endRead_cases hb
    have hlength := h.length
    have hchain := h.place
    unfold PlaceInv at hchain
    rw [hplace] at hchain
    obtain ⟨k, m, hbytes, hpos⟩ := hchain
    have hn : n ≤ m := by
      have hall := congrArg List.length hbytes
      rw [List.length_append, List.length_range'] at hall
      omega
    refine ⟨h.exit, ?_, h.held, h.empty, ?_⟩
    · dsimp only
      rw [List.length_drop, hlength]
    · unfold PlaceInv
      dsimp only
      rw [hplace]
      refine ⟨k + n, m - n, ?_, by dsimp only; omega⟩
      dsimp only
      rw [← List.drop_append_of_le_length (by omega), hbytes, List.drop_range', Nat.mul_one]
  · exact nomatch hst

theorem Inv.move (h : Inv s) (pos : Nat) {place : SeekPlace}
    (hplace : PlaceInv { s with pos, place }) : Inv { s with pos, place } :=
  ⟨h.exit, h.length, h.held, h.empty, hplace⟩

theorem fseek_set {r : SeekTo} {pos : Nat} (h : s.fseek r = some pos) (hset : r.iFrom = .set) :
    (pos : Int) = r.iPos := by
  unfold fseek at h
  rw [hset] at h
  dsimp only at h
  split at h
  · obtain rfl := Option.some.inj h
    omega
  · exact nomatch h

theorem Inv.seek {r : SeekTo} (h : Inv s) (hst : s.call (.seek r) = some t) : Inv t := by
  unfold call at hst
  dsimp only at hst
  split at hst
  · rename_i hplace
    have hchain := h.place
    unfold PlaceInv at hchain
    rw [hplace] at hchain
    split at hst
    · rename_i htells
      obtain rfl := Option.some.inj hst
      refine h.move s.pos ?_
      unfold PlaceInv
      dsimp only
      rw [if_pos htells]
      exact hchain
    · rename_i htells
      split at hst
      · rename_i pos hseek
        obtain rfl := Option.some.inj hst
        refine h.move pos ?_
        unfold PlaceInv
        dsimp only
        rw [if_neg htells]
        exact fseek_set hseek
      · obtain rfl := Option.some.inj hst
        exact h.move s.pos trivial
  · exact nomatch hst

theorem Inv.ftell (h : Inv s) (hst : s.call .ftell = some t) : Inv t := by
  unfold call at hst
  dsimp only at hst
  split at hst
  · rename_i r hplace
    obtain rfl := Option.some.inj hst
    have hold := h.place
    unfold PlaceInv at hold
    rw [hplace] at hold
    refine h.move s.pos ?_
    unfold PlaceInv
    exact ⟨rfl, hold⟩
  · exact nomatch hst

theorem Inv.getNumBytesInBuffer (h : Inv s) (hguard : s.Undisturbed .getNumBytesInBuffer)
    (hst : s.call .getNumBytesInBuffer = some t) : Inv t := by
  unfold call at hst
  dsimp only at hst
  split at hst
  · rename_i r iRet hplace
    have hold := h.place
    have hlength := h.length
    unfold PlaceInv at hold
    unfold Undisturbed at hguard
    rw [hplace] at hold hguard
    dsimp only at hold hguard
    obtain ⟨hret, hold⟩ := hold
    split at hst
    · rename_i htells
      obtain rfl := Option.some.inj hst
      rw [if_pos htells] at hold hguard
      have hset : r.iFrom ≠ .set := by
        rw [of_decide_eq_true htells]
        exact nofun
      obtain ⟨k, n, hbytes, hpos⟩ := hold
      have hnext := nextOffset_of_chain hbytes hpos
      have hn := congrArg List.length hbytes
      rw [List.length_append, hguard, List.length_range', List.length_nil] at hn
      refine h.move s.pos ⟨⟨k, n, hbytes, hpos⟩, ?_, fun heq => absurd heq hset⟩
      rw [hret, ← hlength]
      exact (by omega : (s.pos : Int) - s.queue.length = k).trans (congrArg Nat.cast hnext.symm)
    · rename_i htells
      obtain rfl := Option.some.inj hst
      rw [if_neg htells] at hold hguard
      refine h.move s.pos ?_
      have hzero : iRet - ((0 : Nat) : Int) = iRet := Int.sub_zero iRet
      unfold PlaceInv
      dsimp only
      rw [hguard, hzero]
      exact ⟨hret, hold⟩
  · exact nomatch hst

theorem Inv.clear (h : Inv s) (hst : s.call .clear = some t) : Inv t := by
  unfold call at hst
  dsimp only at hst
  split at hst
  · rename_i done buffer hplace hb
    obtain rfl := Option.some.inj hst
    obtain ⟨hne, -⟩ | ⟨-, -, hwrite, rfl⟩ := PullBuffer.clear_cases hb
    · exact absurd rfl hne
    · have hfilled : s.worker ≠ .filled := fun hw => h.held (.inr hw) hwrite
      have hdraft := h.empty hfilled
      have hold := h.place
      unfold PlaceInv at hold
      rw [hplace] at hold
      refine ⟨h.exit, rfl, fun hheld => absurd hwrite (h.held hheld), h.empty, ?_⟩
      unfold PlaceInv
      cases done with
      | none => exact ⟨s.pos, 0, hdraft, rfl⟩
      | some done =>
        obtain ⟨r, iRet⟩ := done
        have hchain : ([] : List Nat) ++ s.draft = List.range' s.pos 0 := hdraft
        refine ⟨⟨s.pos, 0, hchain, rfl⟩, hold.1.trans (congrArg Nat.cast ?_), hold.2⟩
        exact (nextOffset_of_chain hchain rfl).symm
  · exact nomatch hst

theorem Inv.leave (h : Inv s) (hst : s.call .leave = some t) : Inv t := by
  unfold call at hst
  dsimp only at hst
  split at hst
  · rename_i r iRet hplace
    obtain rfl := Option.some.inj hst
    have hold := h.place
    unfold PlaceInv at hold
    rw [hplace] at hold
    exact h.move s.pos hold.1
  · exact nomatch hst

/-! ## Runs -/

theorem Inv.step {a : LocalAction} (h : Inv s) (hst : Guarded Undisturbed (Steps next) s a t) :
    Inv t := by
  obtain ⟨hguard, hst⟩ := hst
  unfold Steps next at hst
  cases a with
  | beginWrite => exact h.beginWrite hst
  | fread n => exact h.fread hguard hst
  | endWrite => exact h.endWrite hst
  | setEndOfStream => exact h.setEndOfStream hst
  | beginRead n => exact h.beginRead hst
  | endRead n => exact h.endRead hst
  | seek r => exact h.seek hst
  | rewind =>
    dsimp only at hst
    unfold call at hst
    dsimp only at hst
    split at hst
    · obtain rfl := Option.some.inj hst
      exact h.move 0 trivial
    · exact nomatch hst
  | ftell => exact h.ftell hst
  | getNumBytesInBuffer => exact h.getNumBytesInBuffer hguard hst
  | clear => exact h.clear hst
  | leave => exact h.leave hst

theorem Inv.right (h : Inv s) : s.Right := by
  intro r iRet hplace
  have hret := h.place
  unfold PlaceInv at hret
  rw [hplace] at hret
  exact hret.2

/-- The steps of a `Tell` leave the file and the buffer as they are. -/
theorem tell_unchanged {a : LocalAction} (hst : s.next a = some t)
    (ha : a = .seek ⟨0, .cur⟩ ∨ a = .ftell ∨ a = .getNumBytesInBuffer) :
    t.pos = s.pos ∧ t.buffer = s.buffer ∧ t.queue = s.queue ∧ t.draft = s.draft := by
  rcases ha with rfl | rfl | rfl
  all_goals
    unfold next call at hst
    dsimp only at hst
    split at hst
  · obtain rfl := Option.some.inj hst
    exact ⟨rfl, rfl, rfl, rfl⟩
  · exact nomatch hst
  · obtain rfl := Option.some.inj hst
    exact ⟨rfl, rfl, rfl, rfl⟩
  · exact nomatch hst
  · split at hst
    all_goals
      obtain rfl := Option.some.inj hst
      exact ⟨rfl, rfl, rfl, rfl⟩
  · exact nomatch hst

/-- In the runs that are not disturbed, a seek returns the position of the next byte, and
`Seek(iRet, 0, SEEK_CUR)` changes nothing. -/
theorem seek_of_run {size pos bufferSize overflowSize : Nat} {garbage : Memory UInt8}
    {acts : List LocalAction}
    (hrun : Run (Guarded Undisturbed (Steps next))
      (LocalFileInput.init size pos bufferSize overflowSize garbage) acts s) :
    s.Right ∧ ∀ a t, s.next a = some t →
      a = .seek ⟨0, .cur⟩ ∨ a = .ftell ∨ a = .getNumBytesInBuffer →
      t.pos = s.pos ∧ t.buffer = s.buffer ∧ t.queue = s.queue ∧ t.draft = s.draft := by
  have hinv : Inv s := hrun.invariant (fun _ _ _ h hst => Inv.step h hst)
    (Inv.init size pos bufferSize overflowSize garbage)
  exact ⟨hinv.right, fun _ _ hst ha => tell_unchanged hst ha⟩

/-- Two bytes are read, and the second one is sought when both have been used. -/
theorem seek_of_run_used :
    ∃ s, Run (Guarded Undisturbed (Steps next)) (LocalFileInput.init 2 0 16384 16384 fun _ => 0)
      [.beginWrite, .fread 2, .endWrite, .setEndOfStream, .beginRead 2, .endRead 2,
        .seek ⟨1, .set⟩, .ftell, .getNumBytesInBuffer, .clear] s ∧
      s.place = .returned ⟨1, .set⟩ 1 ∧ s.Right := by
  have hexec : (exec (guardedNext Undisturbed next)
      (LocalFileInput.init 2 0 16384 16384 fun _ => 0)
      [.beginWrite, .fread 2, .endWrite, .setEndOfStream, .beginRead 2, .endRead 2,
        .seek ⟨1, .set⟩, .ftell, .getNumBytesInBuffer, .clear]).map (·.place) =
      some (.returned ⟨1, .set⟩ 1) := by decide
  obtain ⟨s, hs, hplace⟩ := Option.map_eq_some_iff.mp hexec
  exact ⟨s, Run.of_guarded_exec hs, hplace, (seek_of_run (Run.of_guarded_exec hs)).1⟩

/-- Two bytes are in the buffer when the second one is sought. -/
theorem seek_fails : ¬ ∀ (size pos bufferSize overflowSize : Nat) (garbage : Memory UInt8)
    (acts : List LocalAction) (s : LocalFileInput),
    Run (Steps next) (LocalFileInput.init size pos bufferSize overflowSize garbage) acts s →
      s.Right := by
  intro hall
  have hexec : (exec next (LocalFileInput.init 2 0 16384 16384 fun _ => 0)
      [.beginWrite, .fread 2, .endWrite, .seek ⟨1, .set⟩, .ftell, .getNumBytesInBuffer,
        .clear]).map (·.place) = some (.returned ⟨1, .set⟩ (-1)) := by decide
  obtain ⟨s, hs, hplace⟩ := Option.map_eq_some_iff.mp hexec
  exact absurd ((hall 2 0 16384 16384 (fun _ => 0) _ s (Run.of_exec hs) _ _ hplace).2 rfl)
    (by decide)

end LocalFileInput

end FreeAmp.Io
