/-
  Lmc/VorbisRead.lean --- `VorbisLMC::Read`, from `lmc/vorbis/src/vorbislmc.cpp`, through
  which the vorbis library takes the stream out of the input buffer.

      Reads.step     what is copied out is what comes next of the stream
      reads_of_run   the calls of a run, for as long as `Sleep` does not return that the
                     decoder has to leave; then `Read` returns an error code as a count

  The members of the input buffer are those of `Io/PullBuffer.lean`, and what the input thread
  does with them may come between any two of the steps here.  `Pause` and `Resume` only reach
  `Read` through the semaphore.  The runs are those between two seeks.
-/
import FreeAmp.Base.PlaylistItem
import FreeAmp.Io.PullBufferContents

namespace FreeAmp.Lmc.Vorbis

open FreeAmp.Base FreeAmp.Lib FreeAmp.Io

/-! ## The calls -/

/-- A call `Read(buf, 1, num)` that has returned. -/
structure ReadCall where
  num : Nat
  /-- what has been copied to `buf` -/
  copied : Text
  /-- `none`: `(size_t)-1` -/
  result : Option Nat
  deriving DecidableEq

/-- Where `Read` stands. -/
inductive ReadPlace where
  /-- the library has not called it -/
  | outside
  | beginRead (num bytes : Nat)
  /-- in `m_pSleepSem->Wait()` -/
  | sleep (num bytes : Nat)
  /-- before `return m_bExit` of `Sleep` -/
  | woken (num bytes : Nat)
  | getNumBytesInBuffer (num : Nat)
  /-- in `memcpy`, or behind it -/
  | memcpy (num bytes : Nat) (buf : Text)
  deriving DecidableEq

/-- The decoder, and what its input buffer and the two users of it do. -/
structure VorbisLMC where
  place : ReadPlace
  input : Ends
  m_bExit : Bool
  /-- the count of `m_pSleepSem` -/
  m_pSleepSem : Int
  calls : List ReadCall

inductive ReadAction where
  /-- the library calls `Read(buf, 1, num)` -/
  | read (num : Nat)
  /-- `Read` goes on -/
  | goOn
  /-- what is done with the input buffer elsewhere -/
  | input (a : Io.Action)
  /-- `m_pSleepSem->Signal()`, as in `Wake`, `Pause` and the destructor -/
  | signal
  /-- `m_bExit = true` -/
  | exit

/-- What the input thread does to put `stream` into the buffer: it commits what comes next, and
says that it has ended when it has. -/
def feeds (stream : Text) (s : Ends) : Io.Action → Bool
  | .endWrite m => s.writing.all fun r => (s.committed ++ r.bytes.take m).isPrefixOf stream
  | .setEndOfStream eos => !eos || decide (s.committed = stream)
  | .beginRead _ => false
  | .endRead _ => false
  | _ => true

namespace VorbisLMC

def init (bufferSize overflowSize : Nat) (garbage : Memory UInt8) : VorbisLMC :=
  ⟨.outside, .init bufferSize overflowSize garbage, false, 1, []⟩

/-- `Read` returns. -/
def leaves (s : VorbisLMC) (num : Nat) (copied : Text) (result : Option Nat) : VorbisLMC :=
  { s with place := .outside, calls := s.calls ++ [⟨num, copied, result⟩] }

/-- What `Read` does with the answer of `BeginRead`. -/
def afterBeginRead (s : VorbisLMC) (num bytes : Nat) : Error → VorbisLMC
  | .noErr => { s with place := .memcpy num bytes [] }
  -- `m_pPmi->Wake()` is of no concern here
  | .noDataAvail => { s with place := .sleep num bytes }
  | .endOfStream => { s with place := .getNumBytesInBuffer num }
  | _ => s.leaves num [] none

/-- A step of `VorbisLMC::Read`; none while it waits. -/
def goOn (s : VorbisLMC) : Option VorbisLMC :=
  match s.place with
  | .outside => none
  | .beginRead num bytes =>
    match s.input.buffer.beginRead bytes, s.input.next (.beginRead bytes) with
    | some (err, _, _), some input =>
      some (afterBeginRead { s with input := input } num bytes err)
    | _, _ => none
  | .sleep num bytes =>
    if 0 < s.m_pSleepSem - 1 then
      some { s with m_pSleepSem := s.m_pSleepSem - 1, place := .woken num bytes }
    else none
  | .woken num bytes =>
    if s.m_bExit then some (s.leaves num [] (some Error.interrupt.code))
    else some { s with place := .beginRead num bytes }
  | .getNumBytesInBuffer num =>
    if s.input.buffer.bytesInBuffer = 0 then some (s.leaves num [] (some 0))
    else some { s with place := .beginRead num s.input.buffer.bytesInBuffer }
  | .memcpy num bytes buf =>
    match s.input.reading with
    | none => none
    | some r =>
      if buf.length < bytes then
        some { s with
          place := .memcpy num bytes
            (buf ++ [s.input.buffer.pullBuffer (r.pointer + buf.length)]) }
      else (s.input.next (.endRead bytes)).map fun input =>
        leaves { s with input := input } num buf (some bytes)

/-- A step of `Read`, or of what is around it. -/
def next (stream : Text) (s : VorbisLMC) : ReadAction → Option VorbisLMC
  | .read num =>
    if s.place = .outside ∧ 0 < num then some { s with place := .beginRead num num } else none
  | .goOn => s.goOn
  | .input a =>
    if feeds stream s.input a then (s.input.next a).map fun input => { s with input := input }
    else none
  | .signal => some { s with m_pSleepSem := s.m_pSleepSem + 1 }
  | .exit => some { s with m_bExit := true }

/-- `Sleep` returns that the decoder has to leave. -/
def interrupted (s : VorbisLMC) : ReadAction → Bool
  | .goOn =>
    match s.place with
    | .woken _ _ => s.m_bExit
    | _ => false
  | _ => false

end VorbisLMC

/-! ## What a call ought to do -/

/-- What the calls have copied. -/
def copiedBy (calls : List ReadCall) : Text := calls.flatMap ReadCall.copied

theorem copiedBy_concat (calls : List ReadCall) (c : ReadCall) :
    copiedBy (calls ++ [c]) = copiedBy calls ++ c.copied := by
  simp [copiedBy]

/-- A call, when `before` has been copied already: it fails, and copies nothing, or it returns
how much it has copied, and less than was asked for at the end of the stream only. -/
structure ReadCall.Right (stream before : Text) (c : ReadCall) : Prop where
  failed : c.result = none → c.copied = []
  count : ∀ n, c.result = some n → n = c.copied.length
  zero : c.result = some 0 → before = stream
  short : ∀ n, c.result = some n → n < c.num → before ++ c.copied = stream

/-- Each of the calls is right. -/
def AllRight (stream : Text) (calls : List ReadCall) : Prop :=
  ∀ before c after, calls = before ++ c :: after → c.Right stream (copiedBy before)

theorem AllRight.concat {stream : Text} {calls : List ReadCall} {c : ReadCall}
    (h : AllRight stream calls) (hc : c.Right stream (copiedBy calls)) :
    AllRight stream (calls ++ [c]) := by
  intro before c' after heq
  rcases after.eq_nil_or_concat' with rfl | ⟨after, last, rfl⟩
  · obtain ⟨rfl, hlast⟩ := List.append_inj' heq rfl
    obtain rfl := List.head_eq_of_cons_eq hlast
    exact hc
  · rw [← List.cons_append, ← List.append_assoc] at heq
    exact h before c' after (List.append_inj' heq rfl).1

/-! ## The invariant -/

/-- How many bytes are asked for: what the library wants, or what the stream still has. -/
structure Due (stream : Text) (s : Ends) (num bytes : Nat) : Prop where
  pos : 0 < num
  bytes_eq : bytes = num ∨ s.committed = stream ∧ s.consumed.length + bytes = stream.length

/-- What holds where `Read` stands. -/
def Placed (stream : Text) (s : Ends) : ReadPlace → Prop
  | .outside => s.reading = none
  | .beginRead num bytes | .sleep num bytes | .woken num bytes =>
    s.reading = none ∧ Due stream s num bytes
  | .getNumBytesInBuffer num => s.reading = none ∧ 0 < num ∧ s.committed = stream
  | .memcpy num bytes buf =>
    (∃ p, s.reading = some ⟨p, bytes⟩) ∧ Due stream s num bytes ∧ buf.length ≤ bytes ∧
      buf = (stream.drop s.consumed.length).take buf.length

/-- What is in the buffer is of the stream, and so is what has been taken out. -/
structure Fed (stream : Text) (s : Ends) : Prop where
  inv : Io.Inv s
  overflow : 0 < s.buffer.overflowSize
  committed : s.committed <+: stream
  eos : s.buffer.eos = true → s.committed = stream
  consumed : s.consumed = stream.take s.consumed.length

structure Reads (stream : Text) (s : VorbisLMC) : Prop where
  fed : Fed stream s.input
  copied : copiedBy s.calls = s.input.consumed
  right : AllRight stream s.calls
  placed : Placed stream s.input s.place

namespace Fed

variable {stream : Text} {s t : Ends}

theorem frame (h : Fed stream s) {a : Io.Action} (hst : s.next a = some t)
    (hcommitted : t.committed = s.committed) (heos : t.buffer.eos = s.buffer.eos)
    (hconsumed : t.consumed = s.consumed) : Fed stream t where
  inv := h.inv.step hst
  overflow := (Ends.next_sizes hst).2 ▸ h.overflow
  committed := hcommitted ▸ h.committed
  eos he := hcommitted.trans (h.eos (heos ▸ he))
  consumed := hconsumed ▸ h.consumed

/-- What is done elsewhere adds to the buffer what comes next, and takes nothing out. -/
theorem next (h : Fed stream s) {a : Io.Action} (hfeeds : feeds stream s a = true)
    (hst : s.next a = some t) : Fed stream t ∧ t.reading = s.reading ∧
      t.consumed = s.consumed ∧ (s.committed = stream → t.committed = stream) := by
  have hfits := (Ends.next_sizes hst).2
  have hinv := h.inv.step hst
  cases a with
  | beginWrite n =>
    obtain rfl | ⟨_, _, _, _, rfl⟩ := Ends.beginWrite_cases hst
    · exact ⟨h, rfl, rfl, id⟩
    · exact ⟨h.frame hst rfl rfl rfl, rfl, rfl, id⟩
  | store offset byte =>
    obtain ⟨_, _, _, rfl⟩ := Ends.store_cases hst
    exact ⟨h.frame hst rfl rfl rfl, rfl, rfl, id⟩
  | endWrite m =>
    obtain ⟨r, hw, _, _, rfl⟩ := Ends.endWrite_cases hst
    have hprefix : s.committed ++ r.bytes.take m <+: stream := by
      simpa [feeds, hw] using hfeeds
    -- behind the end of the stream there is nothing to commit
    have hend : s.committed = stream → s.committed ++ r.bytes.take m = stream :=
      fun heq => hprefix.eq_of_length_le (heq ▸ (List.prefix_append _ _).length_le)
    exact ⟨⟨hinv, hfits ▸ h.overflow, hprefix, fun he => hend (h.eos he), h.consumed⟩, rfl, rfl,
      hend⟩
  | beginRead n => cases hfeeds
  | endRead m => cases hfeeds
  | setEndOfStream eos =>
    obtain rfl := Option.some.inj hst
    refine ⟨⟨hinv, h.overflow, h.committed, fun he => ?_, h.consumed⟩, rfl, rfl, id⟩
    obtain rfl : eos = true := he
    exact of_decide_eq_true hfeeds
  | exit =>
    obtain rfl := Option.some.inj hst
    exact ⟨h.frame hst rfl rfl rfl, rfl, rfl, id⟩

theorem rest (h : Fed stream s) (hend : s.committed = stream) :
    s.consumed.length + s.buffer.bytesInBuffer = stream.length :=
  hend ▸ h.inv.cursors.count_eq

theorem byte (h : Fed stream s) {r : ReadRegion} (hr : s.reading = some r) {i : Nat}
    (hi : i < r.size) : (stream.drop s.consumed.length)[i]? =
      some (s.buffer.pullBuffer (r.pointer + i)) := by
  have hfits := region_fits h.inv.cursors h.overflow hr
  have hregion := h.inv.contents.region r hr i hi (by omega)
  obtain ⟨later, hlater⟩ := h.committed
  rw [List.getElem?_drop, ← hlater, List.getElem?_append_left (List.getElem?_eq_some_iff.mp
    hregion).1, hregion]

end Fed

theorem Due.congr {stream : Text} {s t : Ends} {num bytes : Nat} (h : Due stream s num bytes)
    (hconsumed : t.consumed = s.consumed) (hend : s.committed = stream → t.committed = stream) :
    Due stream t num bytes :=
  ⟨h.pos, h.bytes_eq.imp_right fun ⟨hs, hlen⟩ => ⟨hend hs, hconsumed ▸ hlen⟩⟩

theorem Placed.congr {stream : Text} {s t : Ends} {place : ReadPlace}
    (h : Placed stream s place) (hreading : t.reading = s.reading)
    (hconsumed : t.consumed = s.consumed) (hend : s.committed = stream → t.committed = stream) :
    Placed stream t place := by
  cases place with
  | outside => exact hreading.trans h
  | beginRead num bytes | sleep num bytes | woken num bytes =>
    exact ⟨hreading.trans h.1, h.2.congr hconsumed hend⟩
  | getNumBytesInBuffer num => exact ⟨hreading.trans h.1, h.2.1, hend h.2.2⟩
  | memcpy num bytes buf =>
    obtain ⟨⟨p, hp⟩, hdue, hle, hbuf⟩ := h
    exact ⟨⟨p, hreading.trans hp⟩, hdue.congr hconsumed hend, hle, hconsumed ▸ hbuf⟩

/-! ## The steps of `Read` -/

theorem eos_of_endOfStream {b b' : PullBuffer} {n : Nat} {p : Option Nat}
    (h : b.beginRead n = some (.endOfStream, p, b')) : b.eos = true := by
  unfold PullBuffer.beginRead at h
  split at h
  · split at h
    · cases h
    · split at h
      · rename_i heos
        exact heos.1
      · split at h
        · cases h
        · split at h
          · cases h
          · split at h <;> cases h
  · cases h

theorem beginRead_answer {s t : Ends} {n : Nat} {err : Error} {p : Option Nat} {b : PullBuffer}
    (hread : s.buffer.beginRead n = some (err, p, b)) (hst : s.next (.beginRead n) = some t) :
    err ≠ .noErr ∧ t = s ∨ err = .noErr ∧ (∃ p, t.reading = some ⟨p, n⟩) ∧
      t.committed = s.committed ∧ t.buffer.eos = s.buffer.eos ∧ t.consumed = s.consumed := by
  simp only [Ends.next, Ends.beginRead, hread] at hst
  obtain ⟨hne, rfl⟩ | ⟨rfl, rfl, _, _, _, rfl⟩ := PullBuffer.beginRead_cases hread
  · split at hst
    · rename_i heq
      cases heq
      exact absurd rfl hne
    · rename_i heq
      cases heq
      exact .inl ⟨hne, (Option.some.inj hst).symm⟩
    · cases hst
  · split at hst
    · rename_i heq
      cases heq
      obtain rfl := Option.some.inj hst
      exact .inr ⟨rfl, ⟨_, rfl⟩, rfl, rfl, rfl⟩
    · rename_i hno _ heq
      cases heq
      exact absurd rfl (hno _ rfl)
    · cases hst

namespace Reads

variable {stream : Text} {s t : VorbisLMC}

theorem leaves (h : Reads stream s) {input : Ends} {num : Nat} {buf : Text} {result : Option Nat}
    (hfed : Fed stream input) (hidle : input.reading = none)
    (hconsumed : input.consumed = s.input.consumed ++ buf)
    (hright : ReadCall.Right stream s.input.consumed ⟨num, buf, result⟩) :
    Reads stream (VorbisLMC.leaves { s with input := input } num buf result) where
  fed := hfed
  copied := by
    change copiedBy (s.calls ++ _) = input.consumed
    rw [copiedBy_concat, h.copied, hconsumed]
  right := h.right.concat (h.copied.symm ▸ hright)
  placed := hidle

theorem beginRead (h : Reads stream s) {num bytes : Nat} (hplace : s.place = .beginRead num bytes)
    (hst : s.goOn = some t) : Reads stream t := by
  have hplaced := h.placed
  rw [hplace] at hplaced
  obtain ⟨hidle, hdue⟩ := hplaced
  unfold VorbisLMC.goOn at hst
  rw [hplace] at hst
  dsimp only at hst
  split at hst
  · rename_i err p b input hread hnext
    obtain rfl := Option.some.inj hst
    obtain ⟨hne, rfl⟩ | ⟨rfl, hgranted, hcommitted, heos, hconsumed⟩ := beginRead_answer hread hnext
    · have hfails : Reads stream (s.leaves num [] none) := h.leaves h.fed hidle
        (List.append_nil _).symm
        ⟨fun _ => rfl, fun _ hn => (by cases hn), fun hn => (by cases hn),
          fun _ hn => (by cases hn)⟩
      cases err with
      | noErr => exact absurd rfl hne
      | noDataAvail => exact { h with placed := ⟨hidle, hdue⟩ }
      | endOfStream =>
        exact { h with placed := ⟨hidle, hdue.pos, h.fed.eos (eos_of_endOfStream hread)⟩ }
      | _ => exact hfails
    · exact ⟨h.fed.frame hnext hcommitted heos hconsumed, h.copied.trans hconsumed.symm, h.right,
        hgranted, hdue.congr hconsumed hcommitted.trans, Nat.zero_le _, rfl⟩
  · cases hst

theorem memcpy (h : Reads stream s) {num bytes : Nat} {buf : Text}
    (hplace : s.place = .memcpy num bytes buf) (hst : s.goOn = some t) : Reads stream t := by
  have hplaced := h.placed
  rw [hplace] at hplaced
  obtain ⟨⟨p, hr⟩, hdue, hle, hbuf⟩ := hplaced
  unfold VorbisLMC.goOn at hst
  rw [hplace, hr] at hst
  dsimp only at hst
  split at hst
  · rename_i hmore
    obtain rfl := Option.some.inj hst
    refine { h with placed := ⟨⟨p, hr⟩, hdue, ?_, ?_⟩ }
    · rw [List.length_append]
      exact hmore
    · rw [List.length_append, List.length_singleton, List.take_add_one, ← hbuf,
        h.fed.byte hr hmore]
      rfl
  · rename_i hdone
    have hlen : buf.length = bytes := Nat.le_antisymm hle (Nat.not_lt.mp hdone)
    cases hnext : s.input.next (.endRead bytes) with
    | none =>
      rw [hnext] at hst
      cases hst
    | some input =>
      rw [hnext] at hst
      obtain rfl := Option.some.inj hst
      obtain ⟨r, hr', _, hcount, hinput⟩ := Ends.endRead_cases hnext
      have hinv := h.fed.inv.step hnext
      have hfits := (Ends.next_sizes hnext).2
      obtain rfl := Option.some.inj (hr'.symm.trans hr)
      -- the region is what has been copied
      have hslice : s.input.buffer.pullBuffer.slice p bytes = buf := by
        refine List.ext_getElem? fun i => ?_
        by_cases hi : i < bytes
        · rw [Memory.getElem?_slice hi, hbuf, List.getElem?_take_of_lt (hlen ▸ hi),
            h.fed.byte hr hi]
        · rw [List.getElem?_eq_none (by simp; omega), List.getElem?_eq_none (by omega)]
      have hconsumed : input.consumed = s.input.consumed ++ buf := by
        rw [hinput, ← hslice]
      have htaken : s.input.consumed ++ buf = stream.take (s.input.consumed.length + bytes) := by
        rw [List.take_add, ← h.fed.consumed, ← hlen, ← hbuf]
      have hall : bytes ≠ num → s.input.consumed ++ buf = stream := by
        intro hne
        rw [htaken, (hdue.bytes_eq.resolve_left hne).2, List.take_length]
      have hfed : Fed stream input := ⟨hinv, hfits ▸ h.fed.overflow,
        hinput ▸ h.fed.committed, hinput ▸ h.fed.eos, by
          rw [hconsumed, List.length_append, hlen]
          exact htaken⟩
      refine h.leaves hfed (by rw [hinput]) hconsumed ⟨fun hn => (by cases hn), ?_, ?_, ?_⟩
      · intro n hn
        rw [← Option.some.inj hn, ← hlen]
      · intro hn
        have hzero : bytes = 0 := Option.some.inj hn
        have hpos := hdue.pos
        have hnil : buf = [] := List.eq_nil_of_length_eq_zero (hlen.trans hzero)
        rw [← hall (by omega), hnil, List.append_nil]
      · intro n hn hless
        obtain rfl : bytes = n := Option.some.inj hn
        exact hall (Nat.ne_of_lt hless)

theorem goOn (h : Reads stream s) (hstays : s.interrupted .goOn = false)
    (hst : s.goOn = some t) : Reads stream t := by
  have hplaced := h.placed
  cases hplace : s.place with
  | outside =>
    unfold VorbisLMC.goOn at hst
    rw [hplace] at hst
    cases hst
  | beginRead num bytes => exact h.beginRead hplace hst
  | memcpy num bytes buf => exact h.memcpy hplace hst
  | sleep num bytes =>
    unfold VorbisLMC.goOn at hst
    rw [hplace] at hst hplaced
    dsimp only at hst
    split at hst
    · obtain rfl := Option.some.inj hst
      exact { h with placed := hplaced }
    · cases hst
  | woken num bytes =>
    unfold VorbisLMC.goOn at hst
    unfold VorbisLMC.interrupted at hstays
    rw [hplace] at hst hplaced hstays
    dsimp only at hst hstays
    rw [hstays] at hst
    obtain rfl := Option.some.inj hst
    exact { h with placed := hplaced }
  | getNumBytesInBuffer num =>
    unfold VorbisLMC.goOn at hst
    rw [hplace] at hst hplaced
    obtain ⟨hidle, hpos, hend⟩ := hplaced
    have hrest := h.fed.rest hend
    dsimp only at hst
    split at hst
    · rename_i hempty
      obtain rfl := Option.some.inj hst
      have hall : s.input.consumed = stream := by
        rw [h.fed.consumed, show s.input.consumed.length = stream.length by omega,
          List.take_length]
      refine h.leaves h.fed hidle (List.append_nil _).symm ⟨fun _ => rfl,
        fun n hn => (Option.some.inj hn).symm, fun _ => hall, fun _ _ _ => ?_⟩
      rw [hall, List.append_nil]
    · obtain rfl := Option.some.inj hst
      exact { h with placed := ⟨hidle, hpos, .inr ⟨hend, hrest⟩⟩ }

theorem step (h : Reads stream s) {a : ReadAction} (hstays : s.interrupted a = false)
    (hst : s.next stream a = some t) : Reads stream t := by
  cases a with
  | read num =>
    simp only [VorbisLMC.next] at hst
    split at hst
    · rename_i hcalled
      have hidle := h.placed
      rw [hcalled.1] at hidle
      obtain rfl := Option.some.inj hst
      exact { h with placed := ⟨hidle, hcalled.2, .inl rfl⟩ }
    · cases hst
  | goOn => exact h.goOn hstays hst
  | input a =>
    simp only [VorbisLMC.next] at hst
    split at hst
    · rename_i hfeeds
      cases hnext : s.input.next a with
      | none =>
        rw [hnext] at hst
        cases hst
      | some input =>
        rw [hnext] at hst
        obtain rfl := Option.some.inj hst
        obtain ⟨hfed, hreading, hconsumed, hend⟩ := h.fed.next hfeeds hnext
        exact ⟨hfed, h.copied.trans hconsumed.symm, h.right,
          h.placed.congr hreading hconsumed hend⟩
    · cases hst
  | signal =>
    obtain rfl := Option.some.inj hst
    exact { h with }
  | exit =>
    obtain rfl := Option.some.inj hst
    exact { h with }

theorem init {S O : Nat} (hS : 0 < S) (hO : 0 < O) (garbage : Memory UInt8) :
    Reads stream (.init S O garbage) where
  fed := ⟨.init hS garbage, hO, List.nil_prefix, fun he => (by cases he), rfl⟩
  copied := rfl
  right before c after heq := by
    cases before <;> cases heq
  placed := rfl

end Reads

namespace VorbisLMC

/-- The calls of any run in which `Sleep` does not return that the decoder has to leave: what
they copy is the stream, as far as they have come, and each of them is right. -/
theorem reads_of_run {S O : Nat} (hS : 0 < S) (hO : 0 < O) {garbage : Memory UInt8}
    {stream : Text} {acts : List ReadAction} {s : VorbisLMC}
    (hrun : Run (Guarded (fun s a => s.interrupted a = false) (Steps (next stream)))
      (init S O garbage) acts s) :
    copiedBy s.calls <+: stream ∧ AllRight stream s.calls := by
  have h : Reads stream s :=
    hrun.invariant (fun _ _ _ hs hstep => hs.step hstep.1 hstep.2) (.init hS hO garbage)
  refine ⟨?_, h.right⟩
  rw [h.copied, h.fed.consumed]
  exact List.take_prefix _ _

/-- Two bytes, the second of which only comes when `Read` waits for three, and the end. -/
def shortRead : List ReadAction :=
  [.input (.beginWrite 2), .input (.store 0 7), .read 3, .goOn, .input (.store 1 8),
   .input (.endWrite 2), .input (.setEndOfStream true), .signal, .goOn, .goOn, .goOn, .goOn,
   .goOn, .goOn, .goOn, .goOn, .read 1, .goOn, .goOn]

theorem reads_of_run_shortRead :
    ∃ s, exec (guardedNext (fun s a => s.interrupted a = false) (next [7, 8]))
        (init 4 2 fun _ => 0) shortRead = some s ∧
      s.calls = [⟨3, [7, 8], some 2⟩, ⟨1, [], some 0⟩] ∧
      copiedBy s.calls <+: [7, 8] ∧ AllRight [7, 8] s.calls :=
  ⟨_, rfl, rfl, @reads_of_run 4 2 (by decide) (by decide) (fun _ => 0) [7, 8] shortRead _
    (Run.of_guarded_exec rfl)⟩

/-- The decoder has to leave while `Read` waits: 28 is the code of the error, and nothing has
been copied. -/
theorem reads_fail :
    ((exec (next [7, 8]) (init 4 2 fun _ => 0)
      [.read 1, .goOn, .exit, .signal, .goOn, .goOn]).map calls) =
        some [⟨1, [], some 28⟩] ∧ ¬ ReadCall.Right [7, 8] [] ⟨1, [], some 28⟩ :=
  ⟨rfl, fun h => absurd (h.count 28 rfl) (by decide)⟩

end VorbisLMC

end FreeAmp.Lmc.Vorbis
