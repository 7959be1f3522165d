/-
  Lmc/AdvanceFrame.lean --- the search for the next frame of an MPEG stream,
  `AdvanceBufferToNextFrame` of `lmc/xingmp3/src/xinglmc.cpp`.

      scan_block         what a block of input is searched for
      advance_right_iff  when the first sync is the one that is found

  The stream is taken block by block.  The first byte of a block is not looked at, a sync at
  the second one is passed over, and of the last one the byte behind the block is looked at.
-/
import FreeAmp.Base.Database
import FreeAmp.Base.Errors

namespace FreeAmp.Lmc.Xing

open FreeAmp.Base

def iMaxFrameSize : Nat := 1441

/-! ## The input -/

/-- Where the decoder reads. -/
structure Input where
  /-- what there is from the position at the call on -/
  bytes : Text
  /-- `m_fpFile` is open: the length of a song is calculated -/
  fpFile : Bool
  /-- what a call of `BeginRead`, the calls counted, ends with, if it is not for the bytes -/
  stop : Nat → Option Error
  stop_ne : ∀ n, stop n ≠ some .noErr

namespace Input

/-- What ends the call, if it is not for the bytes; reading a file is not interrupted. -/
def stopped (s : Input) (n : Nat) : Option Error := if s.fpFile then none else s.stop n

/-- `BeginRead(pBuffer, iMaxFrameSize)`, the call of this number. -/
def beginRead (s : Input) (n pos : Nat) : Except Error Text :=
  match s.stopped n with
  | some err => .error err
  | none =>
    if pos + iMaxFrameSize ≤ s.bytes.length then .ok ((s.bytes.drop pos).take iMaxFrameSize)
    else .error .endOfStream

/-- `EndRead`; a file stays where it has been read to. -/
def endRead (s : Input) (pos used : Nat) : Nat :=
  if s.fpFile then pos + iMaxFrameSize else pos + used

theorem le_of_beginRead {s : Input} {n pos : Nat} {block : Text}
    (h : s.beginRead n pos = .ok block) :
    s.stopped n = none ∧ pos + iMaxFrameSize ≤ s.bytes.length ∧
      block = (s.bytes.drop pos).take iMaxFrameSize := by
  unfold beginRead at h
  cases hstop : s.stopped n with
  | some err =>
    rw [hstop] at h
    cases h
  | none =>
    rw [hstop] at h
    dsimp only at h
    split at h
    · rename_i hle
      exact ⟨rfl, hle, (Except.ok.inj h).symm⟩
    · cases h

theorem beginRead_error_ne {s : Input} {n pos : Nat} {err : Error}
    (h : s.beginRead n pos = .error err) : err ≠ .noErr := by
  unfold beginRead stopped at h
  rintro rfl
  cases hfile : s.fpFile with
  | true =>
    rw [hfile, if_pos rfl] at h
    dsimp only at h
    split at h <;> cases h
  | false =>
    rw [hfile, if_neg Bool.false_ne_true] at h
    cases hstop : s.stop n with
    | some err =>
      rw [hstop] at h
      exact s.stop_ne n (hstop.trans (congrArg some (Except.error.inj h)))
    | none =>
      rw [hstop] at h
      dsimp only at h
      split at h <;> cases h

end Input

/-! ## `AdvanceBufferToNextFrame` -/

/-- The high nibble of the second byte of a sync. -/
def isSecond (c : UInt8) : Bool := c &&& 0xF0 == 0xF0 || c &&& 0xF0 == 0xE0

/-- The inner loop, from `pBuffer` to the end of what has been granted: `iCount`, or none when
the byte behind is looked at. -/
def scan : Text → Option Nat
  | [] => some 0
  | c :: rest =>
    if c = 0xFF then
      match rest with
      | [] => none
      | d :: _ => if isSecond d then some 0 else (scan rest).map (· + 1)
    else (scan rest).map (· + 1)

/-- What has been returned, the read position, and whether a failure has been reported. -/
structure Advanced where
  result : Error
  pos : Nat
  reported : Bool

/-- A failure of the first `BeginRead` is reported unless it is an interruption as well. -/
def isReported (n : Nat) (err : Error) : Bool :=
  err != .endOfStream && (n != 0 || err != .interrupt)

/-- The rounds from a call of `BeginRead` on; none when a byte is looked at that has not been
granted. -/
def Input.advanceFrom (s : Input) (n pos : Nat) : Option Advanced :=
  match h : s.beginRead n pos with
  | .error err => some ⟨err, if s.fpFile then s.bytes.length else pos, isReported n err⟩
  | .ok block =>
    match scan (block.drop 1) with
    | none => none
    | some iCount =>
      if iCount ≠ 0 ∧ iCount < iMaxFrameSize - 1 then
        some ⟨.noErr, s.endRead pos (iCount + 1), false⟩
      else s.advanceFrom (n + 1) (s.endRead pos (iCount + 1))
termination_by s.bytes.length - pos
decreasing_by
  have hle := (Input.le_of_beginRead h).2.1
  unfold Input.endRead
  unfold iMaxFrameSize at *
  split <;> omega

def Input.advanceBufferToNextFrame (s : Input) : Option Advanced := s.advanceFrom 0 0

/-! ## What it is to find -/

/-- A sync stands here. -/
def Sync (bytes : Text) (p : Nat) : Prop :=
  bytes[p]? = some 0xFF ∧ ∃ d, bytes[p + 1]? = some d ∧ isSecond d = true

/-- The first sync behind the first byte. -/
structure FirstSync (bytes : Text) (p : Nat) : Prop where
  pos : 1 ≤ p
  sync : Sync bytes p
  first : ∀ q, 1 ≤ q → q < p → ¬ Sync bytes q

/-- The block can be had: it is there, and `BeginRead` is not stopped. -/
def Input.Granted (s : Input) (k : Nat) : Prop :=
  s.stopped k = none ∧ iMaxFrameSize * k + iMaxFrameSize ≤ s.bytes.length

/-- The blocks up to the one with this place can be had. -/
def Input.Reaches (s : Input) (p : Nat) : Prop := ∀ k ≤ p / iMaxFrameSize, s.Granted k

/-- The first sync is found if its block can be had, and else the error of `BeginRead` is
returned. -/
structure Input.AdvancesRight (s : Input) (r : Option Advanced) : Prop where
  found : ∀ p, FirstSync s.bytes p → s.Reaches p → r = some ⟨.noErr, p, false⟩
  failed : (∀ p, FirstSync s.bytes p → ¬ s.Reaches p) →
    ∃ k err a, (∀ j < k, s.Granted j) ∧ s.beginRead k (iMaxFrameSize * k) = .error err ∧
      r = some a ∧ a.result = err

/-- No block that is searched to its end ends with `0xFF`; the first sync is neither the first
nor the second byte of a block, and not read from a file. -/
structure Input.Visible (s : Input) : Prop where
  edge : ∀ k, (∀ j ≤ k, s.Granted j) →
    (∀ q, 1 ≤ q → q < iMaxFrameSize * k + 1440 → ¬ Sync s.bytes q) →
      s.bytes[iMaxFrameSize * k + 1440]? ≠ some 0xFF
  inside : ∀ p, FirstSync s.bytes p → s.Reaches p → s.fpFile = false ∧ 2 ≤ p % iMaxFrameSize

/-! ## One block -/

theorem sync_cons_succ {c : UInt8} {rest : Text} {p : Nat} :
    Sync (c :: rest) (p + 1) ↔ Sync rest p := by
  unfold Sync
  rw [List.getElem?_cons_succ, List.getElem?_cons_succ]

theorem not_sync_of_le {bytes : Text} {p : Nat} (h : bytes.length ≤ p + 1) : ¬ Sync bytes p := by
  rintro ⟨-, d, hd, -⟩
  rw [List.getElem?_eq_none h] at hd
  cases hd

theorem scan_spec (s : Text) :
    match scan s with
    | none => s.getLast? = some 0xFF ∧ ∀ q, ¬ Sync s q
    | some c => (∀ q < c, ¬ Sync s q) ∧
        (c + 1 < s.length ∧ Sync s c ∨ c = s.length ∧ s.getLast? ≠ some 0xFF) := by
  induction s with
  | nil => exact ⟨fun q hq => absurd hq (Nat.not_lt_zero q), .inr ⟨rfl, nofun⟩⟩
  | cons c rest ih =>
    -- Nothing is found at `c`, and the rest decides.
    have hmore : ∀ hrest : rest ≠ [], ¬ Sync (c :: rest) 0 →
        match (scan rest).map (· + 1) with
        | none => (c :: rest).getLast? = some 0xFF ∧ ∀ q, ¬ Sync (c :: rest) q
        | some c' => (∀ q < c', ¬ Sync (c :: rest) q) ∧
            (c' + 1 < (c :: rest).length ∧ Sync (c :: rest) c' ∨
              c' = (c :: rest).length ∧ (c :: rest).getLast? ≠ some 0xFF) := by
      intro hrest hnot
      have hlast : (c :: rest).getLast? = rest.getLast? := by
        rw [List.getLast?_cons, List.getLast?_eq_some_getLast hrest]
        rfl
      cases hscan : scan rest with
      | none =>
        rw [hscan] at ih
        refine ⟨hlast.trans ih.1, fun q => ?_⟩
        cases q with
        | zero => exact hnot
        | succ q => exact sync_cons_succ.not.mpr (ih.2 q)
      | some c' =>
        rw [hscan] at ih
        refine ⟨fun q hq => ?_, ?_⟩
        · cases q with
          | zero => exact hnot
          | succ q => exact sync_cons_succ.not.mpr (ih.1 q (Nat.lt_of_succ_lt_succ hq))
        · rcases ih.2 with ⟨hlt, hsync⟩ | ⟨heq, hne⟩
          · exact .inl ⟨Nat.succ_lt_succ hlt, sync_cons_succ.mpr hsync⟩
          · exact .inr ⟨by rw [List.length_cons, heq], by rwa [hlast]⟩
    unfold scan
    by_cases hc : c = 0xFF
    · rw [if_pos hc]
      cases rest with
      | nil =>
        refine ⟨by rw [hc]; rfl, fun q => not_sync_of_le ?_⟩
        exact Nat.le_add_left 1 q
      | cons d rest =>
        dsimp only
        by_cases hd : isSecond d = true
        · rw [if_pos hd]
          refine ⟨fun q hq => absurd hq (Nat.not_lt_zero q), .inl ⟨?_, congrArg some hc, d, rfl, hd⟩⟩
          rw [List.length_cons, List.length_cons]
          omega
        · rw [if_neg hd]
          refine hmore (List.cons_ne_nil d rest) ?_
          rintro ⟨-, e, he, hsecond⟩
          exact hd (Option.some.inj he ▸ hsecond)
    · rw [if_neg hc]
      have hnot : ¬ Sync (c :: rest) 0 := fun h => hc (Option.some.inj h.1)
      cases rest with
      | nil =>
        refine ⟨fun q hq => ?_, .inr ⟨rfl, fun h => hc (Option.some.inj h)⟩⟩
        rw [Nat.lt_one_iff.mp hq]
        exact hnot
      | cons d rest => exact hmore (List.cons_ne_nil d rest) hnot

section Block

variable {s : Input} {n k pos : Nat} {block : Text}

theorem sync_block {i : Nat} (hblock : block = (s.bytes.drop pos).take iMaxFrameSize)
    (hi : i + 1 < 1440) : Sync (block.drop 1) i ↔ Sync s.bytes (pos + 1 + i) := by
  have hget : ∀ j < 1440, (block.drop 1)[j]? = s.bytes[pos + 1 + j]? := by
    intro j hj
    rw [hblock, List.getElem?_drop, List.getElem?_take_of_lt (by unfold iMaxFrameSize; omega),
      List.getElem?_drop, Nat.add_assoc]
  unfold Sync
  rw [hget i (by omega), hget (i + 1) hi]
  rfl

theorem scan_block (hread : s.beginRead n pos = .ok block) :
    match scan (block.drop 1) with
    | none => s.bytes[pos + 1440]? = some 0xFF ∧
        ∀ q, pos + 1 ≤ q → q < pos + 1440 → ¬ Sync s.bytes q
    | some c => (∀ q, pos + 1 ≤ q → q < pos + 1 + c → q < pos + 1440 → ¬ Sync s.bytes q) ∧
        (c < 1439 ∧ Sync s.bytes (pos + 1 + c) ∨ c = 1440 ∧ s.bytes[pos + 1440]? ≠ some 0xFF) := by
  obtain ⟨-, hle, hblock⟩ := Input.le_of_beginRead hread
  have hlength : (block.drop 1).length = 1440 := by
    rw [hblock, List.length_drop, List.length_take, List.length_drop]
    unfold iMaxFrameSize at *
    omega
  have hlast : (block.drop 1).getLast? = s.bytes[pos + 1440]? := by
    rw [List.getLast?_eq_getElem?, hlength, hblock, List.getElem?_drop,
      List.getElem?_take_of_lt (by unfold iMaxFrameSize; omega), List.getElem?_drop]
  have hplace : ∀ q, pos + 1 ≤ q → q < pos + 1440 → (Sync s.bytes q ↔
      Sync (block.drop 1) (q - (pos + 1))) := by
    intro q hq hq'
    rw [sync_block hblock (by omega), Nat.add_sub_cancel' hq]
  have hspec := scan_spec (block.drop 1)
  cases hscan : scan (block.drop 1) with
  | none =>
    rw [hscan] at hspec
    exact ⟨hlast ▸ hspec.1, fun q hq hq' => (hplace q hq hq').not.mpr (hspec.2 _)⟩
  | some c =>
    rw [hscan, hlength, hlast] at hspec
    refine ⟨fun q hq hq' hq'' => (hplace q hq hq'').not.mpr (hspec.1 _ (by omega)), ?_⟩
    rcases hspec.2 with ⟨hlt, hsync⟩ | h
    · exact .inl ⟨by omega, (sync_block hblock hlt).mp hsync⟩
    · exact .inr h

/-! ## All blocks -/

theorem Input.granted_iff : (∃ block, s.beginRead k (iMaxFrameSize * k) = .ok block) ↔
    s.Granted k := by
  constructor
  · rintro ⟨block, hread⟩
    obtain ⟨hstop, hle, -⟩ := Input.le_of_beginRead hread
    exact ⟨hstop, hle⟩
  · rintro ⟨hstop, hle⟩
    unfold Input.beginRead
    rw [hstop]
    exact ⟨_, if_pos hle⟩

theorem Input.advanceFrom_pos {s : Input} {n pos q : Nat} {reported : Bool}
    (h : s.advanceFrom n pos = some ⟨.noErr, q, reported⟩) : pos + 2 ≤ q := by
  unfold Input.advanceFrom at h
  split at h
  · rename_i err hread
    exact absurd (congrArg Advanced.result (Option.some.inj h)) (Input.beginRead_error_ne hread)
  · rename_i block hread
    split at h
    · cases h
    · rename_i iCount hscan
      have hnext : pos + (iCount + 1) ≤ s.endRead pos (iCount + 1) ∨
          pos + iMaxFrameSize ≤ s.endRead pos (iCount + 1) := by
        unfold Input.endRead
        split
        · exact .inr (Nat.le_refl _)
        · exact .inl (Nat.le_refl _)
      have hlarge : iMaxFrameSize = 1441 := rfl
      split at h
      · rename_i hcount
        have hq := congrArg Advanced.pos (Option.some.inj h)
        dsimp only at hq
        omega
      · have hle := (Input.le_of_beginRead hread).2.1
        have hlater := Input.advanceFrom_pos h
        omega
termination_by s.bytes.length - pos
decreasing_by
  have hpos : 0 < iMaxFrameSize := by decide
  omega

theorem Input.not_right {p : Nat} {r : Option Advanced} (hfirst : FirstSync s.bytes p)
    (hreach : s.Reaches p) (hr : r ≠ some ⟨.noErr, p, false⟩) : ¬ s.AdvancesRight r :=
  fun h => hr (h.found p hfirst hreach)

theorem FirstSync.unique {bytes : Text} {p q : Nat} (hp : FirstSync bytes p)
    (hq : FirstSync bytes q) : p = q := by
  rcases Nat.lt_trichotomy p q with hlt | heq | hlt
  · exact absurd hp.sync (hq.first p hp.pos hlt)
  · exact heq
  · exact absurd hq.sync (hp.first q hq.pos hlt)

/-- The blocks before this one have been searched in vain. -/
structure Input.Searched (s : Input) (k : Nat) : Prop where
  granted : ∀ j < k, s.Granted j
  none : ∀ q, 1 ≤ q → q < iMaxFrameSize * k → ¬ Sync s.bytes q
  edge : ∀ j < k, s.bytes[iMaxFrameSize * j + 1440]? ≠ some 0xFF

theorem Input.advanceFrom_granted (hread : s.beginRead n pos = .ok block) :
    s.advanceFrom n pos =
      match scan (block.drop 1) with
      | none => none
      | some iCount =>
        if iCount ≠ 0 ∧ iCount < iMaxFrameSize - 1 then
          some ⟨.noErr, s.endRead pos (iCount + 1), false⟩
        else s.advanceFrom (n + 1) (s.endRead pos (iCount + 1)) := by
  rw [Input.advanceFrom]
  split
  · rename_i err hread'
    cases hread'.symm.trans hread
  · rename_i block' hread'
    cases hread'.symm.trans hread
    rfl

theorem Input.endRead_all : s.endRead pos iMaxFrameSize = pos + iMaxFrameSize := by
  unfold Input.endRead
  split <;> rfl

/-- The first sync, where the blocks before it have been searched in vain. -/
theorem Input.Searched.reaches (h : s.Searched k) (hgranted : s.Granted k) {p : Nat}
    (hp : p < iMaxFrameSize * (k + 1)) : s.Reaches p := by
  intro j hj
  have hk : p / iMaxFrameSize ≤ k := Nat.le_of_lt_succ (Nat.div_lt_of_lt_mul hp)
  rcases Nat.lt_or_eq_of_le (hj.trans hk) with hlt | rfl
  · exact h.granted j hlt
  · exact hgranted

/-- Without the block, no sync is there that could be had. -/
theorem Input.Searched.not_reaches (h : s.Searched k) (hgranted : ¬ s.Granted k) {p : Nat}
    (hfirst : FirstSync s.bytes p) : ¬ s.Reaches p := by
  intro hreach
  have hlarge : iMaxFrameSize * k ≤ p := by
    by_contra hlt
    exact h.none p hfirst.pos (Nat.not_le.mp hlt) hfirst.sync
  exact hgranted (hreach k ((Nat.le_div_iff_mul_le (by decide)).mpr (by rwa [Nat.mul_comm])))

theorem Input.Searched.stopped (h : s.Searched k) (hgranted : ¬ s.Granted k) :
    s.AdvancesRight (s.advanceFrom k (iMaxFrameSize * k)) ∧ s.Visible := by
  refine ⟨⟨fun p hfirst hreach => absurd hreach (h.not_reaches hgranted hfirst), fun _ => ?_⟩, ?_⟩
  · cases hread : s.beginRead k (iMaxFrameSize * k) with
    | ok block => exact absurd (Input.granted_iff.mp ⟨block, hread⟩) hgranted
    | error err =>
      refine ⟨k, err, ⟨err, if s.fpFile then s.bytes.length else iMaxFrameSize * k,
        isReported k err⟩, h.granted, hread, ?_, rfl⟩
      rw [Input.advanceFrom]
      split
      · rename_i err' hread'
        cases hread'.symm.trans hread
        rfl
      · rename_i block hread'
        cases hread'.symm.trans hread
  · refine ⟨fun j hj _ => ?_, fun p hfirst hreach => absurd hreach (h.not_reaches hgranted hfirst)⟩
    rcases Nat.lt_or_ge j k with hlt | hge
    · exact h.edge j hlt
    · exact absurd (hj k hge) hgranted

end Block

/-! ## One round -/

namespace Input.Searched

variable {s : Input} {k c : Nat}

theorem granted_le (h : s.Searched k) (hgranted : s.Granted k) : ∀ j ≤ k, s.Granted j := by
  intro j hj
  rcases Nat.lt_or_eq_of_le hj with hlt | rfl
  · exact h.granted j hlt
  · exact hgranted

/-- A sync at the first byte of a block is not looked at. -/
theorem first_byte (h : s.Searched k) (hgranted : s.Granted k) (hpos : 1 ≤ iMaxFrameSize * k)
    (hsync : Sync s.bytes (iMaxFrameSize * k)) :
    ¬ s.AdvancesRight (s.advanceFrom k (iMaxFrameSize * k)) ∧ ¬ s.Visible := by
  have hlarge : iMaxFrameSize = 1441 := rfl
  have hfirst : FirstSync s.bytes (iMaxFrameSize * k) := ⟨hpos, hsync, h.none⟩
  have hreach : s.Reaches (iMaxFrameSize * k) := by
    refine h.reaches hgranted ?_
    rw [Nat.mul_succ]
    omega
  refine ⟨Input.not_right hfirst hreach fun hfound => ?_, fun hvisible => ?_⟩
  · have hbehind := Input.advanceFrom_pos hfound
    omega
  · have hinside := (hvisible.inside _ hfirst hreach).2
    rw [Nat.mul_mod_right] at hinside
    cases hinside

/-- Else the block's first byte is searched in vain, too. -/
theorem before (h : s.Searched k)
    (hhead : ¬ (1 ≤ iMaxFrameSize * k ∧ Sync s.bytes (iMaxFrameSize * k))) :
    ∀ q, 1 ≤ q → q < iMaxFrameSize * k + 1 → ¬ Sync s.bytes q := by
  intro q hq hlt hsync
  rcases Nat.lt_or_eq_of_le (Nat.le_of_lt_succ hlt) with hlt | rfl
  · exact h.none q hq hlt hsync
  · exact hhead ⟨hq, hsync⟩

theorem last_byte (h : s.Searched k) (hgranted : s.Granted k)
    (hnone : ∀ q, 1 ≤ q → q < iMaxFrameSize * k + 1440 → ¬ Sync s.bytes q)
    (hlast : s.bytes[iMaxFrameSize * k + 1440]? = some 0xFF) :
    ¬ s.AdvancesRight .none ∧ ¬ s.Visible := by
  refine ⟨fun hright => ?_, fun hvisible =>
    hvisible.edge k (h.granted_le hgranted) hnone hlast⟩
  by_cases hsome : ∃ p, FirstSync s.bytes p ∧ s.Reaches p
  · obtain ⟨p, hfirst, hreach⟩ := hsome
    cases hright.found p hfirst hreach
  · obtain ⟨_, _, a, -, -, ha, -⟩ :=
      hright.failed fun p hfirst hreach => hsome ⟨p, hfirst, hreach⟩
    cases ha

/-- Where a sync stands in a block, its first byte not counted. -/
theorem mod_place (hc : c < 1439) : (iMaxFrameSize * k + 1 + c) % iMaxFrameSize = 1 + c := by
  rw [Nat.add_assoc, Nat.mul_add_mod]
  refine Nat.mod_eq_of_lt ?_
  unfold iMaxFrameSize
  omega

theorem second_byte (hfirst : FirstSync s.bytes (iMaxFrameSize * k + 1))
    (hreach : s.Reaches (iMaxFrameSize * k + 1)) :
    ¬ s.AdvancesRight (s.advanceFrom (k + 1) (s.endRead (iMaxFrameSize * k) 1)) ∧ ¬ s.Visible := by
  refine ⟨Input.not_right hfirst hreach fun hfound => ?_, fun hvisible => ?_⟩
  · have hbehind := Input.advanceFrom_pos hfound
    have hnext : iMaxFrameSize * k + 1 ≤ s.endRead (iMaxFrameSize * k) 1 := by
      unfold Input.endRead iMaxFrameSize
      split <;> omega
    omega
  · have hmod : (iMaxFrameSize * k + 1) % iMaxFrameSize = 1 := mod_place (c := 0) (by decide)
    have hinside := (hvisible.inside _ hfirst hreach).2
    omega

theorem in_file (hfile : s.fpFile = true) (hc : c < 1439)
    (hfirst : FirstSync s.bytes (iMaxFrameSize * k + 1 + c))
    (hreach : s.Reaches (iMaxFrameSize * k + 1 + c)) :
    ¬ s.AdvancesRight (some ⟨.noErr, iMaxFrameSize * k + iMaxFrameSize, false⟩) ∧
      ¬ s.Visible := by
  have hlarge : iMaxFrameSize = 1441 := rfl
  refine ⟨Input.not_right hfirst hreach fun hfound => ?_, fun hvisible => ?_⟩
  · have hpos := congrArg Advanced.pos (Option.some.inj hfound)
    dsimp only at hpos
    omega
  · cases hfile.symm.trans (hvisible.inside _ hfirst hreach).1

theorem inside (h : s.Searched k) (hfile : s.fpFile = false) (hzero : c ≠ 0) (hc : c < 1439)
    (hfirst : FirstSync s.bytes (iMaxFrameSize * k + 1 + c))
    (hreach : s.Reaches (iMaxFrameSize * k + 1 + c)) :
    s.AdvancesRight (some ⟨.noErr, iMaxFrameSize * k + 1 + c, false⟩) ∧ s.Visible := by
  refine ⟨⟨fun p hp _ => ?_, fun hnot => absurd hreach (hnot _ hfirst)⟩,
    ⟨fun j hj hall => ?_, fun p hp _ => ?_⟩⟩
  · rw [hp.unique hfirst]
  · rcases Nat.lt_or_ge j k with hsmall | hsmall
    · exact h.edge j hsmall
    · have hle := Nat.mul_le_mul_left iMaxFrameSize hsmall
      exact absurd hfirst.sync (hall _ (by omega) (by omega))
  · rw [hp.unique hfirst, mod_place hc]
    exact ⟨hfile, by omega⟩

theorem next (h : s.Searched k) (hgranted : s.Granted k)
    (hnone : ∀ q, 1 ≤ q → q < iMaxFrameSize * k + 1440 → ¬ Sync s.bytes q)
    (hlast : s.bytes[iMaxFrameSize * k + 1440]? ≠ some 0xFF) : s.Searched (k + 1) := by
  refine ⟨fun j hj => h.granted_le hgranted j (Nat.le_of_lt_succ hj), fun q hq hlt => ?_,
    fun j hj => ?_⟩
  · rcases Nat.lt_or_ge q (iMaxFrameSize * k + 1440) with hinner | hinner
    · exact hnone q hq hinner
    · have heq : q = iMaxFrameSize * k + 1440 := by
        rw [Nat.mul_succ] at hlt
        unfold iMaxFrameSize at *
        omega
      rw [heq]
      exact fun hsync => hlast hsync.1
  · rcases Nat.lt_or_eq_of_le (Nat.le_of_lt_succ hj) with hlt | rfl
    · exact h.edge j hlt
    · exact hlast

end Input.Searched

/-- What is found from a block on is right, just when it can be seen. -/
theorem Input.Searched.right_iff {s : Input} {k : Nat} (h : s.Searched k) :
    s.AdvancesRight (s.advanceFrom k (iMaxFrameSize * k)) ↔ s.Visible := by
  by_cases hgranted : s.Granted k
  swap
  · exact iff_of_true (h.stopped hgranted).1 (h.stopped hgranted).2
  by_cases hhead : 1 ≤ iMaxFrameSize * k ∧ Sync s.bytes (iMaxFrameSize * k)
  · have hneither := h.first_byte hgranted hhead.1 hhead.2
    exact iff_of_false hneither.1 hneither.2
  have hbefore := h.before hhead
  have hlarge : iMaxFrameSize = 1441 := rfl
  have hsucc : iMaxFrameSize * (k + 1) = iMaxFrameSize * k + iMaxFrameSize := Nat.mul_succ _ _
  obtain ⟨block, hread⟩ := Input.granted_iff.mpr hgranted
  have hscan := scan_block hread
  rw [Input.advanceFrom_granted hread]
  cases hcount : scan (block.drop 1) with
  | none =>
    rw [hcount] at hscan
    have hneither := h.last_byte hgranted (fun q hq hlt => by
      rcases Nat.lt_or_ge q (iMaxFrameSize * k + 1) with hsmall | hsmall
      · exact hbefore q hq hsmall
      · exact hscan.2 q hsmall hlt) hscan.1
    exact iff_of_false hneither.1 hneither.2
  | some c =>
    rw [hcount] at hscan
    dsimp only
    -- Before what is found, or before the end of the block, there is no sync.
    have hnone : ∀ q, 1 ≤ q → q < iMaxFrameSize * k + 1 + c → q < iMaxFrameSize * k + 1440 →
        ¬ Sync s.bytes q := by
      intro q hq hlt hinner
      rcases Nat.lt_or_ge q (iMaxFrameSize * k + 1) with hsmall | hsmall
      · exact hbefore q hq hsmall
      · exact hscan.1 q hsmall hlt hinner
    rcases hscan.2 with ⟨hlt, hsync⟩ | ⟨rfl, hlast⟩
    · have hfirst : FirstSync s.bytes (iMaxFrameSize * k + 1 + c) :=
        ⟨by omega, hsync, fun q hq hq' => hnone q hq hq' (by omega)⟩
      have hreach : s.Reaches (iMaxFrameSize * k + 1 + c) := h.reaches hgranted (by omega)
      by_cases hzero : c = 0
      · subst hzero
        have hneither := second_byte hfirst hreach
        rw [if_neg fun hcond => hcond.1 rfl]
        exact iff_of_false hneither.1 hneither.2
      · rw [if_pos ⟨hzero, by omega⟩]
        unfold Input.endRead
        cases hfile : s.fpFile with
        | true =>
          have hneither := in_file hfile hlt hfirst hreach
          rw [if_pos rfl]
          exact iff_of_false hneither.1 hneither.2
        | false =>
          have hboth := h.inside hfile hzero hlt hfirst hreach
          rw [Nat.add_assoc, Nat.add_comm 1] at hboth
          rw [if_neg Bool.false_ne_true]
          exact iff_of_true hboth.1 hboth.2
    · have hnext : s.endRead (iMaxFrameSize * k) (1440 + 1) = iMaxFrameSize * (k + 1) :=
        Input.endRead_all.trans hsucc.symm
      rw [if_neg fun hcond => absurd hcond.2 (by decide), hnext]
      exact (h.next hgranted (fun q hq hlt => hnone q hq (by omega) hlt) hlast).right_iff
termination_by s.bytes.length - iMaxFrameSize * k
decreasing_by
  have hle := hgranted.2
  have _hpos : 0 < iMaxFrameSize := by decide
  have _hnext : iMaxFrameSize * (k + 1) = iMaxFrameSize * k + iMaxFrameSize := Nat.mul_succ _ _
  omega

theorem Input.searched_zero (s : Input) : s.Searched 0 where
  granted j hj := absurd hj (Nat.not_lt_zero j)
  none q _ hlt := absurd hlt (Nat.not_lt_zero q)
  edge j hj := absurd hj (Nat.not_lt_zero j)

/-- The first sync behind the first byte is found, or the error of `BeginRead` returned, and only
what has been granted is looked at, just when it can be seen. -/
theorem advance_right_iff (s : Input) :
    s.AdvancesRight s.advanceBufferToNextFrame ↔ s.Visible := s.searched_zero.right_iff

/-- A sync right behind the first byte. -/
theorem advance_right_fails :
    ¬ ∀ s : Input, s.fpFile = false → s.AdvancesRight s.advanceBufferToNextFrame := by
  intro hall
  let s : Input := ⟨[0, 0xFF, 0xE0] ++ List.replicate 1500 0, false, fun _ => none, nofun⟩
  have hlength : s.bytes.length = 1503 := by
    show ([0, 0xFF, 0xE0] ++ List.replicate 1500 (0 : UInt8)).length = 1503
    rw [List.length_append, List.length_replicate]
    rfl
  have hfirst : FirstSync s.bytes 1 := by
    refine ⟨Nat.le_refl 1, ⟨rfl, 0xE0, rfl, rfl⟩, fun q hq hlt => absurd hq (by omega)⟩
  have hreach : s.Reaches 1 := by
    intro k hk
    obtain rfl : k = 0 := Nat.le_zero.mp hk
    exact ⟨rfl, by rw [hlength]; decide⟩
  have hinside := ((s.searched_zero.right_iff.mp (hall s rfl)).inside 1 hfirst hreach).2
  exact absurd hinside (by decide)

end FreeAmp.Lmc.Xing
