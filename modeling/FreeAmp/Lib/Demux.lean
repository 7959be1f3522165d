/-
  Lib/Demux.lean --- streams that carry a block after every so many symbols.

  WHAT THIS FILE IS FOR.  A stream is data, and after every `period` symbols of data
  comes a symbol that says how long the block is that follows it.  `demux` takes the
  stream apart symbol by symbol; the rules take it apart by what a receiver gets at a
  time:

      feed_append    a stream that comes in two pieces
      feed_data      data, and no more than is left before the next block
      feed_empty     the length of a block without symbols
      feed_length    the length of another block
      feed_block     a whole block
-/
import Mathlib.Data.List.Basic

namespace FreeAmp.Lib

/-- What the next symbol belongs to. -/
inductive Slot (α : Type) where
  /-- data, of which so many symbols are left; none: it is a length -/
  | data (left : Nat)
  /-- a block: one more symbol than `left` is to come, and what has come -/
  | block (left : Nat) (sofar : List α)
  deriving DecidableEq

/-- What a stream has been taken apart into. -/
structure Demux (α : Type) where
  slot : Slot α
  data : List α
  blocks : List (List α)

section Feeding

variable {α : Type} (period : Nat) (size : α → Nat)

/-- One symbol more. -/
def Demux.step (d : Demux α) (a : α) : Demux α :=
  match d.slot with
  | .data (left + 1) => { d with slot := .data left, data := d.data ++ [a] }
  | .data 0 =>
    match size a with
    | 0 => { d with slot := .data period, blocks := d.blocks ++ [[]] }
    | left + 1 => { d with slot := .block left [] }
  | .block (left + 1) sofar => { d with slot := .block left (sofar ++ [a]) }
  | .block 0 sofar => { d with slot := .data period, blocks := d.blocks ++ [sofar ++ [a]] }

/-- More of the stream. -/
def Demux.feed (d : Demux α) (s : List α) : Demux α := s.foldl (Demux.step period size) d

/-- A stream from its beginning. -/
def demux (s : List α) : Demux α := Demux.feed period size ⟨.data period, [], []⟩ s

theorem Demux.feed_append (d : Demux α) (s t : List α) :
    d.feed period size (s ++ t) = (d.feed period size s).feed period size t :=
  List.foldl_append

theorem demux_append (s t : List α) :
    demux period size (s ++ t) = (demux period size s).feed period size t :=
  Demux.feed_append period size _ s t

/-- Data, and no more than is left before the next block. -/
theorem Demux.feed_data : ∀ {s : List α} {left : Nat} (d : Demux α), d.slot = .data left →
    s.length ≤ left →
    d.feed period size s = { d with slot := .data (left - s.length), data := d.data ++ s } := by
  intro s
  induction s with
  | nil =>
    intro left d hslot _
    obtain ⟨slot, data, blocks⟩ := d
    obtain rfl : slot = .data left := hslot
    simp [feed]
  | cons a s ih =>
    intro left d hslot hle
    rw [List.length_cons] at hle
    obtain ⟨left, rfl⟩ : ∃ k, left = k + 1 := ⟨left - 1, by omega⟩
    have hstep : d.step period size a = { d with slot := .data left, data := d.data ++ [a] } := by
      rw [step, hslot]
    have hrest := ih (d.step period size a) (by rw [hstep]) (Nat.le_of_succ_le_succ hle)
    rw [feed, List.foldl_cons]
    rw [feed, hstep] at hrest
    rw [hstep, hrest]
    simp only [List.append_assoc, List.singleton_append, List.length_cons,
      Nat.add_sub_add_right]

theorem Demux.feed_empty {a : α} (hsize : size a = 0) (d : Demux α) (hslot : d.slot = .data 0) :
    d.feed period size [a] = { d with slot := .data period, blocks := d.blocks ++ [[]] } := by
  rw [feed, List.foldl_cons, List.foldl_nil, step, hslot]
  simp only [hsize]

theorem Demux.feed_length {a : α} {left : Nat} (hsize : size a = left + 1) (d : Demux α)
    (hslot : d.slot = .data 0) :
    d.feed period size [a] = { d with slot := .block left [] } := by
  rw [feed, List.foldl_cons, List.foldl_nil, step, hslot]
  simp only [hsize]

theorem Demux.feed_block : ∀ {s : List α} {left : Nat} {sofar : List α} (d : Demux α),
    d.slot = .block left sofar → s.length = left + 1 →
    d.feed period size s =
      { d with slot := .data period, blocks := d.blocks ++ [sofar ++ s] } := by
  intro s
  induction s with
  | nil => exact fun d _ h => absurd h nofun
  | cons a s ih =>
    intro left sofar d hslot hlength
    rw [List.length_cons, Nat.add_right_cancel_iff] at hlength
    rw [feed, List.foldl_cons]
    cases left with
    | zero =>
      obtain rfl := List.length_eq_zero_iff.mp hlength
      rw [List.foldl_nil, step, hslot]
    | succ left =>
      have hstep : d.step period size a = { d with slot := .block left (sofar ++ [a]) } := by
        rw [step, hslot]
      have hrest := ih (d.step period size a) (by rw [hstep]) hlength
      rw [feed, hstep] at hrest
      rw [hstep, hrest]
      simp only [List.append_assoc, List.singleton_append]

end Feeding

/-- Three symbols of data, a block of two, three more, an empty block, and one. -/
example : (demux 3 id [7, 8, 9, 2, 5, 6, 1, 2, 3, 0, 4]).data = [7, 8, 9, 1, 2, 3, 4] ∧
    (demux 3 id [7, 8, 9, 2, 5, 6, 1, 2, 3, 0, 4]).blocks = [[5, 6], []] := by decide

end FreeAmp.Lib
