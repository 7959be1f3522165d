/-
  Base/Queue.lean --- the queue of `base/include/queue.h`.

  Each function holds the lock of the queue from its beginning to its end, so that it is
  one step.  Nothing is said of the address that `new` returns but that nothing is there.
-/
import FreeAmp.Lib.Checked
import FreeAmp.Lib.Links

namespace FreeAmp.Base

open FreeAmp.Lib

/-- `class Queue`, of members that are not null. -/
structure Queue (α : Type) where
  head : Option Nat
  tail : Option Nat
  /-- the `QueueMember`s that there are: `m_myMember` and `m_behindMe` -/
  members : Links α

/-- What can go wrong. -/
inductive QueueFault where
  /-- a pointer is followed and there is nothing -/
  | dangling
  deriving DecidableEq, Repr

namespace Queue

variable {α : Type}

def init : Queue α := ⟨none, none, fun _ => none⟩

/-- A pointer is followed. -/
def member (q : Queue α) (p : Nat) : Except QueueFault (Link α) :=
  match q.members p with
  | some m => .ok m
  | none => .error .dangling

def read (q : Queue α) : Except QueueFault (Option α × Queue α) :=
  match q.head with
  | some tmp => do
      let m ← q.member tmp
      let members := Function.update q.members tmp none
      .ok (some m.value, ⟨m.next, if m.next = none then none else q.tail, members⟩)
  | none => .ok (none, { q with tail := none })

def peek (q : Queue α) : Except QueueFault (Option α) :=
  match q.head with
  | some p => do
      let m ← q.member p
      .ok (some m.value)
  | none => .ok none

/-- `Write`, when `new` returns `pQM`. -/
def write (q : Queue α) (pQM : Nat) (c : α) : Except QueueFault (Queue α) := do
  let q := { q with members := Function.update q.members pQM (some ⟨c, none⟩) }
  let q ← match q.tail with
    | some tail => do
        let m ← q.member tail
        .ok { q with members := Function.update q.members tail (some { m with next := some pQM }) }
    | none => .ok q
  .ok { q with tail := some pQM, head := if q.head = none then some pQM else q.head }

/-! ## What is in the queue -/

/-- The members of the queue, by address. -/
structure Linked (q : Queue α) (cells : List (Nat × α)) : Prop where
  segment : Segment q.members q.head cells none
  tail : q.tail = (cells.map Prod.fst).getLast?
  nodup : (cells.map Prod.fst).Nodup

/-- What is in the queue, first to last. -/
def Holds (q : Queue α) (xs : List α) : Prop :=
  ∃ cells, Linked q cells ∧ cells.map Prod.snd = xs

theorem holds_init : Holds (init : Queue α) [] :=
  ⟨[], ⟨rfl, rfl, List.nodup_nil⟩, rfl⟩

theorem peek_holds {q : Queue α} {xs : List α} (h : Holds q xs) : q.peek = .ok xs.head? := by
  obtain ⟨cells, hq, rfl⟩ := h
  have hsegment := hq.segment
  unfold peek
  cases cells with
  | nil =>
    have hhead : q.head = none := hsegment
    rw [hhead]
    rfl
  | cons cell cells =>
    obtain ⟨hhead, next, hcell, _⟩ := hsegment
    rw [hhead]
    unfold member
    dsimp only
    rw [hcell]
    rfl

theorem read_holds {q : Queue α} {xs : List α} (h : Holds q xs) :
    ∃ q', q.read = .ok (xs.head?, q') ∧ Holds q' xs.tail := by
  obtain ⟨cells, hq, rfl⟩ := h
  have hsegment := hq.segment
  unfold read
  cases cells with
  | nil =>
    have hhead : q.head = none := hsegment
    rw [hhead]
    exact ⟨⟨none, none, q.members⟩, rfl, [], ⟨rfl, rfl, List.nodup_nil⟩, rfl⟩
  | cons cell cells =>
    obtain ⟨hhead, next, hcell, hrest⟩ := hsegment
    obtain ⟨hfresh, hnodup⟩ := List.nodup_cons.mp hq.nodup
    rw [hhead]
    unfold member
    dsimp only
    rw [hcell]
    refine ⟨_, rfl, cells, ⟨?_, ?_, hnodup⟩, rfl⟩
    · refine hrest.congr ?_
      intro a ha
      have hne : a ≠ cell.1 := fun heq => hfresh (heq ▸ ha)
      exact Function.update_of_ne hne _ _
    · dsimp only
      cases cells with
      | nil =>
        have hnext : next = none := hrest
        rw [if_pos hnext]
        rfl
      | cons cell' cells =>
        obtain ⟨hnext, _⟩ := hrest
        rw [hnext, if_neg nofun, hq.tail]
        rfl

theorem write_holds {q : Queue α} {xs : List α} (h : Holds q xs) {pQM : Nat}
    (hfree : q.members pQM = none) (c : α) :
    ∃ q', q.write pQM c = .ok q' ∧ Holds q' (xs ++ [c]) := by
  obtain ⟨cells, hq, rfl⟩ := h
  have hsegment := hq.segment
  have hnew : pQM ∉ cells.map Prod.fst := by
    intro hmem
    have hsome := hsegment.mem_isSome hmem
    rw [hfree] at hsome
    exact absurd hsome nofun
  have hnodup : ((cells ++ [(pQM, c)]).map Prod.fst).Nodup := by
    rw [List.map_append, List.map_singleton]
    refine List.nodup_append.mpr ⟨hq.nodup, List.pairwise_singleton _ pQM, ?_⟩
    intro a ha b hb hab
    have hap : a = pQM := hab.trans (List.mem_singleton.mp hb)
    exact hnew (hap ▸ ha)
  have htail : some pQM = ((cells ++ [(pQM, c)]).map Prod.fst).getLast? := by
    rw [List.map_append, List.map_singleton, List.getLast?_concat]
  have hvalues : (cells ++ [(pQM, c)]).map Prod.snd = cells.map Prod.snd ++ [c] := by
    rw [List.map_append]
    rfl
  unfold write
  dsimp only
  rcases List.eq_nil_or_concat' cells with rfl | ⟨front, ⟨last, x⟩, rfl⟩
  · have hhead : q.head = none := hsegment
    have hnone : q.tail = none := hq.tail
    rw [hnone, hhead]
    exact ⟨_, rfl, [(pQM, c)], ⟨⟨rfl, none, Function.update_self pQM _ _, rfl⟩, htail, hnodup⟩, rfl⟩
  · obtain ⟨hfront, hlast⟩ := segment_concat.mp hsegment
    have hsome : q.tail = some last := by
      rw [hq.tail, List.map_append, List.map_singleton, List.getLast?_concat]
    have hne : last ≠ pQM := by
      intro heq
      rw [heq, hfree] at hlast
      exact absurd hlast nofun
    have hhead : q.head ≠ none := by
      intro hhead
      rw [hhead] at hfront
      cases front with
      | nil => exact absurd hfront nofun
      | cons cell front => exact absurd hfront.1 nofun
    rw [hsome]
    unfold member
    dsimp only
    rw [Function.update_of_ne hne, hlast]
    refine ⟨_, rfl, front ++ [(last, x)] ++ [(pQM, c)], ⟨?_, htail, hnodup⟩, hvalues⟩
    dsimp only
    rw [if_neg hhead]
    rw [segment_concat, segment_concat]
    refine ⟨⟨hfront.congr ?_, Function.update_self last _ _⟩, ?_⟩
    · intro a ha
      have hlastne : a ≠ last := by
        intro heq
        have hdisjoint := hq.nodup
        rw [List.map_append, List.nodup_append] at hdisjoint
        exact hdisjoint.2.2 a ha last (List.mem_singleton_self last) heq
      have hnewne : a ≠ pQM := by
        intro heq
        exact hnew (heq ▸ List.map_append ▸ List.mem_append_left _ ha)
      rw [Function.update_of_ne hlastne, Function.update_of_ne hnewne]
    · rw [Function.update_of_ne hne.symm]
      exact Function.update_self pQM _ _

end Queue

end FreeAmp.Base
