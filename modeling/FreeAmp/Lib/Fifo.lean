/-
  Lib/Fifo.lean --- the bounded first-in first-out channel.

  The abstract channel remembers everything ever put into it and everything
  ever taken out.  Putting is allowed while at most `cap` items are inside;
  taking hands out the oldest items not yet taken.  That is all a ring buffer
  between one producer and one consumer is for, and `Fifo.taken_prefix` is what
  its users rely on: nothing is lost, repeated, reordered or made up.
-/
import FreeAmp.Lib.Transition

namespace FreeAmp.Lib

/-- A channel: all that was put in, and all that was taken out. -/
structure Fifo (β : Type) where
  put : List β
  taken : List β

namespace Fifo

variable {β : Type}

/-- What the users of a channel do to it. -/
inductive Op (β : Type) where
  | put (items : List β)
  | take (items : List β)

/-- The empty channel. -/
def empty : Fifo β := ⟨[], []⟩

/-- The items inside the channel, oldest first. -/
def inside (q : Fifo β) : List β := q.put.drop q.taken.length

/-- A channel of capacity `cap`. -/
inductive Step (cap : Nat) : Fifo β → Op β → Fifo β → Prop
  | put (q : Fifo β) (items : List β) (room : q.inside.length + items.length ≤ cap) :
      Step cap q (.put items) { q with put := q.put ++ items }
  | take (q : Fifo β) (items : List β) (oldest : items <+: q.inside) :
      Step cap q (.take items) { q with taken := q.taken ++ items }

/-- One operation keeps the taken items a prefix of those put in. -/
theorem step_prefix {cap : Nat} (q : Fifo β) (op : Op β) (q' : Fifo β)
    (hq : q.taken <+: q.put) (h : Step cap q op q') : q'.taken <+: q'.put := by
  cases h with
  | put items room => exact hq.trans (List.prefix_append _ _)
  | take items oldest =>
    obtain ⟨rest, hrest⟩ := hq
    obtain ⟨later, hlater⟩ := oldest
    have hinside : q.inside = rest := by rw [inside, ← hrest, List.drop_left]
    refine ⟨later, ?_⟩
    rw [List.append_assoc, hlater, hinside, hrest]

theorem taken_prefix {cap : Nat} {ops : List (Op β)} {q : Fifo β}
    (h : Run (Step cap) empty ops q) : q.taken <+: q.put :=
  h.invariant step_prefix List.prefix_rfl

end Fifo

end FreeAmp.Lib
