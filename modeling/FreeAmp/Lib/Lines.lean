/-
  Lib/Lines.lean --- a text that is read a line at a time into a buffer.

  A reader with a buffer of `full` symbols takes what stands before it up to the next
  symbol that ends a line, that symbol included, or until the buffer is full.  `pieces`
  is the list of what it takes; its rules say when the pieces are the lines:

      pieces_append   a text that ends a line, and another behind it
      pieces_line     a line that fits
-/
import Mathlib.Data.List.Basic

namespace FreeAmp.Lib

section Pieces

variable {α : Type} (stop : α → Bool) (full : Nat)

/-- Another symbol in front of the first piece. -/
def consHead (a : α) : List (List α) → List (List α)
  | [] => [[a]]
  | l :: ls => (a :: l) :: ls

/-- The pieces of a text; the buffer has room for so many symbols. -/
def pieces : Nat → List α → List (List α)
  | _, [] => []
  | room, a :: s =>
    if stop a = true ∨ room ≤ 1 then [a] :: pieces full s else consHead a (pieces (room - 1) s)

theorem consHead_append (a : α) {ls : List (List α)} (hne : ls ≠ []) (ls' : List (List α)) :
    consHead a (ls ++ ls') = consHead a ls ++ ls' := by
  cases ls with
  | nil => exact absurd rfl hne
  | cons l ls => rfl

theorem pieces_ne_nil : ∀ {s : List α} (room : Nat), s ≠ [] → pieces stop full room s ≠ [] := by
  intro s room hne
  cases s with
  | nil => exact absurd rfl hne
  | cons a s =>
    rw [pieces]
    split
    · exact List.cons_ne_nil _ _
    · cases pieces stop full (room - 1) s <;> exact List.cons_ne_nil _ _

/-- What stands behind the end of a line is taken by itself. -/
theorem pieces_append : ∀ {s : List α} (room : Nat) (last : α), s.getLast? = some last →
    stop last = true → ∀ t, pieces stop full room (s ++ t) =
      pieces stop full room s ++ pieces stop full full t := by
  intro s
  induction s with
  | nil => exact fun _ _ h => absurd h nofun
  | cons a s ih =>
    intro room last hlast hstop t
    cases s with
    | nil =>
      obtain rfl : a = last := Option.some.inj hlast
      simp [pieces, hstop]
    | cons b s =>
      have hlast' : (b :: s).getLast? = some last := by
        rw [List.getLast?_cons_cons] at hlast
        exact hlast
      rw [List.cons_append, pieces, pieces]
      split
      · rw [ih full last hlast' hstop t, List.cons_append]
      · rw [ih (room - 1) last hlast' hstop t]
        exact consHead_append a (pieces_ne_nil stop full _ (List.cons_ne_nil b s)) _

theorem pieces_line {last : α} (hlast : stop last = true) : ∀ {body : List α} {room : Nat},
    (∀ a ∈ body, stop a = false) → body.length < room →
      pieces stop full room (body ++ [last]) = [body ++ [last]] := by
  intro body
  induction body with
  | nil =>
    intro room _ _
    simp [pieces, hlast]
  | cons a body ih =>
    intro room hbody hlt
    rw [List.length_cons] at hlt
    have hnot : ¬ (stop a = true ∨ room ≤ 1) := by
      rw [hbody a List.mem_cons_self]
      rintro (h | h)
      · exact absurd h nofun
      · omega
    rw [List.cons_append, pieces, if_neg hnot,
      ih (fun b hb => hbody b (List.mem_cons_of_mem _ hb)) (by omega)]
    rfl

theorem pieces_line_append {last : α} (hlast : stop last = true) {body : List α} {room : Nat}
    (hbody : ∀ a ∈ body, stop a = false) (hlt : body.length < room) (t : List α) :
    pieces stop full room (body ++ [last] ++ t) = (body ++ [last]) :: pieces stop full full t := by
  rw [pieces_append stop full room last List.getLast?_concat hlast,
    pieces_line stop full hlast hbody hlt, List.singleton_append]

/-- A line as long as the buffer; its end is left for the next piece. -/
theorem pieces_full : ∀ {body : List α} {room : Nat}, (∀ a ∈ body, stop a = false) →
    body.length = room → body ≠ [] → ∀ t, pieces stop full room (body ++ t) =
      body :: pieces stop full full t := by
  intro body
  induction body with
  | nil => exact fun _ _ hne => absurd rfl hne
  | cons a body ih =>
    intro room hbody hlen _ t
    rw [List.length_cons] at hlen
    rw [List.cons_append, pieces]
    cases body with
    | nil => rw [if_pos (.inr (Nat.le_of_eq hlen.symm)), List.nil_append]
    | cons b body =>
      have hnot : ¬ (stop a = true ∨ room ≤ 1) := by
        rw [hbody a List.mem_cons_self]
        rintro (h | h)
        · exact absurd h nofun
        · rw [List.length_cons] at hlen
          omega
      rw [if_neg hnot, ih (fun c hc => hbody c (List.mem_cons_of_mem _ hc)) (by omega)
        (List.cons_ne_nil b body) t]
      rfl

theorem flatten_consHead (a : α) (ls : List (List α)) :
    (consHead a ls).flatten = a :: ls.flatten := by
  cases ls <;> rfl

theorem flatten_pieces : ∀ (s : List α) (room : Nat), (pieces stop full room s).flatten = s := by
  intro s
  induction s with
  | nil => exact fun _ => rfl
  | cons a s ih =>
    intro room
    rw [pieces]
    split
    · rw [List.flatten_cons, ih, List.singleton_append]
    · rw [flatten_consHead, ih]

/-- Nothing but the last symbol of a piece ends a line. -/
theorem pieces_stop : ∀ {s : List α} {room : Nat}, ∀ l ∈ pieces stop full room s,
    ∀ a ∈ l.dropLast, stop a = false := by
  intro s
  induction s with
  | nil => exact fun l hl => absurd hl List.not_mem_nil
  | cons b s ih =>
    intro room l hl a ha
    rw [pieces] at hl
    split at hl
    · rcases List.mem_cons.mp hl with rfl | hl
      · exact absurd ha List.not_mem_nil
      · exact ih l hl a ha
    · rename_i hnot
      rw [not_or, Bool.not_eq_true] at hnot
      cases hls : pieces stop full (room - 1) s with
      | nil =>
        rw [hls, consHead] at hl
        rw [List.mem_singleton.mp hl] at ha
        exact absurd ha List.not_mem_nil
      | cons l' ls =>
        rw [hls, consHead] at hl
        rcases List.mem_cons.mp hl with rfl | hl
        · cases l' with
          | nil => exact absurd ha List.not_mem_nil
          | cons c l' =>
            rcases List.mem_cons.mp ha with rfl | ha
            · exact hnot.1
            · exact ih (c :: l') (by rw [hls]; exact List.mem_cons_self) a ha
        · exact ih l (by rw [hls]; exact List.mem_cons_of_mem _ hl) a ha

end Pieces

end FreeAmp.Lib
