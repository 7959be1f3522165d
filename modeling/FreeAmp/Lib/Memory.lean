/-
  Lib/Memory.lean --- a flat memory, its slices and block copies.

  A memory is a function from addresses to cells.  `slice` reads a run of cells
  as a list, `copy` is `memcpy`/`memmove` (the source is read before anything is
  written, so overlap is harmless), `poke` writes one cell and `store` a list of them.  The lemmas say
  what each of them does cell by cell, and which cells it leaves alone.
-/
import Mathlib.Data.List.Basic
import Mathlib.Data.List.GetD
import Mathlib.Logic.Function.Basic

namespace FreeAmp.Lib

/-- Cells by address. -/
abbrev Memory (β : Type) : Type := Nat → β

namespace Memory

variable {β : Type}

/-! ## Slices -/

/-- The `n` cells from `base` on, in address order. -/
def slice (mem : Memory β) (base n : Nat) : List β :=
  (List.range n).map fun i => mem (base + i)

@[simp] theorem length_slice (mem : Memory β) (base n : Nat) :
    (mem.slice base n).length = n := by
  simp [slice]

@[simp] theorem slice_zero (mem : Memory β) (base : Nat) : mem.slice base 0 = [] := rfl

theorem getElem?_slice {mem : Memory β} {base n i : Nat} (h : i < n) :
    (mem.slice base n)[i]? = some (mem (base + i)) := by
  simp [slice, h]

theorem slice_congr {mem mem' : Memory β} {base base' n : Nat}
    (h : ∀ i, i < n → mem (base + i) = mem' (base' + i)) :
    mem.slice base n = mem'.slice base' n := by
  refine List.map_congr_left ?_
  intro i hi
  exact h i (List.mem_range.mp hi)

theorem take_slice (mem : Memory β) (base : Nat) {m n : Nat} (h : m ≤ n) :
    (mem.slice base n).take m = mem.slice base m := by
  simp [slice, ← List.map_take, List.take_range, Nat.min_eq_left h]

/-! ## Writing one cell -/

/-- Overwrite the cell at `addr`. -/
def poke (mem : Memory β) (addr : Nat) (b : β) : Memory β := Function.update mem addr b

@[simp] theorem poke_same (mem : Memory β) (addr : Nat) (b : β) : mem.poke addr b addr = b := by
  simp [poke]

theorem poke_other {mem : Memory β} {addr a : Nat} {b : β} (h : a ≠ addr) :
    mem.poke addr b a = mem a := by
  simp [poke, Function.update_of_ne h]

/-- A write inside a slice writes that element of the list. -/
theorem slice_poke (mem : Memory β) (base n i : Nat) (b : β) :
    (mem.poke (base + i) b).slice base n = (mem.slice base n).set i b := by
  refine List.ext_getElem? ?_
  intro j
  by_cases hj : j < n
  · rw [getElem?_slice hj, List.getElem?_set]
    by_cases hij : i = j
    · subst hij; simp [hj]
    · have hne : base + j ≠ base + i := by omega
      rw [poke_other hne, if_neg hij, getElem?_slice hj]
  · rw [List.getElem?_eq_none (by simp; omega), List.getElem?_eq_none (by simp; omega)]

/-! ## Writing a run of cells -/

/-- Write a list of cells from `addr` on. -/
def store (mem : Memory β) (addr : Nat) (bs : List β) : Memory β :=
  fun a => if addr ≤ a then bs.getD (a - addr) (mem a) else mem a

@[simp] theorem store_nil (mem : Memory β) (addr : Nat) : mem.store addr [] = mem := by
  funext a
  simp [store]

theorem store_outside {mem : Memory β} {addr a : Nat} {bs : List β}
    (h : a < addr ∨ addr + bs.length ≤ a) : mem.store addr bs a = mem a := by
  unfold store
  split
  · exact List.getD_eq_default _ _ (by omega)
  · rfl

theorem store_inside {mem : Memory β} {addr i : Nat} {bs : List β} (h : i < bs.length) :
    mem.store addr bs (addr + i) = bs[i] := by
  simp [store, h]

theorem store_store (mem : Memory β) (addr : Nat) (bs cs : List β) :
    (mem.store addr bs).store (addr + bs.length) cs = mem.store addr (bs ++ cs) := by
  funext a
  by_cases hlow : a < addr
  · rw [store_outside (Or.inl (by omega)), store_outside (Or.inl hlow),
      store_outside (Or.inl hlow)]
  obtain ⟨i, rfl⟩ := Nat.exists_eq_add_of_le (Nat.le_of_not_lt hlow)
  by_cases hin : i < bs.length
  · have hall : i < (bs ++ cs).length := by rw [List.length_append]; omega
    rw [store_outside (Or.inl (by omega)), store_inside hin, store_inside hall,
      List.getElem_append_left hin]
  · have hcell : addr + i - (addr + bs.length) = i - bs.length := by omega
    simp only [store]
    rw [if_pos (by omega), if_pos (by omega), if_pos (by omega), hcell, Nat.add_sub_cancel_left,
      List.getD_append_right _ _ _ _ (by omega), List.getD_eq_default bs _ (by omega)]

theorem slice_store_append {mem : Memory β} {base : Nat} {bs : List β} (cs : List β)
    (h : mem.slice base bs.length = bs) :
    (mem.store (base + bs.length) cs).slice base (bs ++ cs).length = bs ++ cs := by
  have hold : (mem.store (base + bs.length) cs).slice base bs.length = bs :=
    (slice_congr fun i hi => store_outside (Or.inl (by omega))).trans h
  have hnew : (List.range cs.length).map
      (fun i => mem.store (base + bs.length) cs (base + (bs.length + i))) = cs := by
    refine List.ext_getElem (by simp) fun i _ hi => ?_
    rw [List.getElem_map, List.getElem_range, ← Nat.add_assoc]
    exact store_inside hi
  unfold slice at hold ⊢
  rw [List.length_append, List.range_add, List.map_append, hold, List.map_map]
  exact congrArg (bs ++ ·) hnew

theorem slice_store (mem : Memory β) (base : Nat) (bs : List β) :
    (mem.store base bs).slice base bs.length = bs :=
  @slice_store_append β mem base [] bs rfl

/-! ## Block copies -/

/-- Copy the `n` cells from `src` on to the `n` cells from `dst` on. -/
def copy (mem : Memory β) (dst src n : Nat) : Memory β :=
  fun a => if dst ≤ a ∧ a < dst + n then mem (src + (a - dst)) else mem a

theorem copy_inside {mem : Memory β} {dst src n i : Nat} (h : i < n) :
    mem.copy dst src n (dst + i) = mem (src + i) := by
  have hin : dst ≤ dst + i ∧ dst + i < dst + n := by omega
  rw [copy, if_pos hin, Nat.add_sub_cancel_left]

theorem copy_outside {mem : Memory β} {dst src n a : Nat} (h : a < dst ∨ dst + n ≤ a) :
    mem.copy dst src n a = mem a := by
  rw [copy, if_neg (by omega)]

end Memory

end FreeAmp.Lib
