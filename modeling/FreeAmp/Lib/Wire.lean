/-
  Lib/Wire.lean --- records laid out one after the other in a run of bytes.

  A reader `read buf off` reads a value of `buf` at the offset `off` and returns it
  with the offset behind it, or a fault.  `Reads read enc x` says that it reads `x`
  wherever the bytes `enc` stand, and takes exactly them; it composes through
  sequences (`Reads.bind`) and through loops (`Reads.many`).  `Spends read funds k` says
  when it succeeds at all: when what is left of a measure of the bytes, such as the
  terminators among them, is at least `k`, of which it takes `k`.  The fixed-width
  integers are little-endian.
-/
import FreeAmp.Lib.Checked
import Mathlib.Algebra.Group.Nat.Defs

namespace FreeAmp.Lib

/-! ## Fixed-width integers -/

/-- The `w` bytes of `n`, the lowest first. -/
def toLittle : Nat → Nat → List UInt8
  | 0, _ => []
  | w + 1, n => UInt8.ofNat n :: toLittle w (n / 256)

/-- The number whose bytes these are. -/
def ofLittle : List UInt8 → Nat
  | [] => 0
  | b :: bs => b.toNat + 256 * ofLittle bs

@[simp] theorem length_toLittle : ∀ w n : Nat, (toLittle w n).length = w := by
  intro w
  induction w with
  | zero => intro n; rfl
  | succ w ih => intro n; simp [toLittle, ih]

theorem ofLittle_toLittle : ∀ {w n : Nat}, n < 256 ^ w → ofLittle (toLittle w n) = n := by
  intro w
  induction w with
  | zero =>
    intro n h
    simp at h
    simp [toLittle, ofLittle, h]
  | succ w ih =>
    intro n h
    have hquot : n / 256 < 256 ^ w := by
      rw [Nat.div_lt_iff_lt_mul (by omega)]
      rwa [Nat.pow_succ] at h
    simp only [toLittle, ofLittle, ih hquot, UInt8.toNat_ofNat']
    omega

/-! ## Readers -/

/-- A reader reads at an offset and returns the offset behind what it read. -/
abbrev Reader (φ α : Type) : Type := List UInt8 → Nat → Except φ (α × Nat)

/-- `read` reads `x` wherever the bytes `enc` stand, and nothing beyond them. -/
def Reads {φ α : Type} (read : Reader φ α) (enc : List UInt8) (x : α) : Prop :=
  ∀ before after, read (before ++ enc ++ after) before.length =
    .ok (x, before.length + enc.length)

/-- `n` reads, one after the other. -/
def readMany {φ α : Type} (read : Reader φ α) : Nat → Reader φ (List α)
  | 0, _, off => .ok ([], off)
  | n + 1, buf, off => do
      let (x, off) ← read buf off
      let (xs, off) ← readMany read n buf off
      .ok (x :: xs, off)

namespace Reads

variable {φ α β : Type}

theorem bind {f : Reader φ α} {g : α → Reader φ β} {e₁ e₂ : List UInt8} {x : α} {y : β}
    (h₁ : Reads f e₁ x) (h₂ : Reads (g x) e₂ y) :
    Reads (fun buf off => do
      let (x, off) ← f buf off
      g x buf off) (e₁ ++ e₂) y := by
  intro before after
  have hfirst := h₁ before (e₂ ++ after)
  have hsecond := h₂ (before ++ e₁) after
  simp only [List.append_assoc, List.length_append] at hfirst hsecond ⊢
  simp only [hfirst, ok_bind, hsecond, Nat.add_assoc]

theorem map {read : Reader φ α} {e : List UInt8} {x : α} (h : Reads read e x) (f : α → β) :
    Reads (fun buf off => do
      let (x, off) ← read buf off
      .ok (f x, off)) e (f x) := by
  intro before after
  simp only [h before after, ok_bind]

/-- As many reads as there are records read all of them. -/
theorem many {read : Reader φ α} {enc : α → List UInt8} : ∀ {xs : List α},
    (∀ x ∈ xs, Reads read (enc x) x) →
      Reads (readMany read xs.length) (xs.flatMap enc) xs := by
  intro xs
  induction xs with
  | nil =>
    intro _ before after
    simp [readMany]
  | cons x xs ih =>
    intro h
    have hx := h x List.mem_cons_self
    have hxs := ih fun y hy => h y (List.mem_cons_of_mem _ hy)
    exact hx.bind (g := fun x buf off => do
      let (xs, off) ← readMany read xs.length buf off
      .ok (x :: xs, off)) (hxs.map (x :: ·))

end Reads

/-! ## When a reader succeeds -/

/-- `read` takes `k` of the funds, and faults when there are fewer. -/
def Spends {φ α : Type} (read : Reader φ α) (funds : List UInt8 → Nat → Nat) (k : Nat) : Prop :=
  ∀ buf off,
    (k ≤ funds buf off → ∃ x off', read buf off = .ok (x, off') ∧
      funds buf off' + k = funds buf off) ∧
    (funds buf off < k → ∃ e, read buf off = .error e)

namespace Spends

variable {φ α β : Type} {funds : List UInt8 → Nat → Nat} {k l : Nat}

theorem bind {f : Reader φ α} {g : α → Reader φ β} (hf : Spends f funds k)
    (hg : ∀ x, Spends (g x) funds l) :
    Spends (fun buf off => do
      let (x, off) ← f buf off
      g x buf off) funds (k + l) := by
  intro buf off
  by_cases hfirst : k ≤ funds buf off
  · obtain ⟨x, off', hx, hleft⟩ := (hf buf off).1 hfirst
    simp only [hx, ok_bind]
    constructor
    · intro hboth
      obtain ⟨y, off'', hy, hleft'⟩ := (hg x buf off').1 (by omega)
      exact ⟨y, off'', hy, by omega⟩
    · intro hshort
      exact (hg x buf off').2 (by omega)
  · obtain ⟨e, he⟩ := (hf buf off).2 (by omega)
    constructor
    · intro hboth
      omega
    · intro _
      refine ⟨e, ?_⟩
      simp only [he]
      rfl

theorem map {read : Reader φ α} (h : Spends read funds k) (f : α → β) :
    Spends (fun buf off => do
      let (x, off) ← read buf off
      .ok (f x, off)) funds k := by
  intro buf off
  constructor
  · intro hfunds
    obtain ⟨x, off', hx, hleft⟩ := (h buf off).1 hfunds
    exact ⟨f x, off', by simp only [hx, ok_bind], hleft⟩
  · intro hshort
    obtain ⟨e, he⟩ := (h buf off).2 hshort
    refine ⟨e, ?_⟩
    simp only [he]
    rfl

theorem many {read : Reader φ α} (h : Spends read funds k) :
    ∀ n : Nat, Spends (readMany read n) funds (n * k) := by
  intro n
  induction n with
  | zero =>
    intro buf off
    rw [Nat.zero_mul]
    exact ⟨fun _ => ⟨[], off, rfl, rfl⟩, fun hshort => absurd hshort (Nat.not_lt_zero _)⟩
  | succ n ih =>
    rw [Nat.succ_mul, Nat.add_comm (n * k) k]
    exact h.bind (g := fun x buf off => do
      let (xs, off) ← readMany read n buf off
      .ok (x :: xs, off)) fun x => ih.map (x :: ·)

theorem ok_iff {read : Reader φ α} (h : Spends read funds k) (buf : List UInt8) (off : Nat) :
    (∃ r, read buf off = .ok r) ↔ k ≤ funds buf off := by
  constructor
  · rintro ⟨r, hr⟩
    by_contra hshort
    obtain ⟨e, he⟩ := (h buf off).2 (by omega)
    rw [he] at hr
    exact absurd hr nofun
  · intro hfunds
    obtain ⟨x, off', hx, -⟩ := (h buf off).1 hfunds
    exact ⟨(x, off'), hx⟩

end Spends

end FreeAmp.Lib
