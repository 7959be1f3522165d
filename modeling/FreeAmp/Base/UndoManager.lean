/-
  Base/UndoManager.lean --- undoing and redoing, from `base/src/undomanager.cpp` and
  `base/include/undomanager.h`.

  The manager keeps its items in one vector, and the index of the last one that is done;
  `kRootIndex` is the index before the first.  An item is given with the objects it
  consists of: an `UndoMultiItem` owns its items.  While an item is being undone or redone
  it may call `AddItem`, which then does nothing.
-/
import FreeAmp.Base.Playlist
import FreeAmp.Lib.TwoStacks

namespace FreeAmp.Base

open FreeAmp.Lib

def kRootIndex : Nat := 0xFFFFFFFF

/-! ## Items -/

/-- `UndoItem`: an object that undoes something, or an `UndoMultiItem` and its items. -/
inductive UndoItem where
  | single (self : Nat)
  | multi (self : Nat) (items : List UndoItem)

namespace UndoItem

def addItem : UndoItem → UndoItem → UndoItem
  | .single self, _ => .single self
  | .multi self items, item => .multi self (items ++ [item])

mutual

/-- `Undo`: the objects that undo something, in order. -/
def undo : UndoItem → List Nat
  | .single self => [self]
  | .multi _ items => undoAll items

/-- The loop from `rbegin()` to `rend()`. -/
def undoAll : List UndoItem → List Nat
  | [] => []
  | item :: items => undoAll items ++ item.undo

end

mutual

/-- `Redo`: the objects that redo something, in order. -/
def redo : UndoItem → List Nat
  | .single self => [self]
  | .multi _ items => redoAll items

/-- The loop from `begin()` to `end()`. -/
def redoAll : List UndoItem → List Nat
  | [] => []
  | item :: items => item.redo ++ redoAll items

end

mutual

/-- `delete item`: the objects that are freed, in order. -/
def delete : UndoItem → List Nat
  | .single self => [self]
  | .multi self items => deleteAll items ++ [self]

/-- The loop of `~UndoMultiItem`. -/
def deleteAll : List UndoItem → List Nat
  | [] => []
  | item :: items => item.delete ++ deleteAll items

end

mutual

theorem undo_eq_reverse : ∀ item : UndoItem, item.undo = item.redo.reverse
  | .single self => by
      rw [undo, redo]
      rfl
  | .multi self items => by
      rw [undo, redo]
      exact undoAll_eq_reverse items

theorem undoAll_eq_reverse : ∀ items : List UndoItem, undoAll items = (redoAll items).reverse
  | [] => by
      rw [undoAll, redoAll]
      rfl
  | item :: items => by
      rw [undoAll, redoAll, List.reverse_append, undo_eq_reverse item, undoAll_eq_reverse items]

end

end UndoItem

/-! ## The manager -/

/-- What happens to the items of a manager. -/
inductive UndoEvent where
  | undo (item : UndoItem)
  | redo (item : UndoItem)
  | delete (item : UndoItem)

/-- `class UndoManager`, and what has happened to its items. -/
structure UndoManager where
  items : List UndoItem
  current : Nat
  doing : Bool
  log : List UndoEvent

namespace UndoManager

/-- The constructor. -/
def init : UndoManager where
  items := []
  current := kRootIndex
  doing := false
  log := []

def canUndo (m : UndoManager) : Bool :=
  let size := toUint32 m.items.length
  decide (size ≠ 0 ∧ m.current ≠ kRootIndex)

def canRedo (m : UndoManager) : Bool :=
  let size := toUint32 m.items.length
  decide (size ≠ 0 ∧ m.current ≠ predUint32 size)

/-- The items from `m_items.begin() + (m_current + 1)` on are deleted and erased. -/
def eraseUndone (m : UndoManager) : Checked UndoManager :=
  let next := toUint32 (m.current + 1)
  if m.items.length < next then .error .badIndex
  else pure { m with
    items := m.items.take next
    log := m.log ++ (m.items.drop next).map .delete }

def pushBack (m : UndoManager) (item : UndoItem) : Checked UndoManager :=
  if vecMaxSize ≤ m.items.length then .error .lengthError
  else pure { m with items := m.items ++ [item] }

def addItem (m : UndoManager) (item : UndoItem) : Checked UndoManager :=
  if !m.doing then do
    let size := toUint32 m.items.length
    let m ← (if size ≠ 0 ∧ m.current ≠ predUint32 size then m.eraseUndone else pure m)
    let m ← m.pushBack item
    pure { m with current := toUint32 (m.items.length - 1) }
  else pure m

/-- `Undo`; the item passes `nested` to `AddItem` meanwhile. -/
def undo (m : UndoManager) (nested : List UndoItem) : Checked UndoManager :=
  if m.canUndo then
    let m := { m with doing := true }
    match m.items[m.current]? with
    | none => .error .badIndex
    | some item => do
        let m := { m with current := predUint32 m.current, log := m.log ++ [.undo item] }
        let m ← nested.foldlM addItem m
        pure { m with doing := false }
  else pure m

/-- `Redo`; the item passes `nested` to `AddItem` meanwhile. -/
def redo (m : UndoManager) (nested : List UndoItem) : Checked UndoManager :=
  if m.canRedo then
    let m := { m with doing := true, current := toUint32 (m.current + 1) }
    match m.items[m.current]? with
    | none => .error .badIndex
    | some item => do
        let m := { m with log := m.log ++ [.redo item] }
        let m ← nested.foldlM addItem m
        pure { m with doing := false }
  else pure m

def clear (m : UndoManager) : UndoManager :=
  { m with items := [], current := kRootIndex }

/-- A call of a manager, with what an item adds meanwhile. -/
inductive Call where
  | addItem (item : UndoItem)
  | undo (nested : List UndoItem)
  | redo (nested : List UndoItem)
  | clear

def call (m : UndoManager) : Call → Checked UndoManager
  | .addItem item => m.addItem item
  | .undo nested => m.undo nested
  | .redo nested => m.redo nested
  | .clear => pure m.clear

/-- The calls made of a manager, one after another. -/
def run (m : UndoManager) (calls : List Call) : Checked UndoManager :=
  calls.foldlM call m

end UndoManager

/-! ## Two stacks -/

/-- The two stacks of a manager, and what has happened to the items. -/
structure UndoStacks extends TwoStacks UndoItem where
  log : List UndoEvent

namespace UndoStacks

def init : UndoStacks := ⟨.empty, []⟩

def call (s : UndoStacks) : UndoManager.Call → UndoStacks
  | .addItem item => ⟨s.add item, s.log ++ s.undone.map .delete⟩
  | .undo _ => ⟨s.undo, s.log ++ s.done.head?.toList.map .undo⟩
  | .redo _ => ⟨s.redo, s.log ++ s.undone.head?.toList.map .redo⟩
  | .clear => ⟨.empty, s.log⟩

def run (s : UndoStacks) (calls : List UndoManager.Call) : UndoStacks :=
  calls.foldl call s

end UndoStacks

namespace UndoManager

/-- The manager stands for two stacks. -/
structure Stands (m : UndoManager) (s : UndoStacks) : Prop where
  items : m.items = s.line
  current : m.current = predUint32 s.done.length
  doing : m.doing = false
  log : m.log = s.log
  size : m.items.length ≤ vecMaxSize

theorem predUint32_succ {n : Nat} (h : n < 0x100000000) : predUint32 (n + 1) = n := by
  unfold predUint32 toUint32
  omega

theorem toUint32_of_lt {n : Nat} (h : n < 0x100000000) : toUint32 n = n :=
  Nat.mod_eq_of_lt h

theorem succ_predUint32 {n : Nat} (h : n < 0x100000000) : toUint32 (predUint32 n + 1) = n := by
  unfold predUint32 toUint32
  omega

theorem predUint32_eq_root {n : Nat} (h : n < 0x100000000) :
    predUint32 n = kRootIndex ↔ n = 0 := by
  unfold predUint32 toUint32 kRootIndex
  omega

theorem predUint32_inj {n k : Nat} (hn : n < 0x100000000) (hk : k < 0x100000000) :
    predUint32 n = predUint32 k ↔ n = k := by
  unfold predUint32 toUint32
  omega

namespace Stands

variable {m m' : UndoManager} {s : UndoStacks}

theorem length_eq (h : Stands m s) : m.items.length = s.done.length + s.undone.length := by
  rw [h.items]
  exact TwoStacks.line_length

theorem length_lt (h : Stands m s) : m.items.length < 0x100000000 :=
  Nat.lt_of_le_of_lt h.size (by decide)

theorem done_lt (h : Stands m s) : s.done.length < 0x100000000 := by
  have hlen := h.length_eq
  have hlt := h.length_lt
  omega

theorem canUndo_iff (h : Stands m s) : m.canUndo = true ↔ s.done ≠ [] := by
  unfold canUndo
  simp only [decide_eq_true_eq]
  rw [toUint32_of_lt h.length_lt, h.current, ne_eq (predUint32 _), predUint32_eq_root h.done_lt,
    h.length_eq, ← List.length_eq_zero_iff.ne]
  omega

theorem undone_iff (h : Stands m s) :
    toUint32 m.items.length ≠ 0 ∧ m.current ≠ predUint32 (toUint32 m.items.length) ↔
      s.undone ≠ [] := by
  rw [toUint32_of_lt h.length_lt, h.current, ne_eq (predUint32 _),
    predUint32_inj h.done_lt h.length_lt, h.length_eq, ← List.length_eq_zero_iff.ne]
  omega

theorem canRedo_iff (h : Stands m s) : m.canRedo = true ↔ s.undone ≠ [] := by
  unfold canRedo
  simp only [decide_eq_true_eq]
  exact h.undone_iff

end Stands

/-- What an item adds while it is undone or redone is not added. -/
theorem addItem_doing {m : UndoManager} (h : m.doing = true) (item : UndoItem) :
    m.addItem item = pure m := by
  unfold addItem
  rw [h]
  rfl

theorem foldlM_addItem_doing {m : UndoManager} (h : m.doing = true) :
    ∀ nested : List UndoItem, nested.foldlM addItem m = pure m := by
  intro nested
  induction nested with
  | nil => rfl
  | cons item nested ih =>
    rw [List.foldlM_cons, addItem_doing h]
    exact ih

theorem undo_of_item {m : UndoManager} {item : UndoItem} (hdoing : m.doing = false)
    (hcan : m.canUndo = true) (hitem : m.items[m.current]? = some item)
    (nested : List UndoItem) :
    m.undo nested =
      .ok { m with current := predUint32 m.current, log := m.log ++ [.undo item] } := by
  unfold undo
  rw [if_pos hcan]
  dsimp only
  rw [hitem]
  dsimp only
  rw [foldlM_addItem_doing (by rfl), hdoing]
  rfl

theorem redo_of_item {m : UndoManager} {item : UndoItem} (hdoing : m.doing = false)
    (hcan : m.canRedo = true) (hitem : m.items[toUint32 (m.current + 1)]? = some item)
    (nested : List UndoItem) :
    m.redo nested =
      .ok { m with current := toUint32 (m.current + 1), log := m.log ++ [.redo item] } := by
  unfold redo
  rw [if_pos hcan]
  dsimp only
  rw [hitem]
  dsimp only
  rw [foldlM_addItem_doing (by rfl), hdoing]
  rfl

namespace Stands

variable {m m' : UndoManager} {s : UndoStacks}

theorem undo (h : Stands m s) (nested : List UndoItem) :
    Meets (m.undo nested) (fun _ => False) fun m' => Stands m' (s.call (.undo nested)) := by
  cases hdone : s.done with
  | nil =>
    have hcan : ¬ m.canUndo = true := fun hcan => h.canUndo_iff.mp hcan hdone
    have hcall : s.call (.undo nested) = s := by
      unfold UndoStacks.call TwoStacks.undo
      rw [hdone, List.head?_nil, Option.toList_none, List.map_nil, List.append_nil]
    unfold UndoManager.undo
    rw [if_neg hcan, hcall]
    exact h
  | cons item rest =>
    have hcan : m.canUndo = true := by
      rw [h.canUndo_iff, hdone]
      exact List.cons_ne_nil item rest
    have hcurrent : m.current = rest.length := by
      have hlt := h.done_lt
      rw [h.current, hdone, List.length_cons, predUint32_succ]
      rw [hdone, List.length_cons] at hlt
      omega
    have hitem : m.items[m.current]? = some item := by
      rw [hcurrent, h.items]
      exact TwoStacks.line_done hdone
    have hundo : s.toTwoStacks.undo.done = rest := by
      unfold TwoStacks.undo
      rw [hdone]
    rw [undo_of_item h.doing hcan hitem]
    refine ⟨h.items.trans TwoStacks.line_undo.symm, ?_, h.doing, ?_, h.size⟩
    · rw [UndoStacks.call, hundo, hcurrent]
    · rw [UndoStacks.call, hdone, h.log]
      rfl

theorem redo (h : Stands m s) (nested : List UndoItem) :
    Meets (m.redo nested) (fun _ => False) fun m' => Stands m' (s.call (.redo nested)) := by
  cases hundone : s.undone with
  | nil =>
    have hcan : ¬ m.canRedo = true := fun hcan => h.canRedo_iff.mp hcan hundone
    have hcall : s.call (.redo nested) = s := by
      simp only [UndoStacks.call, TwoStacks.redo, hundone, List.head?_nil, Option.toList_none,
        List.map_nil, List.append_nil]
    unfold UndoManager.redo
    rw [if_neg hcan, hcall]
    exact h
  | cons item rest =>
    have hcan : m.canRedo = true := by
      rw [h.canRedo_iff, hundone]
      exact List.cons_ne_nil item rest
    have hnext : toUint32 (m.current + 1) = s.done.length := by
      rw [h.current, succ_predUint32 h.done_lt]
    have hitem : m.items[toUint32 (m.current + 1)]? = some item := by
      rw [hnext, h.items]
      exact TwoStacks.line_undone hundone
    have hredo : s.toTwoStacks.redo.done.length = s.done.length + 1 := by
      unfold TwoStacks.redo
      rw [hundone]
      rfl
    rw [redo_of_item h.doing hcan hitem]
    refine ⟨h.items.trans TwoStacks.line_redo.symm, ?_, h.doing, ?_, h.size⟩
    · rw [UndoStacks.call, hredo, hnext, predUint32_succ h.done_lt]
    · rw [UndoStacks.call, hundone, h.log]
      rfl

/-- An item is added, unless the vector is full of items that are done. -/
theorem addItem (h : Stands m s) (item : UndoItem) :
    Meets (m.addItem item) (fun f => f = .lengthError ∧ s.done.length = vecMaxSize)
      fun m' => Stands m' (s.call (.addItem item)) := by
  have hnext : toUint32 (m.current + 1) = s.done.length := by
    rw [h.current, succ_predUint32 h.done_lt]
  have hlen := h.length_eq
  -- what is left when the redoable items are erased
  have herase : Meets (if toUint32 m.items.length ≠ 0 ∧
      m.current ≠ predUint32 (toUint32 m.items.length) then m.eraseUndone else pure m)
      (fun f => f = .lengthError ∧ s.done.length = vecMaxSize) fun m₂ =>
        m₂ = { m with items := s.done.reverse, log := s.log ++ s.undone.map .delete } := by
    split
    · unfold eraseUndone
      dsimp only
      rw [hnext, if_neg (by omega), h.items, TwoStacks.line_take, TwoStacks.line_drop, h.log]
      rfl
    · rename_i hnone
      have hundone : s.undone = [] := not_not.mp (mt h.undone_iff.mpr hnone)
      have hitems : m.items = s.done.reverse := by
        rw [h.items, TwoStacks.line, hundone, List.append_nil]
      rw [hundone, List.map_nil, List.append_nil, ← hitems, ← h.log]
      rfl
  unfold UndoManager.addItem
  rw [h.doing]
  simp only [Bool.not_false, if_true, Meets.bind_iff]
  refine herase.mono ?_
  rintro m₂ rfl
  unfold pushBack
  split
  · rename_i hfull
    have hsize := h.size
    rw [List.length_reverse] at hfull
    exact ⟨rfl, by omega⟩
  · rename_i hroom
    rw [List.length_reverse, Nat.not_le] at hroom
    refine ⟨(TwoStacks.line_add item).symm, ?_, h.doing, rfl, ?_⟩
    · have hadd : (s.done.reverse ++ [item]).length - 1 = s.done.length := by
        rw [List.length_append, List.length_reverse]
        exact Nat.add_sub_cancel s.done.length 1
      exact (congrArg toUint32 hadd).trans ((toUint32_of_lt h.done_lt).trans
        (predUint32_succ h.done_lt).symm)
    · rw [List.length_append, List.length_reverse, List.length_singleton]
      exact hroom

theorem clear (h : Stands m s) : Stands m.clear (s.call .clear) where
  items := rfl
  current := ((predUint32_eq_root (by decide)).mpr (List.length_nil (α := UndoItem))).symm
  doing := h.doing
  log := h.log
  size := Nat.zero_le _

theorem call (h : Stands m s) (c : Call) :
    Meets (m.call c)
      (fun f => f = .lengthError ∧ (∃ item, c = .addItem item) ∧ s.done.length = vecMaxSize)
      fun m' => Stands m' (s.call c) := by
  cases c with
  | addItem item =>
    refine Meets.intro (fun m' hm' => (h.addItem item).of_ok hm') fun f hf => ?_
    obtain ⟨hlength, hfull⟩ := (h.addItem item).of_error hf
    exact ⟨hlength, ⟨item, rfl⟩, hfull⟩
  | undo nested =>
    exact Meets.intro (fun m' hm' => (h.undo nested).of_ok hm')
      fun f hf => ((h.undo nested).of_error hf).elim
  | redo nested =>
    exact Meets.intro (fun m' hm' => (h.redo nested).of_ok hm')
      fun f hf => ((h.redo nested).of_error hf).elim
  | clear => exact h.clear

/-- So does a run of calls.  One that does not come to its end has an item to add to as many
done items as a vector can hold. -/
theorem run (calls : List Call) : ∀ {m : UndoManager} {s : UndoStacks}, Stands m s →
    Meets (m.run calls)
      (fun f => f = .lengthError ∧ ∃ before item after,
        calls = before ++ .addItem item :: after ∧ (s.run before).done.length = vecMaxSize)
      fun m' => Stands m' (s.run calls) := by
  induction calls with
  | nil =>
    intro m s h
    exact h
  | cons c calls ih =>
    intro m s h
    unfold UndoManager.run
    rw [List.foldlM_cons]
    cases hcall : m.call c with
    | error f =>
      obtain ⟨hlength, ⟨item, rfl⟩, hfull⟩ := (h.call c).of_error hcall
      exact ⟨hlength, [], item, calls, rfl, hfull⟩
    | ok m₂ =>
      have hrest := ih ((h.call c).of_ok hcall)
      refine Meets.intro (fun m' hm' => hrest.of_ok hm') fun f hf => ?_
      obtain ⟨hlength, before, item, after, hcalls, hfull⟩ := hrest.of_error hf
      refine ⟨hlength, c :: before, item, after, ?_, hfull⟩
      rw [hcalls, List.cons_append]

end Stands

theorem init_stands : Stands init .init where
  items := rfl
  current := ((predUint32_eq_root (by decide)).mpr (List.length_nil (α := UndoItem))).symm
  doing := rfl
  log := rfl
  size := Nat.zero_le _

end UndoManager

/-! ## What is freed -/

/-- The objects an event frees. -/
def UndoEvent.frees : UndoEvent → List Nat
  | .delete item => item.delete
  | .undo _ | .redo _ => []

/-- The objects freed by what has happened. -/
def freedBy (log : List UndoEvent) : List Nat := log.flatMap UndoEvent.frees

/-- The objects of the items handed over to a manager. -/
def UndoManager.Call.handedOver : UndoManager.Call → List Nat
  | .addItem item => item.delete
  | .undo _ | .redo _ | .clear => []

theorem freedBy_append (log₁ log₂ : List UndoEvent) :
    freedBy (log₁ ++ log₂) = freedBy log₁ ++ freedBy log₂ :=
  List.flatMap_append

theorem freedBy_delete (items : List UndoItem) :
    freedBy (items.map .delete) = items.flatMap UndoItem.delete := by
  unfold freedBy
  rw [List.flatMap_map]
  rfl

theorem freedBy_undo (item : Option UndoItem) : freedBy (item.toList.map .undo) = [] := by
  cases item with
  | none => rfl
  | some item => rfl

theorem freedBy_redo (item : Option UndoItem) : freedBy (item.toList.map .redo) = [] := by
  cases item with
  | none => rfl
  | some item => rfl

namespace UndoStacks

/-- The objects of the items on the stacks. -/
def held (s : UndoStacks) : List Nat := s.line.flatMap UndoItem.delete

/-- How often an object has been freed, or is on a stack. -/
def uses (s : UndoStacks) (object : Nat) : Nat :=
  (freedBy s.log).count object + s.held.count object

theorem uses_call (s : UndoStacks) (c : UndoManager.Call) (object : Nat) :
    (s.call c).uses object ≤ s.uses object + c.handedOver.count object := by
  unfold uses held
  cases c with
  | addItem item =>
    -- the items that were redoable are freed, the one added is on a stack
    have hline : (s.call (.addItem item)).line = s.done.reverse ++ [item] :=
      TwoStacks.line_add item
    have hlog : freedBy (s.call (.addItem item)).log =
        freedBy s.log ++ s.undone.flatMap UndoItem.delete := by
      rw [← freedBy_delete, ← freedBy_append]
      rfl
    rw [hline, hlog, TwoStacks.line, List.flatMap_append, List.flatMap_append,
      List.flatMap_singleton, List.count_append, List.count_append, List.count_append]
    unfold UndoManager.Call.handedOver
    dsimp only
    omega
  | undo nested =>
    have hline : (s.call (.undo nested)).line = s.line := TwoStacks.line_undo
    have hlog : freedBy (s.call (.undo nested)).log = freedBy s.log := by
      unfold call
      rw [freedBy_append, freedBy_undo, List.append_nil]
    rw [hline, hlog]
    exact Nat.le_add_right _ _
  | redo nested =>
    have hline : (s.call (.redo nested)).line = s.line := TwoStacks.line_redo
    have hlog : freedBy (s.call (.redo nested)).log = freedBy s.log := by
      unfold call
      rw [freedBy_append, freedBy_redo, List.append_nil]
    rw [hline, hlog]
    exact Nat.le_add_right _ _
  | clear => exact Nat.add_le_add_left (Nat.zero_le _) _

theorem uses_run (calls : List UndoManager.Call) (object : Nat) : ∀ s : UndoStacks,
    (s.run calls).uses object ≤
      s.uses object + (calls.flatMap UndoManager.Call.handedOver).count object := by
  induction calls with
  | nil =>
    intro s
    exact Nat.le_refl _
  | cons c calls ih =>
    intro s
    have hcall := uses_call s c object
    have hrest := ih (s.call c)
    rw [List.flatMap_cons, List.count_append]
    unfold run at hrest ⊢
    rw [List.foldl_cons]
    omega

end UndoStacks

namespace UndoManager

/-- No object is freed twice, or while it is on a stack. -/
structure FreesRightly (m : UndoManager) : Prop where
  once : (freedBy m.log).Nodup
  dropped : ∀ item ∈ m.items, ∀ object ∈ item.delete, object ∉ freedBy m.log

theorem freesRightly {m : UndoManager} {s : UndoStacks} (h : Stands m s)
    (huses : ∀ object, s.uses object ≤ 1) : FreesRightly m where
  once := by
    rw [List.nodup_iff_count_le_one, h.log]
    exact fun object => Nat.le_trans (Nat.le_add_right _ _) (huses object)
  dropped := by
    intro item hitem object hobject hfreed
    have hheld : object ∈ s.held := by
      rw [h.items] at hitem
      exact List.mem_flatMap.mpr ⟨item, hitem, hobject⟩
    rw [h.log] at hfreed
    have hone := huses object
    have hpos := List.count_pos_iff.mpr hfreed
    have hpos' := List.count_pos_iff.mpr hheld
    unfold UndoStacks.uses at hone
    omega

/-! ## Runs of calls -/

/-- A run of calls from the constructor on does what two stacks do.  It comes to its end
unless an item is added to as many done items as a vector can hold, and frees the objects
rightly if each item handed over is made of objects of its own. -/
theorem run_twoStacks (calls : List Call) :
    Meets (init.run calls)
      (fun f => f = .lengthError ∧ ∃ before item after,
        calls = before ++ .addItem item :: after ∧
          (UndoStacks.init.run before).done.length = vecMaxSize)
      fun m => Stands m (UndoStacks.init.run calls) ∧
        (m.canUndo = true ↔ (UndoStacks.init.run calls).done ≠ []) ∧
        (m.canRedo = true ↔ (UndoStacks.init.run calls).undone ≠ []) ∧
        ((calls.flatMap Call.handedOver).Nodup → FreesRightly m) := by
  refine (init_stands.run calls).mono fun m hm => ⟨hm, hm.canUndo_iff, hm.canRedo_iff, ?_⟩
  intro hnodup
  refine freesRightly hm fun object => ?_
  have huses := UndoStacks.uses_run calls object .init
  have hone := List.nodup_iff_count_le_one.mp hnodup object
  have hinit : UndoStacks.init.uses object = 0 := rfl
  omega

/-- The manager behaves as two stacks, an item that is added while another is undone or
redone changes nothing, redoing is the inverse of undoing, and an item undoes its objects
in the reverse of the order in which it redoes them. -/
theorem behaves_as_twoStacks :
    (∀ calls, Meets (init.run calls)
      (fun f => f = .lengthError ∧ ∃ before item after,
        calls = before ++ .addItem item :: after ∧
          (UndoStacks.init.run before).done.length = vecMaxSize)
      fun m => Stands m (UndoStacks.init.run calls) ∧
        (m.canUndo = true ↔ (UndoStacks.init.run calls).done ≠ []) ∧
        (m.canRedo = true ↔ (UndoStacks.init.run calls).undone ≠ []) ∧
        ((calls.flatMap Call.handedOver).Nodup → FreesRightly m)) ∧
    (∀ m : UndoManager, m.doing = true → ∀ item, m.addItem item = .ok m) ∧
    (∀ s : UndoStacks, (s.done ≠ [] → s.undo.redo = s.toTwoStacks) ∧
      (s.undone ≠ [] → s.redo.undo = s.toTwoStacks)) ∧
    ∀ item : UndoItem, item.undo = item.redo.reverse :=
  ⟨run_twoStacks, fun _ hdoing item => addItem_doing hdoing item,
    fun _ => ⟨TwoStacks.redo_undo, TwoStacks.undo_redo⟩, UndoItem.undo_eq_reverse⟩

end UndoManager

end FreeAmp.Base
