/-
  Ui/WindowMouse.lean --- the mouse in a window, from `ui/freeamp/src/Window.cpp`.

      Inv.step        the entered control is that of `m_pMouseInControl`
      mouse_of_run    what the controls are sent, and when nothing is dereferenced

  A handler keeps the window from being switched, so that each is one step.  What
  `ControlFromPos` finds under a position of the screen may change between them, with the
  panels and with the place of the window.  The mouse is captured by controls, in answer to
  what they are sent.
-/
import FreeAmp.Lib.Transition

namespace FreeAmp.Ui

open FreeAmp.Lib

/-! ## The state -/

/-- A position on the screen. -/
structure Pos where
  x : Int
  y : Int
  deriving DecidableEq, Repr

/-- What the handlers send to controls. -/
inductive ControlTransition where
  | mouseEnter
  | mouseLeave
  | mouseMove
  | mouseLButtonDown
  | mouseLButtonUp
  | mouseLButtonDoubleClick
  deriving DecidableEq, Repr

/-- A `Window`, over the controls `γ`. -/
structure Window (γ : Type) where
  windowMove : Bool
  lButtonDown : Bool
  mouseIn : Option γ
  mouseDown : Option γ
  capture : Option γ
  controlFromPos : Pos → Option γ
  useToDragWindow : γ → Bool
  /-- what the handlers have sent since the last switch -/
  sent : List (γ × ControlTransition)
  /-- a null control has been dereferenced -/
  crashed : Bool

/-- The events of a window. -/
inductive MouseEvent (γ : Type) where
  /-- `HandleMouseMove`, with what `LButtonDown()` returns -/
  | move (oScreenPos : Pos) (pressed : Bool)
  | lButtonDown (oScreenPos : Pos)
  | lButtonDoubleClick (oScreenPos : Pos)
  | lButtonUp (oScreenPos : Pos)
  /-- `MouseHasLeftWindow`, with what `GetMousePos` returns -/
  | hasLeft (oPos : Pos)
  /-- `VulcanMindMeld`, with the controls and the `m_bWindowMove` of the other window -/
  | vulcanMindMeld (controlFromPos : Pos → Option γ) (useToDragWindow : γ → Bool)
      (windowMove : Bool)
  /-- controls are moved, shown or hidden, or the window is moved -/
  | layout (controlFromPos : Pos → Option γ)
  | startMouseCapture (c : γ)
  | endMouseCapture

namespace Window

variable {γ : Type} [DecidableEq γ]

/-- A window that has been opened. -/
def init (controlFromPos : Pos → Option γ) (useToDragWindow : γ → Bool) : Window γ :=
  ⟨false, false, none, none, none, controlFromPos, useToDragWindow, [], false⟩

/-! ## Handlers -/

def accept (w : Window γ) (pControl : Option γ) (t : ControlTransition) : Window γ :=
  match pControl with
  | some c => { w with sent := w.sent ++ [(c, t)] }
  | none => { w with crashed := true }

/-- The branches of `HandleMouseMove` over a control. -/
def moveOver (w : Window γ) (pControl : γ) : Window γ :=
  if w.mouseDown.isSome ∧ w.mouseIn.isSome ∧ w.mouseDown ≠ some pControl then
    { w.accept w.mouseIn .mouseLeave with mouseIn := none }
  else if w.mouseDown.isSome ∧ w.mouseIn = none ∧ w.mouseDown = some pControl then
    let w := { w with mouseIn := w.mouseDown }
    (w.accept w.mouseIn .mouseEnter).accept w.mouseIn .mouseLButtonDown
  else if w.lButtonDown = false then
    if w.mouseIn.isSome ∧ w.mouseIn ≠ some pControl then
      let w := { w.accept w.mouseIn .mouseLeave with mouseIn := some pControl }
      let w := w.accept w.mouseIn .mouseEnter
      if w.lButtonDown then w.accept w.mouseIn .mouseLButtonDown else w
    else if w.mouseIn = none then
      let w := { w with mouseIn := some pControl }
      let w := w.accept w.mouseIn .mouseEnter
      if w.lButtonDown then w.accept w.mouseIn .mouseLButtonDown else w
    else w
  else w

/-- The button that has been released outside. -/
def released (w : Window γ) (pressed : Bool) : Window γ :=
  if w.lButtonDown ∧ pressed = false then { w with lButtonDown := false, mouseDown := none }
  else w

/-- `HandleMouseMove`; while the window is moved, only its position changes. -/
def handleMouseMove (w : Window γ) (oPos : Pos) (pressed : Bool) : Window γ :=
  if w.windowMove then w
  else
    let w := w.released pressed
    match w.capture with
    | some c => w.accept (some c) .mouseMove
    | none =>
      match w.controlFromPos oPos with
      | some c => (w.moveOver c).accept (some c) .mouseMove
      | none =>
        if w.mouseIn.isSome then
          { w.accept w.mouseIn .mouseLeave with mouseIn := none }
        else w

def handleMouseLButtonDown (w : Window γ) (oPos : Pos) : Window γ :=
  match w.capture with
  | some c => w.accept (some c) .mouseLButtonDown
  | none =>
    match (w.controlFromPos oPos).filter fun c => !w.useToDragWindow c with
    | some c =>
      let w := { w with lButtonDown := true }
      let w := if w.mouseIn ≠ some c then
          let w := if w.mouseIn.isSome then w.accept w.mouseIn .mouseLeave else w
          let w := { w with mouseIn := some c }
          w.accept w.mouseIn .mouseEnter
        else w
      { w with mouseDown := some c }.accept (some c) .mouseLButtonDown
    | none => { w with windowMove := true }

def handleMouseLButtonDoubleClick (w : Window γ) (oPos : Pos) : Window γ :=
  if (w.controlFromPos oPos).isSome then w.accept w.mouseIn .mouseLButtonDoubleClick else w

def handleMouseLButtonUp (w : Window γ) (oPos : Pos) : Window γ :=
  if w.windowMove then { w with windowMove := false }
  else
    let w := { w with lButtonDown := false, mouseDown := none }
    match w.capture with
    | some c => w.accept (some c) .mouseLButtonUp
    | none =>
      match w.controlFromPos oPos with
      | some c => w.accept (some c) .mouseLButtonUp
      | none => w

def mouseHasLeftWindow (w : Window γ) (oPos : Pos) : Window γ :=
  if w.mouseIn.isSome then { w.accept w.mouseIn .mouseLeave with mouseIn := none }
  else
    let w := { w with mouseIn := w.controlFromPos oPos }
    if w.mouseIn.isSome then w.accept w.mouseIn .mouseEnter else w

/-- A step; none are taken behind a crash. -/
def next (w : Window γ) (e : MouseEvent γ) : Option (Window γ) :=
  if w.crashed then none
  else some (match e with
    | .move oPos pressed => w.handleMouseMove oPos pressed
    | .lButtonDown oPos => w.handleMouseLButtonDown oPos
    | .lButtonDoubleClick oPos => w.handleMouseLButtonDoubleClick oPos
    | .lButtonUp oPos => w.handleMouseLButtonUp oPos
    | .hasLeft oPos => w.mouseHasLeftWindow oPos
    | .vulcanMindMeld controlFromPos useToDragWindow windowMove =>
      { w with
        controlFromPos, useToDragWindow, windowMove
        mouseIn := none, capture := none, mouseDown := none, sent := [] }
    | .layout controlFromPos => { w with controlFromPos }
    | .startMouseCapture c => { w with capture := some c }
    | .endMouseCapture => { w with capture := none })

/-! ## Entering and leaving -/

/-- Whether the mouse is in the control behind the transitions, if they enter and leave it in
turn. -/
def turns (inside : Bool) : List ControlTransition → Option Bool
  | [] => some inside
  | .mouseEnter :: ts => if inside then none else turns true ts
  | .mouseLeave :: ts => if inside then turns false ts else none
  | _ :: ts => turns inside ts

/-- What a control has been sent since the last switch. -/
def sentTo (w : Window γ) (c : γ) : List ControlTransition :=
  (w.sent.filter fun p => p.1 = c).map Prod.snd

/-- The transitions to each control enter and leave it in turn, and the one that is entered and
not left is that of `m_pMouseInControl`. -/
def InTurn (w : Window γ) : Prop :=
  ∀ c, turns false (w.sentTo c) = some (decide (w.mouseIn = some c))

/-- A double click is over no control, or the mouse is in one. -/
def Entered (w : Window γ) : MouseEvent γ → Prop
  | .lButtonDoubleClick oPos => (w.controlFromPos oPos).isSome → w.mouseIn.isSome
  | _ => True

instance (w : Window γ) (e : MouseEvent γ) : Decidable (w.Entered e) := by
  unfold Entered
  split <;> infer_instance

theorem turns_append (inside : Bool) (ts us : List ControlTransition) :
    turns inside (ts ++ us) = (turns inside ts).bind fun inside => turns inside us := by
  induction ts generalizing inside with
  | nil => rfl
  | cons t ts ih =>
    cases t with
    | mouseEnter => cases inside with
      | true => rfl
      | false => exact ih true
    | mouseLeave => cases inside with
      | true => exact ih false
      | false => rfl
    | mouseMove => exact ih inside
    | mouseLButtonDown => exact ih inside
    | mouseLButtonUp => exact ih inside
    | mouseLButtonDoubleClick => exact ih inside

variable {w t : Window γ}

theorem sentTo_accept (w : Window γ) (c d : γ) (t : ControlTransition) :
    (w.accept (some c) t).sentTo d = if c = d then w.sentTo d ++ [t] else w.sentTo d := by
  unfold accept sentTo
  dsimp only
  rw [List.filter_append, List.map_append]
  by_cases h : c = d
  · simp [h]
  · simp [h]

/-- The rest of a window does not matter to what has been sent. -/
theorem InTurn.congr (h : w.InTurn) (hsent : t.sent = w.sent) (hin : t.mouseIn = w.mouseIn) :
    t.InTurn := by
  intro c
  unfold sentTo
  rw [hsent, hin]
  exact h c

theorem InTurn.accept (h : w.InTurn) {p : Option γ} (hp : p.isSome) {t : ControlTransition}
    (henter : t ≠ .mouseEnter) (hleave : t ≠ .mouseLeave) : (w.accept p t).InTurn := by
  obtain ⟨c, rfl⟩ := Option.isSome_iff_exists.mp hp
  intro d
  have hin : (w.accept (some c) t).mouseIn = w.mouseIn := rfl
  rw [sentTo_accept, hin]
  split
  · rw [turns_append, h d]
    cases t with
    | mouseEnter => exact absurd rfl henter
    | mouseLeave => exact absurd rfl hleave
    | mouseMove => rfl
    | mouseLButtonDown => rfl
    | mouseLButtonUp => rfl
    | mouseLButtonDoubleClick => rfl
  · exact h d

theorem InTurn.leave (h : w.InTurn) (hin : w.mouseIn.isSome) :
    InTurn { w.accept w.mouseIn .mouseLeave with mouseIn := none } := by
  obtain ⟨c, hc⟩ := Option.isSome_iff_exists.mp hin
  intro d
  have hsent := sentTo_accept w c d .mouseLeave
  have hd := h d
  rw [hc] at hd ⊢
  have heq : sentTo { w.accept (some c) .mouseLeave with mouseIn := none } d =
      (w.accept (some c) .mouseLeave).sentTo d := rfl
  rw [heq, hsent]
  by_cases hcd : c = d
  · rw [if_pos hcd, turns_append, hd, hcd]
    simp [turns]
  · rw [if_neg hcd, hd]
    simp [hcd]

theorem InTurn.enter (h : w.InTurn) (hin : w.mouseIn = none) {p : Option γ} (hp : p.isSome) :
    ({ w with mouseIn := p }.accept p .mouseEnter).InTurn := by
  obtain ⟨c, rfl⟩ := Option.isSome_iff_exists.mp hp
  intro d
  have hd := h d
  have hin' : ({ w with mouseIn := some c }.accept (some c) .mouseEnter).mouseIn = some c := rfl
  have hold : sentTo { w with mouseIn := some c } d = w.sentTo d := rfl
  rw [hin] at hd
  rw [sentTo_accept, hin', hold]
  by_cases hcd : c = d
  · rw [if_pos hcd, turns_append, hd, hcd]
    simp [turns]
  · rw [if_neg hcd, hd]
    simp [hcd]

/-! ## What a handler keeps -/

/-- The transitions are in turn, and no null control has been dereferenced. -/
structure Inv (w : Window γ) : Prop where
  inTurn : w.InTurn
  crashed : w.crashed = false

theorem crashed_accept {p : Option γ} (hp : p.isSome) (t : ControlTransition) :
    (w.accept p t).crashed = w.crashed := by
  obtain ⟨c, rfl⟩ := Option.isSome_iff_exists.mp hp
  rfl

theorem Inv.accept (h : Inv w) {p : Option γ} (hp : p.isSome) {t : ControlTransition}
    (henter : t ≠ .mouseEnter) (hleave : t ≠ .mouseLeave) : Inv (w.accept p t) :=
  ⟨h.inTurn.accept hp henter hleave, (crashed_accept hp t).trans h.crashed⟩

theorem Inv.leave (h : Inv w) (hin : w.mouseIn.isSome) :
    Inv { w.accept w.mouseIn .mouseLeave with mouseIn := none } :=
  ⟨h.inTurn.leave hin, (crashed_accept hin _).trans h.crashed⟩

theorem Inv.enter (h : Inv w) (hin : w.mouseIn = none) {p : Option γ} (hp : p.isSome) :
    Inv ({ w with mouseIn := p }.accept p .mouseEnter) :=
  ⟨h.inTurn.enter hin hp, (crashed_accept hp _).trans h.crashed⟩

theorem Inv.cross (h : Inv w) (hin : w.mouseIn.isSome) (c : γ) :
    Inv ({ w.accept w.mouseIn .mouseLeave with mouseIn := some c }.accept (some c) .mouseEnter) :=
  (h.leave hin).enter rfl rfl

theorem Inv.init (controlFromPos : Pos → Option γ) (useToDragWindow : γ → Bool) :
    Inv (Window.init controlFromPos useToDragWindow) :=
  ⟨fun _ => rfl, rfl⟩

theorem Inv.moveOver (h : Inv w) (c : γ) : Inv (w.moveOver c) := by
  unfold Window.moveOver
  split
  · rename_i hleave
    exact h.leave hleave.2.1
  · split
    · rename_i henter
      exact (h.enter henter.2.1 henter.1).accept henter.1 nofun nofun
    · split
      · rename_i hup
        split
        · rename_i hcross
          have hcrossed := h.cross hcross.1 c
          dsimp only
          split
          · exact hcrossed.accept rfl nofun nofun
          · exact hcrossed
        · split
          · rename_i hnone
            have hentered := @Inv.enter _ _ _ h hnone (some c) rfl
            dsimp only
            split
            · exact hentered.accept rfl nofun nofun
            · exact hentered
          · exact h
      · exact h

theorem Inv.released (h : Inv w) (pressed : Bool) : Inv (w.released pressed) := by
  unfold Window.released
  split
  · exact ⟨h.inTurn.congr rfl rfl, h.crashed⟩
  · exact h

theorem Inv.handleMouseMove (h : Inv w) (oPos : Pos) (pressed : Bool) :
    Inv (w.handleMouseMove oPos pressed) := by
  have hreleased := h.released pressed
  unfold Window.handleMouseMove
  split
  · exact h
  · dsimp only
    split
    · exact hreleased.accept rfl nofun nofun
    · split
      · exact (hreleased.moveOver _).accept rfl nofun nofun
      · split
        · rename_i hin
          exact hreleased.leave hin
        · exact hreleased

theorem Inv.handleMouseLButtonDown (h : Inv w) (oPos : Pos) :
    Inv (w.handleMouseLButtonDown oPos) := by
  unfold Window.handleMouseLButtonDown
  split
  · exact h.accept rfl nofun nofun
  · split
    · rename_i c hc
      have hpressed : Inv { w with lButtonDown := true } := ⟨h.inTurn.congr rfl rfl, h.crashed⟩
      dsimp only
      refine Inv.accept ?_ rfl nofun nofun
      split
      · split
        · rename_i hne hin
          have hcrossed := hpressed.cross hin c
          exact ⟨hcrossed.inTurn.congr rfl rfl, hcrossed.crashed⟩
        · rename_i hne hin
          have hnone := Option.not_isSome_iff_eq_none.mp hin
          have hentered := @Inv.enter _ _ _ hpressed hnone (some c) rfl
          exact ⟨hentered.inTurn.congr rfl rfl, hentered.crashed⟩
      · exact ⟨hpressed.inTurn.congr rfl rfl, hpressed.crashed⟩
    · exact ⟨h.inTurn.congr rfl rfl, h.crashed⟩

theorem Inv.handleMouseLButtonUp (h : Inv w) (oPos : Pos) : Inv (w.handleMouseLButtonUp oPos) := by
  have hreleased : Inv { w with lButtonDown := false, mouseDown := none } :=
    ⟨h.inTurn.congr rfl rfl, h.crashed⟩
  unfold Window.handleMouseLButtonUp
  split
  · exact ⟨h.inTurn.congr rfl rfl, h.crashed⟩
  · dsimp only
    split
    · exact hreleased.accept rfl nofun nofun
    · split
      · exact hreleased.accept rfl nofun nofun
      · exact hreleased

theorem Inv.mouseHasLeftWindow (h : Inv w) (oPos : Pos) : Inv (w.mouseHasLeftWindow oPos) := by
  unfold Window.mouseHasLeftWindow
  split
  · rename_i hin
    exact h.leave hin
  · rename_i hin
    have hnone := Option.not_isSome_iff_eq_none.mp hin
    cases hpos : w.controlFromPos oPos with
    | none =>
      dsimp only
      rw [if_neg (by simp)]
      exact ⟨h.inTurn.congr rfl hnone.symm, h.crashed⟩
    | some c => exact @Inv.enter _ _ _ h hnone (some c) rfl

/-- A double click is all right just when the mouse is in a control, or over none. -/
theorem handleMouseLButtonDoubleClick_cases (h : Inv w) (oPos : Pos) :
    (w.handleMouseLButtonDoubleClick oPos).InTurn ∧
      ((w.handleMouseLButtonDoubleClick oPos).crashed = false ↔
        w.Entered (.lButtonDoubleClick oPos)) := by
  unfold Window.handleMouseLButtonDoubleClick Entered
  split
  · rename_i hover
    cases hin : w.mouseIn with
    | none =>
      refine ⟨h.inTurn.congr rfl rfl, ?_⟩
      exact ⟨fun hfalse => Bool.noConfusion hfalse,
        fun hentered => Bool.noConfusion (hentered hover)⟩
    | some c =>
      have haccepted := @Inv.accept _ _ _ h (some c) rfl .mouseLButtonDoubleClick nofun nofun
      exact ⟨haccepted.inTurn, fun _ _ => rfl, fun _ => haccepted.crashed⟩
  · rename_i hover
    exact ⟨h.inTurn, fun _ hpos => absurd hpos hover, fun _ => h.crashed⟩

/-! ## Runs -/

/-- One step: the transitions stay in turn, and it crashes just when it is a double click over a
control with the mouse in none. -/
theorem Inv.step {e : MouseEvent γ} (h : Inv w) (hst : w.next e = some t) :
    t.InTurn ∧ (t.crashed = false ↔ w.Entered e) := by
  have keep : ∀ {t : Window γ}, Inv t → t.InTurn ∧ (t.crashed = false ↔ True) :=
    fun ht => ⟨ht.inTurn, fun _ => trivial, fun _ => ht.crashed⟩
  unfold next at hst
  rw [if_neg (by rw [h.crashed]; exact Bool.false_ne_true)] at hst
  obtain rfl := Option.some.inj hst
  cases e with
  | move oPos pressed => exact keep (h.handleMouseMove oPos pressed)
  | lButtonDown oPos => exact keep (h.handleMouseLButtonDown oPos)
  | lButtonDoubleClick oPos => exact handleMouseLButtonDoubleClick_cases h oPos
  | lButtonUp oPos => exact keep (h.handleMouseLButtonUp oPos)
  | hasLeft oPos => exact keep (h.mouseHasLeftWindow oPos)
  | vulcanMindMeld controlFromPos useToDragWindow windowMove =>
    exact keep ⟨fun _ => rfl, h.crashed⟩
  | layout controlFromPos => exact keep ⟨h.inTurn.congr rfl rfl, h.crashed⟩
  | startMouseCapture c => exact keep ⟨h.inTurn.congr rfl rfl, h.crashed⟩
  | endMouseCapture => exact keep ⟨h.inTurn.congr rfl rfl, h.crashed⟩

theorem run_crashed {es : List (MouseEvent γ)} (h : Lib.Run (Steps next) w es t)
    (hw : w.crashed = true) : t = w := by
  cases h with
  | refl _ => rfl
  | cons first rest =>
    unfold Steps next at first
    rw [hw, if_pos rfl] at first
    cases first

theorem mouse_of_run_from {es : List (MouseEvent γ)} (h : Lib.Run (Steps next) w es t)
    (hw : Inv w) :
    t.InTurn ∧ (t.crashed = false ↔ Lib.Run (Guarded Entered (Steps next)) w es t) := by
  induction h with
  | refl w => exact ⟨hw.inTurn, fun _ => .refl w, fun _ => hw.crashed⟩
  | @cons w u t e es first rest ih =>
    obtain ⟨hturn, hcrash⟩ := hw.step first
    cases hu : u.crashed with
    | false =>
      obtain ⟨hlast, hrun⟩ := ih ⟨hturn, hu⟩
      refine ⟨hlast, fun ht => .cons ⟨hcrash.mp hu, first⟩ (hrun.mp ht), fun hguard => ?_⟩
      cases hguard with
      | @cons _ v _ _ _ first' rest' =>
        obtain rfl : u = v := Option.some.inj (first.symm.trans first'.2)
        exact hrun.mpr rest'
    | true =>
      obtain rfl := run_crashed rest hu
      refine ⟨hturn, ⟨fun ht => ?_, fun hguard => ?_⟩⟩
      · rw [hu] at ht
        cases ht
      · cases hguard with
        | cons first' _ => exact hcrash.mpr first'.1

/-- In every run the transitions to each control enter and leave it in turn; and no null control
is dereferenced just when every double click is over no control, or with the mouse in one. -/
theorem mouse_of_run {controlFromPos : Pos → Option γ} {useToDragWindow : γ → Bool}
    {es : List (MouseEvent γ)}
    (h : Lib.Run (Steps next) (.init controlFromPos useToDragWindow) es w) :
    w.InTurn ∧ (w.crashed = false ↔
      Lib.Run (Guarded Entered (Steps next)) (.init controlFromPos useToDragWindow) es w) :=
  mouse_of_run_from h (Inv.init controlFromPos useToDragWindow)

/-- A control under every position, entered and clicked twice. -/
theorem mouse_of_run_clicked :
    ∃ w : Window Nat, Lib.Run (Steps next) (.init (fun _ => some 0) fun _ => false)
      [.move ⟨0, 0⟩ false, .lButtonDown ⟨0, 0⟩, .lButtonDoubleClick ⟨0, 0⟩] w ∧
      w.InTurn ∧ w.crashed = false := by
  have hexec : (exec next (.init (fun _ => some 0) fun _ => false : Window Nat)
      [.move ⟨0, 0⟩ false, .lButtonDown ⟨0, 0⟩, .lButtonDoubleClick ⟨0, 0⟩]).map (·.crashed) =
      some false := by decide
  obtain ⟨w, hw, hcrashed⟩ := Option.map_eq_some_iff.mp hexec
  exact ⟨w, Lib.Run.of_exec hw, (mouse_of_run (Lib.Run.of_exec hw)).1, hcrashed⟩

/-- A window is switched between the press and the double click. -/
theorem mouse_fails : ¬ ∀ (w : Window Nat) (controlFromPos : Pos → Option Nat)
    (useToDragWindow : Nat → Bool) (es : List (MouseEvent Nat)),
    Lib.Run (Steps next) (.init controlFromPos useToDragWindow) es w →
      w.InTurn ∧ w.crashed = false := by
  intro hall
  have hexec : (exec next (.init (fun _ => some 0) fun _ => false : Window Nat)
      [.lButtonDown ⟨0, 0⟩, .vulcanMindMeld (fun _ => some 1) (fun _ => false) false,
        .lButtonDoubleClick ⟨0, 0⟩]).map (·.crashed) = some true := by decide
  obtain ⟨w, hw, hcrashed⟩ := Option.map_eq_some_iff.mp hexec
  exact absurd ((hall w _ _ _ (Lib.Run.of_exec hw)).2.symm.trans hcrashed) Bool.false_ne_true

end Window

end FreeAmp.Ui
