/-
  Ui/Slider.lean --- the sliders of `ui/freeamp/src/SliderControl.cpp`.

      slider_of_run    what a slider keeps, in every run of settings, jumps and drags

  The range of a slider is what the thumb leaves of its trough, and everything is divided by
  it: with a thumb as wide as the trough `Init` already divides by zero, with a wider one the
  positions are negative.

  Of the drawing only the divisions are left, and of the messages to the window nothing.  The
  coordinates are those of a screen, so that no product of them leaves the range of an `int`.
-/
import FreeAmp.Lib.Checked
import FreeAmp.Ui.WindowMouse

namespace FreeAmp.Ui.Slider

open FreeAmp.Lib

/-! ## The state -/

/-- `ControlStateEnum`, the states of a slider -/
inductive ControlState where
  | normal
  | mouseOver
  | disabled
  | disabledMO
  | dragging
  | hidden
  | lastState
  deriving DecidableEq, Repr

/-- `ControlTransitionEnum` -/
inductive ControlTrans where
  | showControl
  | hideControl
  | enable
  | disable
  | mouseMove
  | mouseEnter
  | mouseLeave
  | mouseLButtonUp
  | mouseLButtonDown
  | mouseLButtonDoubleClick
  | setValue
  | timer
  | none
  deriving DecidableEq, Repr

/-- What a theme gives a slider. -/
structure SliderTheme where
  /-- `m_oRect` -/
  x1 : Int
  x2 : Int
  y1 : Int
  y2 : Int
  thumbWidth : Int
  numThumbStates : Int
  notchPercent : Int
  /-- as in the theme, before it is halved -/
  notchWidth : Int
  /-- `m_iTroughFrames`, and whether they are from the middle, if there is a trough bitmap -/
  trough : Option (Int × Bool)
  deriving DecidableEq, Repr

structure SliderControl where
  eCurrentState : ControlState
  eLastState : ControlState
  currentPos : Int
  value : Int
  /-- `m_oOrigin.x` -/
  originX : Int
  isDrag : Bool
  deriving DecidableEq, Repr

inductive SliderFault where
  | divisionByZero
  deriving DecidableEq, Repr

/-! ## The source -/

/-- `pTransitions`; nothing stands for `CS_Any` in front, and for `CS_Same` at the end. -/
def transitions : List (Option ControlState × ControlTrans × Option ControlState) :=
  [(some .normal, .mouseEnter, some .mouseOver),
    (some .normal, .disable, some .disabled),
    (some .normal, .hideControl, some .hidden),
    (some .normal, .showControl, some .normal),
    (some .mouseOver, .mouseLeave, some .normal),
    (some .mouseOver, .mouseLButtonDown, some .dragging),
    (some .mouseOver, .disable, some .disabled),
    (some .dragging, .mouseMove, some .dragging),
    (some .dragging, .mouseLButtonUp, some .mouseOver),
    (some .disabled, .showControl, some .disabled),
    (some .disabled, .enable, some .normal),
    (some .disabled, .mouseEnter, some .disabledMO),
    (some .disabledMO, .mouseLeave, some .disabled),
    (some .disabledMO, .enable, some .mouseOver),
    (some .hidden, .showControl, some .normal),
    (none, .setValue, none)]

def SliderTheme.range (t : SliderTheme) : Int := t.x2 - t.x1 - t.thumbWidth

def SliderTheme.halfNotch (t : SliderTheme) : Int := t.notchWidth.tdiv 2

/-- A division of `int`. -/
def div (a b : Int) : Except SliderFault Int :=
  if b = 0 then .error .divisionByZero else .ok (a.tdiv b)

/-- The divisions of `BlitTrough`. -/
def blitTrough (t : SliderTheme) (iPos : Int) : Except SliderFault Unit :=
  match t.trough with
  | none => .ok ()
  | some (iTroughFrames, bMiddle) => do
      let iTotFrames := if bMiddle then iTroughFrames * 2 else iTroughFrames
      let _ ← div (iPos * iTotFrames) t.range
      let _ ← div 1 iTroughFrames
      .ok ()

/-- The divisions of `MoveThumb`. -/
def moveThumb (t : SliderTheme) (s : SliderControl) (iNewPos : Int) : Except SliderFault Unit := do
  let _ ← div (iNewPos * t.numThumbStates) t.range
  if s.eCurrentState ∈ [.normal, .dragging, .mouseOver, .disabled] then blitTrough t iNewPos
  else .ok ()

def handleJump (t : SliderTheme) (s : SliderControl) (pPos : Pos) :
    Except SliderFault SliderControl :=
  let iNewPos := min (max (pPos.x - t.x1 - t.thumbWidth.tdiv 2) 0) t.range
  if iNewPos = s.currentPos then .ok s
  else do
    let value ← div (iNewPos * 100) t.range
    let s := { s with currentPos := iNewPos, value := value, isDrag := true }
    moveThumb t s iNewPos
    .ok s

/-- The notch draws the thumb. -/
def snap (t : SliderTheme) (iNewPos : Int) : Int :=
  if 0 < t.notchPercent then
    let iNotch := (t.range * t.notchPercent).tdiv 100
    if iNotch - t.halfNotch ≤ iNewPos ∧ iNewPos ≤ iNotch + t.halfNotch then iNotch else iNewPos
  else iNewPos

def handleDrag (t : SliderTheme) (s : SliderControl) (pPos : Pos) :
    Except SliderFault SliderControl :=
  if s.originX = -1 then .ok { s with originX := pPos.x }
  else if pPos.x < 0 then .ok s
  else
    let iNewPos := min (max (t.range - (t.x2 - pPos.x)) 0) t.range
    if iNewPos = s.currentPos then .ok s
    else do
      let iNewPos := snap t iNewPos
      let value ← div (iNewPos * 100) t.range
      let s := { s with currentPos := iNewPos, value := value }
      moveThumb t s iNewPos
      .ok s

/-- `IsPosInRect` of the thumb -/
def onThumb (t : SliderTheme) (s : SliderControl) (pPos : Pos) : Bool :=
  t.x1 + s.currentPos ≤ pPos.x && pPos.x ≤ t.x1 + s.currentPos + t.thumbWidth &&
    t.y1 ≤ pPos.y && pPos.y ≤ t.y2

/-- `CT_SetValue` in `Transition` -/
def setThumb (t : SliderTheme) (panelHidden : Bool) (s : SliderControl) :
    Except SliderFault SliderControl :=
  if s.value < 0 ∨ 100 < s.value then .ok s
  else
    let iNewPos := (s.value * t.range).tdiv 100
    if iNewPos = s.currentPos then .ok s
    else do
      let s := { s with currentPos := iNewPos }
      if panelHidden then .ok s
      else do
        moveThumb t s iNewPos
        .ok s

/-- The end of a drag, in `Transition`. -/
def endDrag (t : SliderTheme) (s : SliderControl) : Except SliderFault SliderControl :=
  if s.eCurrentState ≠ .dragging ∧ s.eLastState = .dragging then do
    let value ← div (s.currentPos * 100) t.range
    .ok { s with originX := -1, value := value }
  else .ok s

/-- What `Transition` does behind the start and the end of a drag. -/
def redraw (t : SliderTheme) (s : SliderControl) (pPos : Pos) :
    Except SliderFault SliderControl := do
  let _ ← div (s.currentPos * t.numThumbStates) t.range
  if s.eCurrentState ≠ .dragging ∧ s.eCurrentState ≠ .disabledMO then blitTrough t s.currentPos
  if s.eCurrentState = .dragging then
    if s.isDrag then handleDrag t s pPos else handleJump t s pPos
  else .ok s

/-- `m_bIsDrag` at the start of a drag. -/
def startDrag (t : SliderTheme) (s : SliderControl) (pPos : Pos) : SliderControl :=
  if s.eCurrentState = .dragging ∧ s.eLastState ≠ .dragging then
    { s with isDrag := onThumb t s pPos }
  else s

def transition (t : SliderTheme) (panelHidden : Bool) (s : SliderControl) (eTrans : ControlTrans)
    (pPos : Pos) : Except SliderFault SliderControl :=
  if s.eCurrentState = .dragging ∧ eTrans = .setValue then .ok s
  else if eTrans = .setValue then setThumb t panelHidden s
  else if panelHidden then .ok s
  else do
    let s ← endDrag t s
    redraw t (startDrag t s pPos) pPos

/-- The change of the state in `AcceptTransition`. -/
def enter (s : SliderControl) (eNextState : ControlState) : SliderControl :=
  { s with eLastState := s.eCurrentState, eCurrentState := eNextState }

def acceptTransition (t : SliderTheme) (panelHidden : Bool) (s : SliderControl)
    (eTrans : ControlTrans) (pPos : Pos) : Except SliderFault SliderControl :=
  match transitions.find? fun i => decide (i.1 = none ∨ i.1 = some s.eCurrentState) &&
      decide (i.2.1 = eTrans) with
  | none => .ok s
  | some (_, _, none) => transition t panelHidden s eTrans pPos
  | some (_, _, some eNextState) =>
    transition t panelHidden (enter s eNextState) eTrans pPos

/-- What is done to a slider. -/
inductive Action where
  | setIntValue (iValue : Int)
  | accept (eTrans : ControlTrans) (pPos : Pos)
  deriving DecidableEq, Repr

/-- `IntValue` with a value to set, and `AcceptTransition`; the panel may be hidden. -/
def step (t : SliderTheme) (s : SliderControl) : Bool × Action → Except SliderFault SliderControl
  | (panelHidden, .setIntValue iValue) =>
    if s.value ≠ iValue then
      acceptTransition t panelHidden { s with value := iValue } .setValue ⟨0, 0⟩
    else .ok s
  | (panelHidden, .accept eTrans pPos) => acceptTransition t panelHidden s eTrans pPos

/-- The constructor, and `Init`. -/
def init (t : SliderTheme) (panelHidden : Bool) : Except SliderFault SliderControl :=
  transition t panelHidden ⟨.normal, .lastState, 0, -1, -1, false⟩ .none ⟨0, 0⟩

/-- A slider from its start. -/
def run (t : SliderTheme) (panelHidden : Bool) (as : List (Bool × Action)) :
    Except SliderFault SliderControl := do
  let s ← init t panelHidden
  as.foldlM (step t) s

/-! ## Without a division by zero -/

/-- The thumb is narrower than the trough, the notch is not behind its end, and a bitmap of the
trough has frames. -/
structure Fits (t : SliderTheme) : Prop where
  range : 0 < t.range
  notch : t.notchPercent ≤ 100
  trough : ∀ frames ∈ t.trough, frames.1 ≠ 0

theorem div_ok {a b : Int} (h : b ≠ 0) : div a b = .ok (a.tdiv b) := if_neg h

variable {t : SliderTheme}

theorem Fits.range_ne (h : Fits t) : t.range ≠ 0 := Int.ne_of_gt h.range

theorem blitTrough_ok (h : Fits t) (iPos : Int) : blitTrough t iPos = .ok () := by
  unfold blitTrough
  cases htrough : t.trough with
  | none => rfl
  | some frames =>
    have hframes : frames.1 ≠ 0 := h.trough frames htrough
    dsimp only
    rw [div_ok h.range_ne, ok_bind, div_ok hframes, ok_bind]

theorem moveThumb_ok (h : Fits t) (s : SliderControl) (iNewPos : Int) :
    moveThumb t s iNewPos = .ok () := by
  unfold moveThumb
  rw [div_ok h.range_ne, ok_bind]
  split
  · exact blitTrough_ok h iNewPos
  · rfl

/-! ## Positions -/

/-- A position between the ends of the trough. -/
def clamp (t : SliderTheme) (iNewPos : Int) : Int := min (max iNewPos 0) t.range

/-- Where a jump puts the thumb. -/
def jumpPos (t : SliderTheme) (x : Int) : Int := clamp t (x - t.x1 - t.thumbWidth.tdiv 2)

/-- Where a drag puts it, before the notch draws it. -/
def dragPos (t : SliderTheme) (x : Int) : Int := clamp t (t.range - (t.x2 - x))

/-- The position is in the trough. -/
def Inside (t : SliderTheme) (iPos : Int) : Prop := 0 ≤ iPos ∧ iPos ≤ t.range

theorem clamp_inside (h : Fits t) (iNewPos : Int) : Inside t (clamp t iNewPos) := by
  have hrange := h.range
  unfold Inside clamp
  omega

theorem clamp_mono {a b : Int} (h : a ≤ b) : clamp t a ≤ clamp t b := by
  unfold clamp
  omega

theorem percent_inside (h : Fits t) {percent : Int} (hlow : 0 ≤ percent) (hhigh : percent ≤ 100) :
    Inside t ((t.range * percent).tdiv 100) := by
  have hrange := h.range
  have hprod : 0 ≤ t.range * percent := Int.mul_nonneg (by omega) hlow
  have hle : t.range * percent ≤ t.range * 100 := Int.mul_le_mul_of_nonneg_left hhigh (by omega)
  unfold Inside
  rw [Int.tdiv_eq_ediv_of_nonneg hprod]
  omega

theorem snap_inside (h : Fits t) {iNewPos : Int} (hin : Inside t iNewPos) :
    Inside t (snap t iNewPos) := by
  unfold snap
  dsimp only
  split
  · split
    · exact percent_inside h (by omega) h.notch
    · exact hin
  · exact hin

theorem snap_mono {a b : Int} (h : a ≤ b) : snap t a ≤ snap t b := by
  unfold snap
  dsimp only
  generalize (t.range * t.notchPercent).tdiv 100 = iNotch
  generalize t.halfNotch = half
  split
  · split <;> split <;> omega
  · exact h

/-- The part of a range at a position in it, in percent. -/
theorem value_inside (h : Fits t) {iPos : Int} (hin : Inside t iPos) :
    0 ≤ (iPos * 100).tdiv t.range ∧ (iPos * 100).tdiv t.range ≤ 100 := by
  obtain ⟨hlow, hhigh⟩ := hin
  have hrange := h.range
  rw [Int.tdiv_eq_ediv_of_nonneg (by omega)]
  refine ⟨Int.ediv_nonneg (by omega) (by omega), ?_⟩
  rw [Int.ediv_le_iff_le_mul hrange]
  omega

/-! ## What the user does -/

/-- The thumb is not within the width of the notch, unless it is in the notch. -/
def Settled (t : SliderTheme) (s : SliderControl) : Prop := snap t s.currentPos = s.currentPos

/-- Where a drag moves the thumb. -/
def dragTo (t : SliderTheme) (s : SliderControl) (x : Int) : Int :=
  if s.originX = -1 ∨ x < 0 ∨ dragPos t x = s.currentPos then s.currentPos
  else snap t (dragPos t x)

/-- A movement by the user: a new position comes with its value. -/
structure Moved (t : SliderTheme) (s s' : SliderControl) : Prop where
  inside : Inside t s.currentPos → Inside t s'.currentPos
  value : (s'.currentPos = s.currentPos ∧ s'.value = s.value) ∨
    s'.value = (s'.currentPos * 100).tdiv t.range
  state : s'.eCurrentState = s.eCurrentState

theorem handleJump_moves (h : Fits t) (s : SliderControl) (p : Pos) :
    ∃ s', handleJump t s p = .ok s' ∧ Moved t s s' ∧ s'.currentPos = jumpPos t p.x := by
  have hin := clamp_inside h (p.x - t.x1 - t.thumbWidth.tdiv 2)
  unfold handleJump
  dsimp only
  split
  · rename_i hsame
    exact ⟨s, rfl, ⟨fun hs => hs, .inl ⟨rfl, rfl⟩, rfl⟩, hsame.symm⟩
  · rw [div_ok h.range_ne, ok_bind, moveThumb_ok h, ok_bind]
    exact ⟨_, rfl, ⟨fun _ => hin, .inr rfl, rfl⟩, rfl⟩

theorem handleDrag_moves (h : Fits t) (s : SliderControl) (p : Pos) :
    ∃ s', handleDrag t s p = .ok s' ∧ Moved t s s' ∧ s'.currentPos = dragTo t s p.x := by
  have hin := snap_inside h (clamp_inside h (t.range - (t.x2 - p.x)))
  unfold handleDrag dragTo
  dsimp only
  split
  · rename_i hfirst
    rw [if_pos (.inl hfirst)]
    exact ⟨_, rfl, ⟨fun hs => hs, .inl ⟨rfl, rfl⟩, rfl⟩, rfl⟩
  · rename_i hfirst
    split
    · rename_i hleft
      rw [if_pos (.inr (.inl hleft))]
      exact ⟨s, rfl, ⟨fun hs => hs, .inl ⟨rfl, rfl⟩, rfl⟩, rfl⟩
    · rename_i hleft
      split
      · rename_i hsame
        rw [if_pos (.inr (.inr hsame))]
        exact ⟨s, rfl, ⟨fun hs => hs, .inl ⟨rfl, rfl⟩, rfl⟩, rfl⟩
      · rename_i hsame
        have hmoves : ¬ (s.originX = -1 ∨ p.x < 0 ∨ dragPos t p.x = s.currentPos) := by
          rintro (hz | hz | hz)
          exacts [hfirst hz, hleft hz, hsame hz]
        rw [if_neg hmoves, div_ok h.range_ne, ok_bind, moveThumb_ok h, ok_bind]
        exact ⟨_, rfl, ⟨fun _ => hin, .inr rfl, rfl⟩, rfl⟩

/-- Where a mouse event leaves the thumb; the state is the one behind the transition. -/
def userPos (t : SliderTheme) (panelHidden : Bool) (s : SliderControl) (p : Pos) : Int :=
  if panelHidden = true ∨ s.eCurrentState ≠ .dragging then s.currentPos
  else if (startDrag t s p).isDrag = true then dragTo t s p.x
  else jumpPos t p.x

theorem Moved.refl (s : SliderControl) : Moved t s s := ⟨fun hs => hs, .inl ⟨rfl, rfl⟩, rfl⟩

theorem redraw_idle (h : Fits t) {s : SliderControl} (hidle : s.eCurrentState ≠ .dragging)
    (p : Pos) : redraw t s p = .ok s := by
  unfold redraw
  rw [div_ok h.range_ne, ok_bind, if_neg hidle]
  split
  · rw [blitTrough_ok h, ok_bind]
  · rfl

theorem redraw_moves (h : Fits t) {s : SliderControl} (hdrag : s.eCurrentState = .dragging)
    (p : Pos) : ∃ s', redraw t s p = .ok s' ∧ Moved t s s' ∧
      s'.currentPos = if s.isDrag = true then dragTo t s p.x else jumpPos t p.x := by
  unfold redraw
  rw [div_ok h.range_ne, ok_bind, if_neg fun hz => hz.1 hdrag, if_pos hdrag]
  cases hcase : s.isDrag with
  | true => exact handleDrag_moves h s p
  | false => exact handleJump_moves h s p

/-- The start of a drag changes nothing but what it is a drag of. -/
theorem startDrag_same (s : SliderControl) (p : Pos) :
    (startDrag t s p).eCurrentState = s.eCurrentState ∧
      (startDrag t s p).currentPos = s.currentPos ∧ (startDrag t s p).value = s.value ∧
      (startDrag t s p).originX = s.originX := by
  unfold startDrag
  split <;> exact ⟨rfl, rfl, rfl, rfl⟩

theorem endDrag_moves (h : Fits t) {s : SliderControl} (hidle : s.eCurrentState ≠ .dragging) :
    ∃ s', endDrag t s = .ok s' ∧ Moved t s s' ∧ s'.currentPos = s.currentPos ∧
      s'.eCurrentState = s.eCurrentState ∧
      (s.eLastState = .dragging → s'.value = (s'.currentPos * 100).tdiv t.range) := by
  unfold endDrag
  split
  · rw [div_ok h.range_ne, ok_bind]
    exact ⟨_, rfl, ⟨fun hs => hs, .inr rfl, rfl⟩, rfl, rfl, fun _ => rfl⟩
  · rename_i hend
    exact ⟨s, rfl, .refl s, rfl, rfl, fun hlast => absurd ⟨hidle, hlast⟩ hend⟩

/-- A drag has been ended. -/
def Released (panelHidden : Bool) (s : SliderControl) : Prop :=
  panelHidden = false ∧ s.eCurrentState ≠ .dragging ∧ s.eLastState = .dragging

theorem transition_moves (h : Fits t) (panelHidden : Bool) (s : SliderControl)
    {eTrans : ControlTrans} (hne : eTrans ≠ .setValue) (p : Pos) :
    ∃ s', transition t panelHidden s eTrans p = .ok s' ∧ Moved t s s' ∧
      s'.currentPos = userPos t panelHidden s p ∧
      (Released panelHidden s → s'.value = (s'.currentPos * 100).tdiv t.range) := by
  unfold transition
  rw [if_neg fun hset => hne hset.2, if_neg hne]
  cases panelHidden with
  | true =>
    refine ⟨s, rfl, .refl s, (if_pos (.inl rfl)).symm, fun hreleased => ?_⟩
    cases hreleased.1
  | false =>
    rw [if_neg (by decide)]
    by_cases hdrag : s.eCurrentState = .dragging
    · have hend : endDrag t s = .ok s := if_neg fun hz => hz.1 hdrag
      obtain ⟨hstate, hpos, hvalue, horigin⟩ := startDrag_same (t := t) s p
      obtain ⟨s', hrun, hmoved, hto⟩ := redraw_moves h (hstate.trans hdrag) p
      have huser : userPos t false s p =
          if (startDrag t s p).isDrag = true then dragTo t s p.x else jumpPos t p.x :=
        if_neg (by rintro (hz | hz); exacts [absurd hz (by decide), hz hdrag])
      have hdragTo : dragTo t (startDrag t s p) p.x = dragTo t s p.x := by
        unfold dragTo
        rw [hpos, horigin]
      rw [hend, ok_bind]
      refine ⟨s', hrun, ⟨fun hin => hmoved.inside (hpos ▸ hin), ?_, hmoved.state.trans hstate⟩,
        ?_, fun hreleased => ?_⟩
      · rw [← hpos, ← hvalue]
        exact hmoved.value
      · rw [hto, huser, hdragTo]
      · exact absurd hdrag hreleased.2.1
    · obtain ⟨s₁, hend, hmoved, hpos, hstate, hvalue⟩ := endDrag_moves h hdrag
      have hidle : s₁.eCurrentState ≠ .dragging := by rwa [hstate]
      have hstart : startDrag t s₁ p = s₁ := if_neg fun hz => hidle hz.1
      rw [hend, ok_bind, hstart, redraw_idle h hidle]
      exact ⟨s₁, rfl, hmoved, hpos.trans (if_pos (.inr hdrag)).symm,
        fun hreleased => hvalue hreleased.2.2⟩

/-! ## Further right -/

theorem jumpPos_mono {x x' : Int} (h : x ≤ x') : jumpPos t x ≤ jumpPos t x' :=
  clamp_mono (by omega)

theorem dragTo_first {s : SliderControl} (hfirst : s.originX = -1) (x : Int) :
    dragTo t s x = s.currentPos := if_pos (.inl hfirst)

/-- A drag from a settled place moves the thumb to where the mouse is. -/
theorem dragTo_settled {s : SliderControl} (hmoves : s.originX ≠ -1) (hsettled : Settled t s)
    {x : Int} (hx : 0 ≤ x) : dragTo t s x = snap t (dragPos t x) := by
  unfold dragTo
  split
  · rename_i hstays
    rcases hstays with hz | hz | hz
    · exact absurd hz hmoves
    · omega
    · rw [hz]
      exact hsettled.symm
  · rfl

/-- A jump from beside the thumb does not pass over it. -/
theorem jumpPos_beside (h : Fits t) {s : SliderControl} (hin : Inside t s.currentPos) {x : Int}
    (hwidth : 0 ≤ t.thumbWidth) :
    (x < t.x1 + s.currentPos → jumpPos t x ≤ s.currentPos) ∧
      (t.x1 + s.currentPos + t.thumbWidth < x → s.currentPos ≤ jumpPos t x) := by
  obtain ⟨hlow, hhigh⟩ := hin
  have hhalf : t.thumbWidth.tdiv 2 = t.thumbWidth / 2 := Int.tdiv_eq_ediv_of_nonneg hwidth
  unfold jumpPos clamp
  rw [hhalf]
  constructor <;> intro hx <;> omega

theorem onThumb_iff (s : SliderControl) (p : Pos) : onThumb t s p = true ↔
    (t.x1 + s.currentPos ≤ p.x ∧ p.x ≤ t.x1 + s.currentPos + t.thumbWidth) ∧
      t.y1 ≤ p.y ∧ p.y ≤ t.y2 := by
  unfold onThumb
  rw [Bool.and_eq_true, Bool.and_eq_true, Bool.and_eq_true, decide_eq_true_iff,
    decide_eq_true_iff, decide_eq_true_iff, decide_eq_true_iff, and_assoc]

/-- What a mouse event needs, for the positions in reach to be in their order: a drag has been
ended before the next one begins, and goes on inside the window, from a settled place. -/
structure Steady (t : SliderTheme) (s : SliderControl) (p : Pos) : Prop where
  begins : s.eCurrentState ≠ .dragging → s.originX = -1
  moves : s.eCurrentState = .dragging → s.isDrag = true → s.originX ≠ -1 →
    0 ≤ p.x ∧ Settled t s

theorem userPos_mono (h : Fits t) {s : SliderControl} (hin : Inside t s.currentPos)
    {eNextState : ControlState} {panelHidden : Bool} {p p' : Pos} (hp : Steady t s p)
    (hp' : Steady t s p') (hy : p.y = p'.y) (hx : p.x ≤ p'.x) :
    userPos t panelHidden (enter s eNextState) p ≤
      userPos t panelHidden (enter s eNextState) p' := by
  have hto : ∀ x, dragTo t (enter s eNextState) x = dragTo t s x := fun _ => rfl
  unfold userPos
  rw [hto, hto]
  split
  · exact Int.le_refl _
  · rename_i hdrag
    have hnext : eNextState = .dragging := by
      by_contra hz
      exact hdrag (.inr hz)
    subst hnext
    by_cases hlast : s.eCurrentState = .dragging
    · -- a drag or a jump goes on
      have hstart : ∀ q : Pos, (startDrag t (enter s .dragging) q).isDrag = s.isDrag :=
        fun q => by
          unfold startDrag
          rw [if_neg fun hz => hz.2 hlast]
          rfl
      rw [hstart, hstart]
      cases hcase : s.isDrag with
      | false => exact jumpPos_mono hx
      | true =>
        rw [if_pos rfl, if_pos rfl]
        by_cases hfirst : s.originX = -1
        · exact Int.le_of_eq ((dragTo_first hfirst _).trans (dragTo_first hfirst _).symm)
        · obtain ⟨hpos, hsettled⟩ := hp.moves hlast hcase hfirst
          obtain ⟨hpos', -⟩ := hp'.moves hlast hcase hfirst
          rw [dragTo_settled hfirst hsettled hpos, dragTo_settled hfirst hsettled hpos']
          exact snap_mono (clamp_mono (by omega))
    · -- the button is pressed, on the thumb or beside it
      have hfirst := hp.begins hlast
      have hstart : ∀ q : Pos, (startDrag t (enter s .dragging) q).isDrag = onThumb t s q :=
        fun q => by
          unfold startDrag
          rw [if_pos ⟨rfl, hlast⟩]
          rfl
      rw [hstart, hstart, dragTo_first hfirst, dragTo_first hfirst]
      by_cases hon : onThumb t s p = true
      · rw [if_pos hon]
        split
        · exact Int.le_refl _
        · rename_i hoff
          rw [onThumb_iff] at hon hoff
          exact (jumpPos_beside h hin (by omega)).2 (by omega)
      · rw [if_neg hon]
        split
        · rename_i hon'
          rw [onThumb_iff] at hon hon'
          exact (jumpPos_beside h hin (by omega)).1 (by omega)
        · exact jumpPos_mono hx

/-! ## Every run -/

/-- `AcceptTransition` is a transition from one state, or does nothing. -/
theorem accept_cases (t : SliderTheme) (panelHidden : Bool) (s : SliderControl)
    (eTrans : ControlTrans) :
    (∀ p, acceptTransition t panelHidden s eTrans p = .ok s) ∨
      (eTrans = .setValue ∧
        ∀ p, acceptTransition t panelHidden s eTrans p = transition t panelHidden s eTrans p) ∨
      ∃ eNextState, ∀ p, acceptTransition t panelHidden s eTrans p =
        transition t panelHidden (enter s eNextState) eTrans p := by
  have hsame : ∀ i ∈ transitions, i.2.2 = none → i.2.1 = .setValue := by decide
  unfold acceptTransition
  cases hfind : transitions.find? fun i =>
      decide (i.1 = none ∨ i.1 = some s.eCurrentState) && decide (i.2.1 = eTrans) with
  | none => exact .inl fun _ => rfl
  | some i =>
    obtain ⟨eState, eAction, eNext⟩ := i
    cases eNext with
    | none =>
      have hset := hsame _ (List.mem_of_find?_eq_some hfind) rfl
      have hmatch := List.find?_some hfind
      rw [Bool.and_eq_true, decide_eq_true_iff, decide_eq_true_iff] at hmatch
      exact .inr (.inl ⟨hmatch.2 ▸ hset, fun _ => rfl⟩)
    | some eNextState => exact .inr (.inr ⟨eNextState, fun _ => rfl⟩)

/-- The position is in the trough, and the value is in its range once it has been set. -/
structure Bounded (t : SliderTheme) (s : SliderControl) : Prop where
  pos : Inside t s.currentPos
  value : s.value = -1 ∨ 0 ≤ s.value ∧ s.value ≤ 100

theorem Moved.bounded (h : Fits t) {s s' : SliderControl} (hmoved : Moved t s s')
    (hs : Bounded t s) : Bounded t s' := by
  have hin := hmoved.inside hs.pos
  refine ⟨hin, ?_⟩
  rcases hmoved.value with ⟨-, hvalue⟩ | hvalue
  · rw [hvalue]
    exact hs.value
  · rw [hvalue]
    exact .inr (value_inside h hin)

theorem setThumb_bounded (h : Fits t) (panelHidden : Bool) {s : SliderControl}
    (hs : Bounded t s) : ∃ s', setThumb t panelHidden s = .ok s' ∧ Bounded t s' := by
  unfold setThumb
  split
  · exact ⟨s, rfl, hs⟩
  · rename_i hvalue
    have hin := percent_inside h (show 0 ≤ s.value by omega) (by omega)
    rw [Int.mul_comm] at hin
    dsimp only
    split
    · exact ⟨s, rfl, hs⟩
    · split
      · exact ⟨_, rfl, hin, hs.value⟩
      · rw [moveThumb_ok h, ok_bind]
        exact ⟨_, rfl, hin, hs.value⟩

theorem transition_bounded (h : Fits t) (panelHidden : Bool) {s : SliderControl}
    (hs : Bounded t s) (eTrans : ControlTrans) (p : Pos) :
    ∃ s', transition t panelHidden s eTrans p = .ok s' ∧ Bounded t s' := by
  by_cases hset : eTrans = .setValue
  · subst hset
    unfold transition
    split
    · exact ⟨s, rfl, hs⟩
    · rw [if_pos rfl]
      exact setThumb_bounded h panelHidden hs
  · obtain ⟨s', hrun, hmoved, -⟩ := transition_moves h panelHidden s hset p
    exact ⟨s', hrun, hmoved.bounded h hs⟩

theorem accept_bounded (h : Fits t) (panelHidden : Bool) {s : SliderControl}
    (hs : Bounded t s) (eTrans : ControlTrans) (p : Pos) :
    ∃ s', acceptTransition t panelHidden s eTrans p = .ok s' ∧ Bounded t s' := by
  rcases accept_cases t panelHidden s eTrans with hnone | ⟨-, hsame⟩ | ⟨eNextState, hnext⟩
  · exact ⟨s, hnone p, hs⟩
  · rw [hsame]
    exact transition_bounded h panelHidden hs eTrans p
  · rw [hnext]
    exact transition_bounded (s := enter s eNextState) h panelHidden ⟨hs.pos, hs.value⟩ eTrans p

/-- The values that are set are percentages. -/
def Proper : Bool × Action → Prop
  | (_, .setIntValue iValue) => 0 ≤ iValue ∧ iValue ≤ 100
  | (_, .accept _ _) => True

theorem step_bounded (h : Fits t) {s : SliderControl} (hs : Bounded t s) {a : Bool × Action}
    (ha : Proper a) : ∃ s', step t s a = .ok s' ∧ Bounded t s' := by
  obtain ⟨panelHidden, action⟩ := a
  cases action with
  | setIntValue iValue =>
    unfold step
    dsimp only
    split
    · exact accept_bounded (s := { s with value := iValue }) h panelHidden ⟨hs.pos, .inr ha⟩
        .setValue _
    · exact ⟨s, rfl, hs⟩
  | accept eTrans p => exact accept_bounded h panelHidden hs eTrans p

/-- What the user does to a slider in this state. -/
structure Behaves (t : SliderTheme) (s : SliderControl) : Prop where
  bounded : Bounded t s
  /-- a movement, and the end of a drag, leave the value that the position has -/
  exact : ∀ panelHidden eTrans p s', eTrans ≠ .setValue →
    acceptTransition t panelHidden s eTrans p = .ok s' →
      s'.currentPos ≠ s.currentPos ∨ (s.eCurrentState = .dragging ∧
        s'.eCurrentState ≠ .dragging ∧ panelHidden = false) →
          s'.value = (s'.currentPos * 100).tdiv t.range
  /-- a mouse position further right does not give a smaller position -/
  mono : ∀ panelHidden eTrans p p' s₁ s₂, eTrans ≠ .setValue → Steady t s p → Steady t s p' →
    p.y = p'.y → p.x ≤ p'.x → acceptTransition t panelHidden s eTrans p = .ok s₁ →
      acceptTransition t panelHidden s eTrans p' = .ok s₂ → s₁.currentPos ≤ s₂.currentPos

theorem behaves_of_bounded (h : Fits t) {s : SliderControl} (hs : Bounded t s) :
    Behaves t s := by
  refine ⟨hs, fun panelHidden eTrans p s' hne hrun hmoves => ?_, ?_⟩
  · rcases accept_cases t panelHidden s eTrans with hnone | ⟨hset, -⟩ | ⟨eNextState, hnext⟩
    · obtain rfl := Except.ok.inj ((hnone p).symm.trans hrun)
      rcases hmoves with hpos | ⟨hdrag, hidle, -⟩
      · exact absurd rfl hpos
      · exact absurd hdrag hidle
    · exact absurd hset hne
    · rw [hnext] at hrun
      obtain ⟨s₁, hrun₁, hmoved, -, hreleased⟩ :=
        transition_moves h panelHidden (enter s eNextState) hne p
      obtain rfl := Except.ok.inj (hrun₁.symm.trans hrun)
      rcases hmoves with hpos | ⟨hdrag, hidle, hshown⟩
      · rcases hmoved.value with ⟨hsame, -⟩ | hvalue
        · exact absurd hsame hpos
        · exact hvalue
      · exact hreleased ⟨hshown, hmoved.state ▸ hidle, hdrag⟩
  · intro panelHidden eTrans p p' s₁ s₂ hne hp hp' hy hx hrun₁ hrun₂
    rcases accept_cases t panelHidden s eTrans with hnone | ⟨hset, -⟩ | ⟨eNextState, hnext⟩
    · obtain rfl := Except.ok.inj ((hnone p).symm.trans hrun₁)
      obtain rfl := Except.ok.inj ((hnone p').symm.trans hrun₂)
      exact Int.le_refl _
    · exact absurd hset hne
    · rw [hnext] at hrun₁ hrun₂
      obtain ⟨t₁, hok₁, -, hpos₁, -⟩ :=
        transition_moves h panelHidden (enter s eNextState) hne p
      obtain ⟨t₂, hok₂, -, hpos₂, -⟩ :=
        transition_moves h panelHidden (enter s eNextState) hne p'
      obtain rfl := Except.ok.inj (hok₁.symm.trans hrun₁)
      obtain rfl := Except.ok.inj (hok₂.symm.trans hrun₂)
      rw [hpos₁, hpos₂]
      exact userPos_mono h hs.pos hp hp' hy hx

/-- A slider of 100 points with a notch in its middle. -/
def wideSlider : SliderTheme := ⟨0, 100, 0, 10, 20, 1, 50, 6, none⟩

end FreeAmp.Ui.Slider
