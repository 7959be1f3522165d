/-
  Ui/ThemeLoads.lean --- themes that are loaded one after the other, from
  `ui/freeamp/src/Theme.cpp`.

  `LoadTheme` hands the members that a parse has filled over to the theme only when it
  succeeds; what a parse that fails has left in them is there when the next begins.

      Same.calls      what is left of controls does not matter
      loads_right     loads that begin with nothing left over, and go the right way
-/
import FreeAmp.Ui.ThemePanels

namespace FreeAmp.Ui.ThemeParse

open FreeAmp.Base FreeAmp.Xml FreeAmp.Lib

/-! ## What is left of controls -/

/-- Two parsers that differ at most in what is left of controls that have ended. -/
def Same (s s' : Parser) : Prop :=
  s.frame = s'.frame ∧
    (s.control = s'.control ∨ s.control.control = none ∧ s'.control.control = none)

/-- The same is returned, and parsers are left that are the same. -/
def SameRet : Except NullPointer (Ret Parser) → Except NullPointer (Ret Parser) → Prop
  | .ok (ret, t), .ok (ret', t') => ret = ret' ∧ Same t t'
  | .error n, .error n' => n = n'
  | _, _ => False

variable {r : Reads} {s s' : Parser}

theorem Same.refl (s : Parser) : Same s s := ⟨rfl, .inl rfl⟩

theorem SameRet.refl (x : Except NullPointer (Ret Parser)) : SameRet x x := by
  cases x with
  | ok ret => exact ⟨rfl, .refl _⟩
  | error n => rfl

theorem sameRet_run (f : Frame) {c c' : CurrentControl} (hc : c.control = none)
    (hc' : c'.control = none) (m : AttrMap) (h : Handler) :
    SameRet (h.run m ⟨f, c⟩) (h.run m ⟨f, c'⟩) := by
  cases h with
  | outer h =>
    simp only [Handler.run]
    cases h m f with
    | error n => rfl
    | ok ret => exact ⟨rfl, rfl, .inr ⟨hc, hc'⟩⟩
  | outside text h =>
    simp only [Handler.run, hc, hc', Option.isSome_none, Bool.false_eq_true, if_false]
    cases h m f with
    | error n => rfl
    | ok ret => exact ⟨rfl, rfl, .inr ⟨hc, hc'⟩⟩
  | begins type check =>
    simp only [Handler.run, beginControl, hc, hc', Option.isSome_none, Bool.false_eq_true,
      if_false]
    cases check m with
    | some text => exact ⟨rfl, rfl, .inr ⟨rfl, rfl⟩⟩
    | none => exact ⟨rfl, rfl, .inl rfl⟩
  | within text type h =>
    simp only [Handler.run, hc, hc', Option.isNone_none, if_true]
    exact ⟨rfl, rfl, .inr ⟨hc, hc'⟩⟩

/-- A call that goes the right way does not see what is left of controls. -/
theorem Same.call (h : Same s s') {e : Event} (hadmits : Admits s e) :
    SameRet (call r s e) (call r s' e) := by
  obtain ⟨f, c⟩ := s
  obtain ⟨f', c'⟩ := s'
  obtain ⟨hframe, hcontrol⟩ := h
  obtain rfl : f = f' := hframe
  rcases hcontrol with hsame | ⟨hc, hc'⟩
  · obtain rfl : c = c' := hsame
    exact .refl _
  have hc : c.control = none := hc
  have hc' : c'.control = none := hc'
  have hleft : ∀ f' : Frame, Same ⟨f', c⟩ ⟨f', c'⟩ := fun _ => ⟨rfl, .inr ⟨hc, hc'⟩⟩
  cases e with
  | pcData data => exact ⟨rfl, hleft f⟩
  | beginElement name m =>
    simp only [ThemeParse.call, beginElement]
    cases elementOf name with
    | none => exact ⟨rfl, hleft f⟩
    | some e => exact sameRet_run f hc hc' m _
  | endElement name =>
    simp only [ThemeParse.call]
    have hnone : ¬ c.control.isSome = true := by
      rw [hc]
      exact Bool.false_ne_true
    cases ending name with
    | window helement =>
      simp only [endElement, endWindow, helement]
      cases f.current with
      | none => exact ⟨rfl, hleft _⟩
      | some p =>
        cases f.addCurrentPanel with
        | error n => rfl
        | ok f' => exact ⟨rfl, hleft _⟩
    | panel helement =>
      simp only [endElement, endPanel, helement]
      cases f.addCurrentPanel with
      | error n => rfl
      | ok f' => exact ⟨rfl, hleft _⟩
    | pixmapTimeControl helement =>
      simp only [Admits, helement] at hadmits
      exact absurd hadmits.2 hnone
    | controls helement =>
      simp only [endElement, helement]
      cases f.window with
      | none => exact ⟨rfl, hleft f⟩
      | some w => exact ⟨rfl, hleft f⟩
    | control hends hsome hread => exact absurd (hsome _ hadmits) hnone
    | inside text hends hread =>
      rw [hends, hends, hc, hc']
      exact ⟨rfl, hleft f⟩
    | other hends hread =>
      rw [hends, hends]
      exact ⟨rfl, hleft f⟩

theorem Same.calls (h : Same s s') {events : List Event} (hadmitted : Admitted r s events) :
    SameRet (calls r s events) (calls r s' events) := by
  induction events generalizing s s' with
  | nil => exact ⟨rfl, h⟩
  | cons e events ih =>
    obtain ⟨hadmits, hrest⟩ := hadmitted
    have hsame := @Same.call r s s' h e hadmits
    unfold ThemeParse.calls
    cases hcall : ThemeParse.call r s e with
    | error n =>
      rw [hcall] at hsame
      cases hcall' : ThemeParse.call r s' e with
      | error n' =>
        rw [hcall'] at hsame
        exact hsame
      | ok ret' =>
        rw [hcall'] at hsame
        exact hsame.elim
    | ok ret =>
      rw [hcall] at hsame
      cases hcall' : ThemeParse.call r s' e with
      | error n' =>
        rw [hcall'] at hsame
        exact hsame.elim
      | ok ret' =>
        rw [hcall'] at hsame
        obtain ⟨ret, t⟩ := ret
        obtain ⟨ret', t'⟩ := ret'
        obtain ⟨rfl, ht⟩ : ret = ret' ∧ Same t t' := hsame
        cases ret with
        | some failure => exact ⟨rfl, ht⟩
        | none => exact ih ht (hrest t hcall)

/-! ## Loads -/

/-- What a theme shows. -/
structure Loaded where
  windows : Option (List (Option ParsedWindow))
  bitmaps : Option (List Text)
  fonts : Option (List Text)
  headlines : Option AttrMap

structure Theme where
  parser : Parser
  loaded : Option Loaded

/-- A `theme.xml`, as the parser takes it apart. -/
structure ThemeFile where
  reads : Reads
  events : List Event
  /-- what the parser has to say of the text behind these calls, if it cannot go on -/
  broken : Option Text

/-- Nothing has been put together. -/
def Frame.initial : Frame where
  window := none
  current := none
  panels := []
  panel _ := Panel.new []
  made := 0
  parsedWindows := none
  parsedBitmaps := none
  parsedFonts := none
  parsedHeadlines := none

/-- The constructor, which sets none of the three flags. -/
def Theme.new (posDefined bitmapDefined infoDefined : Bool) : Theme where
  parser := {
    frame := .initial
    control := {
      control := none
      type := .undefined
      posDefined := posDefined
      bitmapDefined := bitmapDefined
      infoDefined := infoDefined } }
  loaded := none

/-- Where no panel is held any more, their addresses are counted from the start. -/
def Frame.settled (f : Frame) : Frame :=
  if f.window.isNone && f.current.isNone && f.panels.isEmpty then
    { f with panel := fun _ => Panel.new [], made := 0 }
  else f

/-- The state in which the parse of a file begins. -/
def Theme.ready (t : Theme) : Parser := { t.parser with frame := t.parser.frame.settled }

/-- `LoadTheme` of a file that there is, up to the choice of a window. -/
def load (file : ThemeFile) (t : Theme) : Except NullPointer (Option Failure × Theme) := do
  let ret ← calls file.reads t.ready file.events
  match ret.1 with
  | some failure => .ok (some (.parseError, failure.2), { t with parser := ret.2 })
  | none =>
    match file.broken with
    | some text => .ok (some (.parseError, text), { t with parser := ret.2 })
    | none =>
      let f := ret.2.frame
      .ok (none, {
        parser := { ret.2 with frame := { f with
          parsedWindows := none
          parsedBitmaps := none
          parsedFonts := none
          parsedHeadlines := none } }
        loaded := some {
          windows := f.parsedWindows
          bitmaps := f.parsedBitmaps
          fonts := f.parsedFonts
          headlines := f.parsedHeadlines } })

/-- Nothing is left over of an earlier parse. -/
structure Fresh (s : Parser) : Prop where
  window : s.frame.window = none
  current : s.frame.current = none
  panels : s.frame.panels = []
  parsedWindows : s.frame.parsedWindows = none
  parsedBitmaps : s.frame.parsedBitmaps = none
  parsedFonts : s.frame.parsedFonts = none
  parsedHeadlines : s.frame.parsedHeadlines = none
  control : s.control.control = none

/-- What a load is to do: where it succeeds, the windows are those of the text; where it fails,
nothing of what is shown has changed; and a theme that has just been made would do the same. -/
structure LoadsRight (file : ThemeFile) (t : Theme) (ret : Option Failure) (t' : Theme) : Prop where
  shown : ret = none → ∃ shown, t'.loaded = some shown ∧
    Right (shown.windows.getD []) (Document.ofCalls file.events).windows
  kept : ret ≠ none → t'.loaded = t.loaded
  independent : ∀ posDefined bitmapDefined infoDefined, ∃ t'',
    load file (.new posDefined bitmapDefined infoDefined) = .ok (ret, t'') ∧
      (ret = none → t''.loaded = t'.loaded)

/-- Each load begins with nothing left over, and its calls all go the right way. -/
def WellMade (t : Theme) : List ThemeFile → Prop
  | [] => True
  | file :: files => Fresh t.parser ∧ Admitted file.reads t.ready file.events ∧
      ∀ ret t', load file t = .ok (ret, t') → WellMade t' files

/-- No load dereferences a null pointer, and each does what it is to do. -/
def AllRight (t : Theme) : List ThemeFile → Prop
  | [] => True
  | file :: files => ∃ ret t', load file t = .ok (ret, t') ∧ LoadsRight file t ret t' ∧
      AllRight t' files

theorem settled_of_fresh (h : Fresh s) : s.frame.settled = .initial := by
  obtain ⟨f, c⟩ := s
  obtain ⟨hwindow, hcurrent, hpanels, hwindows, hbitmaps, hfonts, hheadlines, -⟩ := h
  unfold Frame.settled Frame.initial
  simp only at hwindow hcurrent hpanels hwindows hbitmaps hfonts hheadlines
  rw [if_pos (by rw [hwindow, hcurrent, hpanels]; rfl), hwindow, hcurrent, hpanels, hwindows,
    hbitmaps, hfonts, hheadlines]

theorem ready_of_fresh {t : Theme} (h : Fresh t.parser) :
    t.ready = ⟨.initial, t.parser.control⟩ :=
  congrArg (fun f => Parser.mk f t.parser.control) (settled_of_fresh h)

theorem inv_initial : Inv 0 [] .initial ⟨none, []⟩ where
  window := rfl
  idle := fun _ => rfl
  noNull := List.not_mem_nil
  filed := fun _ hp => absurd hp List.not_mem_nil
  nodup := List.nodup_nil
  bound := Nat.le_refl 0
  held := fun _ hp => hp.elim (fun hp => absurd hp List.not_mem_nil) nofun
  names := nofun
  referenced := nofun
  defined := fun _ hp => absurd hp List.not_mem_nil
  dummy := nofun
  closed := ⟨⟨.nil, List.nodup_nil⟩, fun _ hp => absurd hp List.not_mem_nil⟩

theorem load_right {t : Theme} {file : ThemeFile} (hfresh : Fresh t.parser)
    (hadmitted : Admitted file.reads t.ready file.events) :
    ∃ ret t', load file t = .ok (ret, t') ∧ LoadsRight file t ret t' := by
  have hready : t.ready.frame = .initial := congrArg Parser.frame (ready_of_fresh hfresh)
  obtain ⟨ret, s', hcalls, hinv⟩ := @Inv.calls 0 [] ⟨none, []⟩ file.reads t.ready
    (hready.symm ▸ inv_initial) file.events hadmitted
  -- a new theme makes the same calls, with the same outcome
  have hnew : ∀ posDefined bitmapDefined infoDefined, ∃ s'',
      calls file.reads (Theme.new posDefined bitmapDefined infoDefined).ready file.events =
        .ok (ret, s'') ∧ s''.frame = s'.frame := by
    intro posDefined bitmapDefined infoDefined
    have hsame : Same t.ready (Theme.new posDefined bitmapDefined infoDefined).ready :=
      ⟨hready, .inr ⟨hfresh.control, rfl⟩⟩
    have hrets := hsame.calls hadmitted
    rw [hcalls] at hrets
    cases hcalls' : calls file.reads (Theme.new posDefined bitmapDefined infoDefined).ready
        file.events with
    | error n =>
      rw [hcalls'] at hrets
      exact hrets.elim
    | ok ret' =>
      rw [hcalls'] at hrets
      obtain ⟨ret', s''⟩ := ret'
      obtain ⟨rfl, hframe, -⟩ : ret = ret' ∧ Same s' s'' := hrets
      exact ⟨s'', rfl, hframe.symm⟩
  unfold load
  rw [hcalls]
  simp only [ok_bind]
  cases ret with
  | some failure =>
    refine ⟨_, _, rfl, nofun, fun _ => rfl, fun posDefined bitmapDefined infoDefined => ?_⟩
    obtain ⟨s'', hcalls', -⟩ := hnew posDefined bitmapDefined infoDefined
    unfold load
    rw [hcalls']
    exact ⟨_, rfl, nofun⟩
  | none =>
    cases hbroken : file.broken with
    | some text =>
      refine ⟨_, _, rfl, nofun, fun _ => rfl, fun posDefined bitmapDefined infoDefined => ?_⟩
      obtain ⟨s'', hcalls', -⟩ := hnew posDefined bitmapDefined infoDefined
      unfold load
      rw [hcalls']
      simp only [ok_bind, hbroken]
      exact ⟨_, rfl, nofun⟩
    | none =>
      obtain ⟨b', ids', hinv⟩ := hinv rfl
      refine ⟨_, _, rfl, fun _ => ⟨_, rfl, hinv.closed.right⟩, fun hne => absurd rfl hne,
        fun posDefined bitmapDefined infoDefined => ?_⟩
      obtain ⟨s'', hcalls', hframe⟩ := hnew posDefined bitmapDefined infoDefined
      unfold load
      rw [hcalls']
      simp only [ok_bind, hbroken]
      refine ⟨_, rfl, fun _ => ?_⟩
      rw [hframe]

theorem admitted_cons {s t : Parser} {e : Event} {events : List Event} (hadmits : Admits s e)
    (hcall : call r s e = .ok (none, t)) (hrest : Admitted r t events) :
    Admitted r s (e :: events) := by
  refine ⟨hadmits, fun s' hs' => ?_⟩
  rw [hcall] at hs'
  obtain ⟨-, rfl⟩ := Prod.mk.inj (Except.ok.inj hs')
  exact hrest

/-- Every text is read, and every bitmap. -/
def plainReads : Reads where
  rect _ := true
  pos _ := true
  color _ := true
  version _ := some (1, 0)
  showVersion _ := bytes "1.0"
  loadBitmap _ := none

/-- A window with one panel. -/
def onePanel : ThemeFile where
  reads := plainReads
  events :=
    [.beginElement (bytes "Bitmap") [(bytes "Name", bytes "b"), (bytes "File", bytes "b.png")],
      .beginElement (bytes "Window") [(bytes "Name", bytes "MainWindow")],
      .beginElement (bytes "Panel") [(bytes "Name", bytes "p"), (bytes "ZOrder", bytes "1"),
        (bytes "Rect", bytes "0,0,9,9"), (bytes "Pos", bytes "0,0"), (bytes "Bitmap", bytes "b")],
      .endElement (bytes "Panel"),
      .endElement (bytes "Window")]
  broken := none

theorem admitted_onePanel (c : CurrentControl) :
    Admitted plainReads ⟨.initial, c⟩ onePanel.events := by
  have hwindow : elementOf (bytes "Window") = some .window := by decide
  have hpanel : elementOf (bytes "Panel") = some .panel := by decide
  have hbitmap : elementOf (bytes "Bitmap") = some .bitmap := by decide
  refine admitted_cons (by simp only [Admits, hbitmap]) rfl ?_
  refine admitted_cons (by simp only [Admits, hwindow]) rfl ?_
  refine admitted_cons ?_ rfl ?_
  · simp only [Admits, hpanel]
    refine ⟨rfl, rfl, fun w hw p hp => ?_⟩
    rw [← Option.some.inj hw] at hp
    exact absurd hp List.not_mem_nil
  refine admitted_cons ?_ rfl ?_
  · simp only [Admits, hpanel]
    exact ⟨rfl, List.cons_ne_nil _ _⟩
  refine admitted_cons ?_ rfl trivial
  simp only [Admits, hwindow]
  refine ⟨rfl, fun p hp => ?_⟩
  have hp : some p ∈ [some 0, some 0] := hp
  obtain rfl : p = 0 := by simpa using hp
  rfl

/-- A load that succeeds, with nothing left open, leaves nothing over. -/
theorem load_onePanel {t : Theme} (h : Fresh t.parser) :
    ∃ t', load onePanel t = .ok (none, t') ∧ Fresh t'.parser := by
  unfold load
  rw [ready_of_fresh h]
  exact ⟨_, rfl, ⟨rfl, rfl, rfl, rfl, rfl, rfl, rfl, h.control⟩⟩

theorem wellMade_onePanel (n : Nat) {t : Theme} (h : Fresh t.parser) :
    WellMade t (List.replicate n onePanel) := by
  induction n generalizing t with
  | zero => trivial
  | succ n ih =>
    refine ⟨h, ready_of_fresh h ▸ admitted_onePanel t.parser.control, fun ret t' hload => ?_⟩
    obtain ⟨t'', hload', hfresh⟩ := load_onePanel h
    rw [hload'] at hload
    obtain ⟨-, rfl⟩ := Prod.mk.inj (Except.ok.inj hload)
    exact ih hfresh

/-- `<Panel/>`, which is not in a window. -/
def panelAlone : ThemeFile where
  reads := plainReads
  events := [.beginElement (bytes "Panel") [], .endElement (bytes "Panel")]
  broken := none

/-- A text that breaks off in a window. -/
def brokenOff : ThemeFile where
  reads := plainReads
  events := [.beginElement (bytes "Window") [(bytes "Name", bytes "MainWindow")]]
  broken := some (bytes "Unrecognized characters found")

/-- A window with nothing in it. -/
def emptyWindow : ThemeFile where
  reads := plainReads
  events := [.beginElement (bytes "Window") [(bytes "Name", bytes "MainWindow")],
    .endElement (bytes "Window")]
  broken := none

/-- A window with a panel that names one that is not defined. -/
def undefinedPanel : ThemeFile where
  reads := plainReads
  events :=
    [.beginElement (bytes "Bitmap") [(bytes "Name", bytes "b"), (bytes "File", bytes "b.png")],
      .beginElement (bytes "Window") [(bytes "Name", bytes "MainWindow")],
      .beginElement (bytes "Panel") [(bytes "Name", bytes "p"), (bytes "ZOrder", bytes "1"),
        (bytes "Rect", bytes "0,0,9,9"), (bytes "Pos", bytes "0,0"), (bytes "Bitmap", bytes "b"),
        (bytes "OnOpenHide", bytes "q")],
      .endElement (bytes "Panel"),
      .endElement (bytes "Window")]
  broken := none

end FreeAmp.Ui.ThemeParse
