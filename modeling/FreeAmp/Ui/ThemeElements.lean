/-
  Ui/ThemeElements.lean --- the elements of a theme, from `ui/freeamp/src/Theme.cpp`.

  `BeginElement` and `EndElement` are called by the parser for the tags of a text, in whatever
  order these stand: the parser does not compare an end tag with what is open.  Windows,
  panels and controls are put together under three pointers, each of which may be null.

  What a control, a bitmap or a font holds is left out, up to its name; what `sscanf` makes of
  coordinates, colours and versions, and what is read of bitmaps, is a parameter.
-/
import FreeAmp.Xml.Parse

namespace FreeAmp.Ui.ThemeParse

open FreeAmp.Base FreeAmp.Xml

/-! ## What is put together -/

/-- `ControlTypeEnum` -/
inductive ControlType where
  | button
  | dial
  | slider
  | vSlider
  | multiState
  | text
  | pixFont
  | pixTime
  | pixSlider
  | undefined
  deriving DecidableEq, Repr

structure Panel where
  name : Text
  /-- the name of `m_pPanelBitmap` -/
  bitmap : Option Text
  /-- `m_pWindow` is not null -/
  parent : Bool
  deriving DecidableEq, Repr

/-- A panel as it is made. -/
def Panel.new (name : Text) : Panel := { name := name, bitmap := none, parent := false }

/-- A `Window` that is being put together; its panels by their addresses. -/
structure Window where
  name : Text
  /-- the name of the background bitmap of its canvas -/
  background : Option Text
  panels : List (Option Nat)
  deriving DecidableEq, Repr

/-- A window that has been put together.  Nothing leads to its panels any more but itself. -/
structure ParsedWindow where
  name : Text
  panels : List (Option (Nat × Panel))
  deriving DecidableEq, Repr

/-- The members of `Theme` that are not about the current control. -/
structure Frame where
  window : Option Window
  current : Option Nat
  panels : List (Option Nat)
  /-- the panels by their addresses -/
  panel : Nat → Panel
  /-- how many have been made -/
  made : Nat
  parsedWindows : Option (List (Option ParsedWindow))
  /-- `m_pParsedBitmaps`, by their names -/
  parsedBitmaps : Option (List Text)
  /-- `m_pParsedFonts`, by their names -/
  parsedFonts : Option (List Text)
  /-- `m_pParsedHeadlines`, by the attributes it was made from -/
  parsedHeadlines : Option AttrMap

/-- `Control`, where `StyleHasBeenSet` is asked only of a `TextControl`. -/
structure Control where
  name : Text
  styleHasBeenSet : Bool
  deriving DecidableEq, Repr

/-- The members of `Theme` that are about the current control. -/
structure CurrentControl where
  control : Option Control
  type : ControlType
  posDefined : Bool
  bitmapDefined : Bool
  infoDefined : Bool
  deriving DecidableEq, Repr

/-- The members of `Theme` that `BeginElement` and `EndElement` work on. -/
structure Parser where
  frame : Frame
  control : CurrentControl

/-- A null pointer that is dereferenced. -/
inductive NullPointer where
  | currentWindow
  | currentPanel
  | currentControl
  /-- one of the pointers in `m_oPanels` -/
  | panel
  deriving DecidableEq, Repr

/-- An error, and `m_oLastError`. -/
abbrev Failure := Error × Text

/-- What a call that comes to its end leaves: nothing or an error is returned. -/
abbrev Ret (α : Type) := Option Failure × α

/-- `return kError_NoErr` -/
def done {α : Type} (a : α) : Except NullPointer (Ret α) := .ok (none, a)

/-- `m_oLastError = text; return e` -/
def failed {α : Type} (e : Error) (text : Text) (a : α) :
    Except NullPointer (Ret α) := .ok (some (e, text), a)

/-- What is made of texts and files. -/
structure Reads where
  /-- `ParseRect` returns no error -/
  rect : Text → Bool
  /-- `ParsePos` returns no error -/
  pos : Text → Bool
  /-- `ParseColor` returns no error -/
  color : Text → Bool
  /-- `sscanf(text, " %d.%d", ..)`, where both numbers are read -/
  version : Text → Option (Int × Int)
  /-- `"%d.%d"` -/
  showVersion : Int × Int → Text
  /-- `LoadBitmapFromDisk`, of the file that a `File` attribute of the theme names, and
  `GetErrorString` after it -/
  loadBitmap : Text → Option Failure

/-! ## Attributes -/

def value (m : AttrMap) (name : String) : Text := (m.lookup (bytes name)).getD []

/-- `oAttrMap.find(name) != oAttrMap.end()` -/
def has (m : AttrMap) (name : String) : Bool := (m.lookup (bytes name)).isSome

/-- An attribute that a tag needs, and what is said where it is missing. -/
def needs (tag attr : String) : String × Text :=
  (attr, bytes "the <" ++ bytes tag ++ bytes "> tag needs a " ++ bytes attr ++ bytes " attribute")

/-- What is said of the first attribute that is missing. -/
def lacking (m : AttrMap) (needed : List (String × Text)) : Option Text :=
  (needed.find? fun n => !has m n.1).map Prod.snd

/-! ## Panels -/

namespace Frame

/-- A panel is made. -/
def makePanel (f : Frame) (panel : Panel) : Frame :=
  { f with panel := Function.update f.panel f.made panel, made := f.made + 1 }

/-- `new Panel("DummyPanel")`, and its window. -/
def makeDummyPanel (f : Frame) : Frame :=
  { f.makePanel { Panel.new (bytes "DummyPanel") with parent := f.window.isSome } with
    current := some f.made }

def firstPanel (f : Frame) (name : Text) : List (Option Nat) → Except NullPointer (Option Nat)
  | [] => .ok none
  | none :: _ => .error .panel
  | some p :: panels =>
    if (f.panel p).name = name then .ok (some p) else f.firstPanel name panels

def findPanel (f : Frame) (name : Text) : Except NullPointer (Nat × Frame) :=
  match f.current.filter fun p => (f.panel p).name = name with
  | some p => .ok (p, f)
  | none => do
      let found ← f.firstPanel name f.panels
      match found with
      | some p => .ok (p, f)
      -- a forward reference
      | none => .ok (f.made,
          { f.makePanel (.new name) with panels := f.panels ++ [some f.made] })

def findBitmap (f : Frame) (name : Text) : Bool := (f.parsedBitmaps.getD []).contains name

def findFont (f : Frame) (name : Text) : Bool := (f.parsedFonts.getD []).contains name

/-- The panels that the attributes name are found, or made. -/
def findNamed (f : Frame) (m : AttrMap) (attrs : List String) : Except NullPointer Frame :=
  attrs.foldlM (fun f attr =>
    match m.lookup (bytes attr) with
    | none => .ok f
    | some name => do
        let found ← f.findPanel name
        .ok found.2) f

/-- `m_oPanels.push_back(m_pCurrentPanel)`, and `AddPanel`. -/
def addCurrentPanel (f : Frame) : Except NullPointer Frame :=
  match f.window with
  | none => .error .currentWindow
  | some w => .ok { f with
      panels := f.panels ++ [f.current]
      window := some { w with panels := w.panels ++ [f.current] }
      current := none }

/-- A window that has been put together. -/
def parsed (f : Frame) (w : Window) : ParsedWindow :=
  { name := w.name, panels := w.panels.map fun p => p.map fun p => (p, f.panel p) }

end Frame

/-! ## `BeginElement` -/

variable (r : Reads)

/-- `<Version>` -/
def version (m : AttrMap) (f : Frame) : Except NullPointer (Ret Frame) :=
  match r.version (value m "Version") with
  | none => failed .parseError
      (bytes "Improperly formatted version number in the <Version> tag") f
  | some v =>
    if v ≠ (1, 0) then failed .parseError
      (bytes "This ThemeManager cannot use version " ++ r.showVersion v ++ bytes " themes") f
    else done f

/-- `<Bitmap>`; a transparent colour that is not understood is passed over. -/
def bitmap (m : AttrMap) (f : Frame) : Except NullPointer (Ret Frame) :=
  match lacking m [("File", bytes "the <Bitmap> tag needs a File attribute")] with
  | some text => failed .parseError text f
  | none =>
    match r.loadBitmap (value m "File") with
    | some (e, text) =>
      failed e (bytes "Cannot load bitmap " ++ value m "File" ++ bytes ": " ++ text) f
    | none => done { f with
        parsedBitmaps := some (f.parsedBitmaps.getD [] ++ [value m "Name"]) }

/-- `<Font>` -/
def font (m : AttrMap) (f : Frame) : Except NullPointer (Ret Frame) :=
  match lacking m [needs "Font" "Name"] with
  | some text => failed .parseError text f
  | none =>
    if !has m "Face" && !has m "File" then
      failed .parseError (bytes "the <Font> tag needs a Face or File attribute") f
    else done { f with parsedFonts := some (f.parsedFonts.getD [] ++ [value m "Name"]) }

/-- `<Window>` -/
def window (m : AttrMap) (f : Frame) : Except NullPointer (Ret Frame) :=
  if f.window.isSome then failed .invalidParam (bytes "<Window> tags cannot be nested") f
  else
    match lacking m [needs "Window" "Name"] with
    | some text => failed .parseError text f
    | none => done { f with
        window := some { name := value m "Name", background := none, panels := [] } }

/-- `<BackgroundBitmap>` -/
def backgroundBitmap (m : AttrMap) (f : Frame) : Except NullPointer (Ret Frame) :=
  match f.window with
  | none => failed .invalidParam
      (bytes "<BackgroundBitmap> must occur inside of a <Window> tag") f
  | some w =>
    match lacking m [needs "BackgroundBitmap" "Name"] with
    | some text => failed .parseError text f
    | none =>
      if !f.findBitmap (value m "Name") then
        failed .invalidParam (bytes "Undefined bitmap " ++ value m "Name" ++
          bytes "in tag <BackgroundBitmap>") f
      else
        match lacking m [needs "BackgroundBitmap" "Rect"] with
        | some text => failed .parseError text f
        | none =>
          if !r.rect (value m "Rect") then
            failed .invalidParam
              (bytes "Improperly formatted rect coordinates: " ++ value m "Rect") f
          else done { f with window := some { w with background := some (value m "Name") } }

/-- The current panel is given what its tag says. -/
def definePanel (m : AttrMap) (p : Nat) (f : Frame) : Frame :=
  { f with
    current := some p
    panel := Function.update f.panel p
      { f.panel p with bitmap := some (value m "Bitmap"), parent := f.window.isSome } }

/-- The attributes of a panel that name panels. -/
def panelReferences : List String := ["OnCloseHide", "OnCloseShow", "OnOpenHide", "OnOpenShow"]

/-- `<Panel>`; the canvas of the window is asked for before the window is tested. -/
def panel (m : AttrMap) (f : Frame) : Except NullPointer (Ret Frame) :=
  match f.window with
  | none => .error .currentWindow
  | some w =>
    if w.background.isSome then
      failed .invalidParam
        (bytes "Do not use a <BackgroundBitmap> tag in conjunction with a <Panel>.") f
    else
      match lacking m [needs "Panel" "Name", needs "Panel" "ZOrder", needs "Panel" "Rect",
          needs "Panel" "Pos", ("Bitmap", bytes "the <Panel> tag needs a Name attribute")] with
      | some text => failed .parseError text f
      | none =>
        if !f.findBitmap (value m "Bitmap") then
          failed .invalidParam
            (bytes "Undefined bitmap " ++ value m "Name" ++ bytes " in tag <Panel>") f
        else if !r.rect (value m "Rect") then
          failed .invalidParam
            (bytes "Improperly formatted Rect coordinates: " ++ value m "Rect") f
        else if !r.pos (value m "Pos") then
          failed .invalidParam
            (bytes "Improperly formatted Pos coordinates: " ++ value m "Pos") f
        else do
          let found ← f.findPanel (value m "Name")
          let f := definePanel m found.1 found.2
          if has m "TogglePos" && !r.pos (value m "TogglePos") then
            failed .invalidParam
              (bytes "Improperly formatted Pos coordinates: " ++ value m "Pos") f
          else do
            let f ← f.findNamed m panelReferences
            done f

/-- `<Controls>` -/
def controls (f : Frame) : Except NullPointer (Ret Frame) :=
  match f.window with
  | none => failed .invalidParam (bytes "<Controls> must occur inside of a <Window> tag") f
  | some _ =>
    match f.current with
    | none => done f.makeDummyPanel
    | some _ => done f

/-- `<DockPosition>`, where there is no current control. -/
def dockPosition (m : AttrMap) (f : Frame) : Except NullPointer (Ret Frame) :=
  match f.window with
  | none => failed .invalidParam
      (bytes "The <DockPosition> tag must be inside of a <Window> tag") f
  | some _ =>
    match lacking m [needs "DockPosition" "Pos"] with
    | some text => failed .parseError text f
    | none =>
      if !r.pos (value m "Pos") then
        failed .invalidParam
          (bytes "Improperly formatted Pos coordinates: " ++ value m "Pos") f
      else done f

/-- `<Headlines>` -/
def headlines (m : AttrMap) (f : Frame) : Except NullPointer (Ret Frame) :=
  if f.window.isSome then
    failed .invalidParam (bytes "A <Headlines> tag must be outside any <Window> tags.") f
  else if f.parsedHeadlines.isSome then
    failed .invalidParam (bytes "Each theme file can only have one <Headlines> tag.") f
  else
    match lacking m [needs "Headlines" "URL", needs "Headlines" "XMLPath",
        needs "Headlines" "DownloadInterval", needs "Headlines" "ChangeInterval"] with
    | some text => failed .parseError text f
    | none => done { f with parsedHeadlines := some m }

/-- How a control begins: its flags, and where there is none yet its attributes. -/
def beginControl (type : ControlType) (check : AttrMap → Option Text) (m : AttrMap)
    (c : CurrentControl) : Option Failure × CurrentControl :=
  let c := { c with posDefined := false, bitmapDefined := false, infoDefined := false }
  if c.control.isSome then (some (.invalidParam, bytes "Controls cannot be nested"), c)
  else
    match check m with
    | some text => (some (.parseError, text), c)
    | none => (none, { c with
        control := some { name := value m "Name", styleHasBeenSet := false }
        type := type })

/-- `<ButtonControl>` -/
def buttonControl (m : AttrMap) : Option Text :=
  match lacking m [needs "ButtonControl" "Name"] with
  | some text => some text
  | none =>
    if has m "URL" && value m "Name" != bytes "Logo" then
      some (bytes "only the Logo button can have a URL attribute")
    else none

/-- `<Style>`, in a text control -/
def style (m : AttrMap) (c : CurrentControl) (f : Frame) :
    Except NullPointer (Ret (CurrentControl × Frame)) :=
  match lacking m [needs "Style" "Font"] with
  | some text => failed .parseError text (c, f)
  | none =>
    if !f.findFont (value m "Font") then
      failed .invalidParam (bytes "Undefined font " ++ value m "Name" ++ bytes "in tag <Style>")
        (c, f)
    else if has m "Color" && value m "Color" != [] && !r.color (value m "Color") then
      failed .invalidParam (bytes "Improperly formatted color info: " ++ value m "Color") (c, f)
    else done ({ c with
      control := c.control.map fun control => { control with styleHasBeenSet := true } }, f)

/-- `<FontMap>`, `<PartName>` and `<ChangeWindow>` -/
def named (needed : List (String × Text)) (m : AttrMap) (c : CurrentControl) (f : Frame) :
    Except NullPointer (Ret (CurrentControl × Frame)) :=
  match lacking m needed with
  | some text => failed .parseError text (c, f)
  | none => done (c, f)

/-- `<TogglePanel>`, in a button -/
def togglePanel (m : AttrMap) (c : CurrentControl) (f : Frame) :
    Except NullPointer (Ret (CurrentControl × Frame)) :=
  match lacking m [needs "TogglePanel" "Panel"] with
  | some text => failed .parseError text (c, f)
  | none => do
      -- `FindPanel` does not return a null pointer
      let found ← f.findPanel (value m "Panel")
      done (c, found.2)

/-- `<Position>` -/
def position (m : AttrMap) (c : CurrentControl) (f : Frame) :
    Except NullPointer (Ret (CurrentControl × Frame)) :=
  if !has m "Rect" && !has m "Pos" then
    failed .parseError (bytes "the <Position> tag needs a Rect or a Pos attribute") (c, f)
  else if has m "Pos" && c.type != .button && c.type != .multiState && c.type != .pixSlider then
    failed .parseError (bytes ("the Pos attribute in the <Position> tag can only be used " ++
      "for a MultiStateControl or a ButtonControl")) (c, f)
  else if has m "Rect" && !r.rect (value m "Rect") then
    failed .invalidParam (bytes "Improperly formatted Rect coordinates: " ++ value m "Rect") (c, f)
  else if has m "Pos" && !r.pos (value m "Pos") then
    failed .invalidParam (bytes "Improperly formatted Pos coordinates: " ++ value m "Pos") (c, f)
  else done ({ c with posDefined := true }, f)

/-- `ParseState` returns no error. -/
def parseState (text : Text) : Bool :=
  ["Normal", "MouseOver", "Pressed", "DisabledMouseOver", "Disabled", "Dragging",
    "HiddenMouseOver", "Hidden"].any fun state => bytes state == text

/-- The tags that give a control a bitmap: what they need, and whether the control has its
bitmap then. -/
def controlBitmaps (needed : List (String × Text)) (tag : String) (state defines : Bool)
    (m : AttrMap) (c : CurrentControl) (f : Frame) :
    Except NullPointer (Ret (CurrentControl × Frame)) :=
  match lacking m needed with
  | some text => failed .parseError text (c, f)
  | none =>
    if !r.rect (value m "Rect") then
      failed .invalidParam (bytes "Improperly formatted Rect coordinates: " ++ value m "Rect")
        (c, f)
    else if state && !parseState (value m "State") then
      failed .invalidParam (bytes "Unknown State: " ++ value m "State") (c, f)
    else if !f.findBitmap (value m "Name") then
      failed .invalidParam (bytes "Undefined bitmap " ++ value m "Name" ++ bytes " in tag <" ++
        bytes tag ++ bytes ">") (c, f)
    else done ({ c with bitmapDefined := c.bitmapDefined || defines }, f)

/-- `<ControlBitmap>` -/
def controlBitmap : AttrMap → CurrentControl → Frame →
    Except NullPointer (Ret (CurrentControl × Frame)) :=
  controlBitmaps r [needs "ControlBitmap" "Rect", needs "ControlBitmap" "Name"] "ControlBitmap"
    false true

/-- `<SliderTroughBitmap>`, which calls itself otherwise where the bitmap is not defined -/
def sliderTroughBitmap (m : AttrMap) (c : CurrentControl) (f : Frame) :
    Except NullPointer (Ret (CurrentControl × Frame)) :=
  if c.type != .slider && c.type != .vSlider then
    failed .parseError (bytes ("the <SliderTroughBitmap> tag can only be used " ++
      "for a SliderControl or a VSliderControl")) (c, f)
  else controlBitmaps r [needs "SliderTroughBitmap" "Rect", needs "SliderTroughBitmap" "Name",
    needs "SliderTroughBitmap" "NumFrames"] "ControlBitmap" false false m c f

/-- `<ActivationBitmap>` -/
def activationBitmap (m : AttrMap) (c : CurrentControl) (f : Frame) :
    Except NullPointer (Ret (CurrentControl × Frame)) :=
  if c.type != .pixSlider then
    failed .parseError (bytes ("the <ActivationBitmap> tag can only be used " ++
      "for a PixSliderControl")) (c, f)
  else controlBitmaps r [needs "ActivationBitmap" "Rect", needs "ActivationBitmap" "Name"]
    "ActivationBitmap" false false m c f

/-- `<ControlStateBitmap>` -/
def controlStateBitmap : AttrMap → CurrentControl → Frame →
    Except NullPointer (Ret (CurrentControl × Frame)) :=
  controlBitmaps r [needs "ControlStateBitmap" "Rect", needs "ControlStateBitmap" "Name",
    needs "ControlStateBitmap" "State"] "ControlStateBitmap" true true

/-- `<Info>` -/
def info (_ : AttrMap) (c : CurrentControl) (f : Frame) :
    Except NullPointer (Ret (CurrentControl × Frame)) :=
  done ({ c with infoDefined := true }, f)

/-- What is done at a tag. -/
inductive Handler where
  /-- the tag is not about controls -/
  | outer (h : AttrMap → Frame → Except NullPointer (Ret Frame))
  /-- the tag may not stand in a control -/
  | outside (text : Text) (h : AttrMap → Frame → Except NullPointer (Ret Frame))
  | begins (type : ControlType) (check : AttrMap → Option Text)
  /-- the tag must stand in a control, perhaps of one type -/
  | within (text : Text) (type : Option ControlType)
      (h : AttrMap → CurrentControl → Frame → Except NullPointer (Ret (CurrentControl × Frame)))

/-- A handler is called. -/
def Handler.run (m : AttrMap) (s : Parser) : Handler → Except NullPointer (Ret Parser)
  | .outer h => do
      let ret ← h m s.frame
      .ok (ret.1, { s with frame := ret.2 })
  | .outside text h =>
    if s.control.control.isSome then failed .invalidParam text s
    else do
      let ret ← h m s.frame
      .ok (ret.1, { s with frame := ret.2 })
  | .begins type check =>
    let ret := beginControl type check m s.control
    .ok (ret.1, { s with control := ret.2 })
  | .within text type h =>
    if s.control.control.isNone then failed .invalidParam text s
    else if type.any fun type => s.control.type != type then failed .invalidParam text s
    else do
      let ret ← h m s.control s.frame
      .ok (ret.1, { frame := ret.2.2, control := ret.2.1 })

/-- The names that are compared with `oElement`. -/
inductive Element where
  | version
  | bitmap
  | font
  | window
  | backgroundBitmap
  | panel
  | controls
  | buttonControl
  | dialControl
  | multiStateControl
  | pixSliderControl
  | sliderControl
  | vSliderControl
  | textControl
  | pixmapFontControl
  | fontMap
  | pixmapTimeControl
  | partName
  | style
  | changeWindow
  | togglePanel
  | dockPosition
  | position
  | controlBitmap
  | sliderTroughBitmap
  | activationBitmap
  | controlStateBitmap
  | info
  | themeInfo
  | headlines
  | action
  | maskBitmap
  deriving DecidableEq, Repr

/-- The elements by their names. -/
def elements : List (Text × Element) :=
  [(bytes "Version", .version), (bytes "Bitmap", .bitmap), (bytes "Font", .font),
    (bytes "Window", .window), (bytes "BackgroundBitmap", .backgroundBitmap),
    (bytes "Panel", .panel), (bytes "Controls", .controls),
    (bytes "ButtonControl", .buttonControl), (bytes "DialControl", .dialControl),
    (bytes "MultiStateControl", .multiStateControl),
    (bytes "PixSliderControl", .pixSliderControl), (bytes "SliderControl", .sliderControl),
    (bytes "VSliderControl", .vSliderControl), (bytes "TextControl", .textControl),
    (bytes "PixmapFontControl", .pixmapFontControl), (bytes "FontMap", .fontMap),
    (bytes "PixmapTimeControl", .pixmapTimeControl), (bytes "PartName", .partName),
    (bytes "Style", .style), (bytes "ChangeWindow", .changeWindow),
    (bytes "TogglePanel", .togglePanel), (bytes "DockPosition", .dockPosition),
    (bytes "Position", .position), (bytes "ControlBitmap", .controlBitmap),
    (bytes "SliderTroughBitmap", .sliderTroughBitmap),
    (bytes "ActivationBitmap", .activationBitmap),
    (bytes "ControlStateBitmap", .controlStateBitmap), (bytes "Info", .info),
    (bytes "ThemeInfo", .themeInfo), (bytes "Headlines", .headlines),
    (bytes "Action", .action), (bytes "MaskBitmap", .maskBitmap)]

def elementOf (name : Text) : Option Element := elements.lookup name

/-- What is said of a tag that does not stand in a control of its type. -/
def mustBeInside (tag type : String) : Text :=
  bytes "The <" ++ bytes tag ++ bytes "> tag must be inside of a <" ++ bytes type ++ bytes "> tag"

/-- What `BeginElement` does, by the elements. -/
def handler : Element → Handler
  | .version => .outer (version r)
  | .bitmap => .outer (bitmap r)
  | .font => .outer font
  | .window => .outer window
  | .backgroundBitmap => .outer (backgroundBitmap r)
  | .panel => .outer (panel r)
  | .controls => .outer fun _ => controls
  | .buttonControl => .begins .button buttonControl
  | .dialControl => .begins .dial fun m => lacking m [needs "DialControl" "Name",
      needs "DialControl" "NumFrames", needs "DialControl" "PixelsPerFrame"]
  | .multiStateControl => .begins .multiState fun m =>
    lacking m [needs "MultiStateControl" "Name", needs "MultiStateControl" "NumStates"]
  | .pixSliderControl => .begins .pixSlider fun m =>
    lacking m [needs "PixSliderControl" "Name", needs "PixSliderControl" "NumStates"]
  | .sliderControl => .begins .slider fun m => lacking m [needs "SliderControl" "Name"]
  | .vSliderControl => .begins .vSlider fun m => lacking m [needs "VSliderControl" "Name"]
  | .textControl => .begins .text fun m => lacking m [needs "TextControl" "Name"]
  | .pixmapFontControl => .begins .pixFont fun m => lacking m [needs "PixmapFontControl" "Name"]
  | .fontMap => .within (mustBeInside "FontMap" "PixFontControl") (some .pixFont)
      (named [needs "FontMap" "Map"])
  | .pixmapTimeControl => .begins .pixTime fun m => lacking m [needs "PixmapTimeControl" "Name"]
  | .partName => .within (mustBeInside "PartName" "PixmapTimeControl") (some .pixTime)
      (named [needs "PartName" "Part", needs "PartName" "Name"])
  | .style => .within (mustBeInside "Style" "TextControl") (some .text) (style r)
  | .changeWindow => .within (mustBeInside "ChangeWindow" "ButtonControl") (some .button)
      (named [needs "ChangeWindow" "Window"])
  | .togglePanel => .within (mustBeInside "TogglePanel" "ButtonControl") (some .button)
      togglePanel
  | .dockPosition => .outside
      (bytes "The <DockPosition> tag cannot be inside of a <XXXXControl> tag") (dockPosition r)
  | .position => .within (mustBeInside "Position" "XXXXControl") none (position r)
  | .controlBitmap => .within (mustBeInside "ControlBitmap" "XXXXControl") none (controlBitmap r)
  | .sliderTroughBitmap => .within (mustBeInside "SliderTroughBitmap" "XXXXControl") none
      (sliderTroughBitmap r)
  | .activationBitmap => .within (mustBeInside "ActivationBitmap" "XXXXControl") none
      (activationBitmap r)
  | .controlStateBitmap => .within (mustBeInside "ControlStateBitmap" "XXXXControl") none
      (controlStateBitmap r)
  | .info => .within (mustBeInside "Info" "XXXXControl") none info
  | .themeInfo => .outside (bytes "The <ThemeInfo> tag must be top level tag") fun _ => done
  | .headlines => .outer headlines
  -- these are known to `EndElement` alone
  | .action | .maskBitmap => .outer fun _ => done

def beginElement (s : Parser) (oElement : Text) (m : AttrMap) : Except NullPointer (Ret Parser) :=
  match elementOf oElement with
  | none => done s
  | some e => (handler r e).run m s

/-! ## `EndElement` -/

/-- The end of a control that is put into the current panel, or into one made for it. -/
def endControl (s : Parser) : Except NullPointer (Ret Parser) :=
  let c := s.control
  if !c.posDefined then
    failed .invalidParam (bytes "The Control is missing the <Position> tag") s
  else if !c.bitmapDefined && c.type != .text then
    failed .invalidParam (bytes "The Control is missing the <ControlBitmap> tag") s
  else if !c.infoDefined && c.type != .text && c.type != .pixFont then
    failed .invalidParam (bytes "The Control is missing the <Info> tag") s
  else
    -- a style is asked for, and the control's name, of what may be a null pointer
    match c.control with
    | none => .error .currentControl
    | some control =>
      if c.type == .text && !control.styleHasBeenSet then
        failed .invalidParam (bytes "A <TextControl> needs to define a <Style> tag") s
      else
        let f := match s.frame.current with
          | none => s.frame.makeDummyPanel
          | some _ => s.frame
        done { frame := f, control := { c with control := none, type := .undefined } }

/-- `</PixmapTimeControl>` -/
def endPixmapTimeControl (s : Parser) : Except NullPointer (Ret Parser) :=
  match s.frame.current with
  | none => .error .currentPanel
  | some _ =>
    match s.control.control with
    | none => .error .currentControl
    | some _ => done { s with control := { s.control with control := none, type := .undefined } }

/-- `</Panel>` -/
def endPanel (s : Parser) : Except NullPointer (Ret Parser) := do
  let f ← s.frame.addCurrentPanel
  done { s with frame := f }

/-- `</Window>`.  `m_oPanels` is empty when it is gone through for panels without a window. -/
def endWindow (s : Parser) : Except NullPointer (Ret Parser) := do
  let f ← match s.frame.current with
    | none => .ok s.frame
    | some _ => s.frame.addCurrentPanel
  done { s with frame := { f with
    parsedWindows := some (f.parsedWindows.getD [] ++ [f.window.map f.parsed])
    panels := []
    window := none } }

def endElement (s : Parser) (oElement : Text) : Except NullPointer (Ret Parser) :=
  match elementOf oElement with
  | some .controls =>
    match s.frame.window with
    | none => failed .invalidParam
        (bytes "The <Controls> tag must be inside a <Window> tag") s
    | some _ => done s
  | some .action | some .position | some .style | some .info | some .controlBitmap
  | some .controlStateBitmap | some .sliderTroughBitmap | some .activationBitmap
  | some .fontMap | some .partName =>
    match s.control.control with
    | none => failed .invalidParam
        (bytes "The <" ++ oElement ++ bytes "> tag must be inside a <XXXXControl>") s
    | some _ => done s
  | some .buttonControl | some .dialControl | some .sliderControl | some .vSliderControl
  | some .multiStateControl | some .textControl | some .pixmapFontControl
  | some .pixSliderControl => endControl s
  | some .window => endWindow s
  | some .panel => endPanel s
  | some .pixmapTimeControl => endPixmapTimeControl s
  | _ => done s

def call (s : Parser) : Event → Except NullPointer (Ret Parser)
  | .beginElement e m => beginElement r s e m
  | .endElement e => endElement s e
  | .pcData data => failed .invalidParam (bytes "Invalid character data: " ++ data) s

/-- The calls of the parser, which stops at the first that returns an error. -/
def calls (s : Parser) : List Event → Except NullPointer (Ret Parser)
  | [] => done s
  | e :: events => do
      let ret ← call r s e
      match ret.1 with
      | none => calls ret.2 events
      | some failure => .ok (some failure, ret.2)

end FreeAmp.Ui.ThemeParse
