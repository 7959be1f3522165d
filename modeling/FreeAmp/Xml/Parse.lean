/-
  Xml/Parse.lean --- the XML parser of `lib/xml/src/Parse.cpp`.

  `DoParse` reads a document through `Scanf` and `Eof`, which work on a file or on a string.
  `BeginElement`, `EndElement` and `PCData` are those of a class derived from `Parse`: what
  they return is given for every sequence of calls.  They leave their arguments as they are.
-/
import FreeAmp.Base.FileUrl
import FreeAmp.Lib.Scanf

namespace FreeAmp.Xml

open FreeAmp.Base FreeAmp.Lib

/-! ## `Scanf` and `Eof` -/

/-- Where a document is read from. -/
inductive Source where
  /-- `m_fpFile`: what is not read of it, and its end-of-file indicator -/
  | file (rest : Text) (eof : Bool)
  /-- `m_oXML` and `m_uScanOffset` -/
  | string (xml : Text) (offset : Nat)

namespace Source

/-- `Scanf`: the strings that are assigned.  It returns less than 1 if there are none. -/
def scan (format : List Directive) : Source → Source × List Text
  | .file rest eof =>
    let s := scanf format rest 0
    (.file s.rest (eof || s.eof), s.fields)
  | .string xml offset =>
    let s := scanf (format ++ [.count]) (cStr (xml.drop offset)) 0
    let iOffset := s.offsets.headD 0
    if s.fields ≠ [] ∨ 0 < iOffset then (.string xml (offset + iOffset), s.fields)
    else (.string xml offset, s.fields)

/-- `Eof` -/
def atEnd : Source → Bool
  | .file _ eof => eof
  | .string xml offset => decide (xml.length ≤ offset)

end Source

/-! ## Buffers -/

/-- A `char` array, up to where it has been written. -/
abbrev Buffer := Text

/-- A string is written to an array. -/
def Buffer.write (b : Buffer) (s : Text) : Buffer := s ++ [0] ++ b.drop (s.length + 1)

/-- The string in an array at an offset. -/
def Buffer.read (b : Buffer) (offset : Nat) : Except BufferFault Text :=
  if 0 ∈ b.drop offset then .ok (cStr (b.drop offset)) else .error .uninitialised

def countNewlines (s : Text) : Nat := s.count 10

/-! ## Formats -/

/-- `[A-Za-z0-9:]` -/
def isAttrChar (c : UInt8) : Bool :=
  (decide (65 ≤ c) && decide (c ≤ 90)) || (decide (97 ≤ c) && decide (c ≤ 122)) || isDigit c ||
    c == 58

/-- `[A-Za-z0-9:_]` -/
def isNameChar (c : UInt8) : Bool := isAttrChar c || c == 95

/-- `" < %1024[^>] >"` -/
def elementFormat : List Directive :=
  [.space, .lit 60, .space, .set (some 1024) (· != 62), .space, .lit 62]

/-- `" %4095[^<]"` -/
def dataFormat : List Directive := [.space, .set (some 4095) (· != 60)]

/-- `"%[\n\t \r]"` -/
def whiteFormat : List Directive := [.set none fun c => c == 10 || c == 9 || c == 32 || c == 13]

/-- `" /%254[A-Za-z0-9:_]%n"` -/
def endFormat : List Directive := [.space, .lit 47, .set (some 254) isNameChar, .count]

/-- `"%[!-]"` -/
def commentFormat : List Directive := [.set none fun c => c == 33 || c == 45]

/-- `" %254[A-Za-z0-9:_] %n"` -/
def nameFormat : List Directive := [.space, .set (some 254) isNameChar, .space, .count]

/-- `" %254[A-Za-z0-9:] = \"%254[^\"] \"%n"` -/
def attrFormat : List Directive :=
  [.space, .set (some 254) isAttrChar, .space, .lit 61, .space, .lit 34,
    .set (some 254) (· != 34), .space, .lit 34, .count]

/-- `" %254[A-Za-z0-9:] = \" \" %n"` -/
def emptyAttrFormat : List Directive :=
  [.space, .set (some 254) isAttrChar, .space, .lit 61, .space, .lit 34, .space, .lit 34, .space,
    .count]

/-- `iTemp = 0; sscanf(s, format, .., &iTemp)` -/
def offsetOf (format : List Directive) (s : Text) : Nat := (scanf format s 0).offsets.headD 0

/-! ## `UnXMLize` -/

def entities : List (Text × Text) :=
  [(bytes "&amp;", bytes "&"), (bytes "&lt;", bytes "<"), (bytes "&gt;", bytes ">"),
    (bytes "&apos;", [39]), (bytes "&quot;", [34])]

/-- `oData.find(entity, 0)` -/
def find (entity data : Text) : Option Nat :=
  (List.range (data.length + 1)).find? fun i => entity.isPrefixOf (data.drop i)

/-- An entity is replaced until there is none left; each time the data get shorter. -/
def replaceEntity (entity replacement : Text) : Nat → Text → Text
  | 0, data => data
  | rounds + 1, data =>
    match find entity data with
    | none => data
    | some pos => replaceEntity entity replacement rounds
        (data.take pos ++ replacement ++ data.drop (pos + entity.length))

def unXMLize (data : Text) : Text :=
  entities.foldl (fun data e => replaceEntity e.1 e.2 data.length data) data

/-! ## `DoParse` -/

/-- `AttrMap`: the values by their names, each name once. -/
abbrev AttrMap := List (Text × Text)

/-- `oAttrMap[szAttr] = szValue` -/
def AttrMap.insert (m : AttrMap) (attr value : Text) : AttrMap :=
  m.filter (·.1 ≠ attr) ++ [(attr, value)]

/-- A call of a function of the derived class. -/
inductive Event where
  | beginElement (element : Text) (attrMap : AttrMap)
  | endElement (element : Text)
  | pcData (data : Text)
  deriving DecidableEq

/-- The state of `DoParse`. -/
structure Parsing where
  element : Buffer
  elementName : Buffer
  first : Bool
  errorLine : Nat
  lastError : Text
  /-- the calls that have been made -/
  events : List Event

def maxElementNameLength : Nat := 255

/-- The size of `szDummy`. -/
def dummyLength : Nat := 10

/-- A call, after which `bError` is true if it returns an error. -/
def call (answer : List Event → Error) (p : Parsing) (e : Event) : Parsing × Bool :=
  let p := { p with events := p.events ++ [e] }
  (p, decide (answer p.events ≠ .noErr))

/-- The loop over the attributes, which are what follows the name of an element: whether the
tag is empty, and the attributes, if they are properly formatted.  Every round takes something
of the text. -/
def attrLoop : Nat → Text → Bool → AttrMap → Option (Bool × AttrMap)
  | 0, _, _, _ => none
  | rounds + 1, s, emptyTag, attrMap =>
    let slash := offsetOf [.space, .lit 47, .count] s
    let emptyTag := emptyTag || decide (0 < slash)
    let s := s.drop slash
    if s = [] ∨ 0 < offsetOf [.space, .lit 62, .count] s then some (emptyTag, attrMap)
    else
      match (scanf attrFormat s 0).fields, offsetOf attrFormat s with
      | [attr, value], iTemp + 1 =>
        attrLoop rounds (s.drop (iTemp + 1)) emptyTag (attrMap.insert attr value)
      | _, _ =>
        match (scanf emptyAttrFormat s 0).fields, offsetOf emptyAttrFormat s with
        | [attr], iTemp + 1 =>
          attrLoop rounds (s.drop (iTemp + 1)) emptyTag (attrMap.insert attr [])
        | _, _ => none

/-- What is done with the text of an element; it gives the value of `bError`. -/
def parseElement (answer : List Event → Error) (element : Text) (p : Parsing) :
    Except BufferFault (Parsing × Bool) :=
  match (scanf endFormat element 0).fields, offsetOf endFormat element with
  | [name], _ + 1 =>
    pure (call answer { p with elementName := p.elementName.write name } (.endElement name))
  | _, _ =>
    let comment := scanf commentFormat element 0
    match comment.fields with
    | dummy :: _ => if dummyLength ≤ dummy.length then .error .overflow else pure (p, false)
    | [] => do
        let s := scanf nameFormat element 0
        let p := match s.fields with
          | name :: _ => { p with elementName := p.elementName.write name }
          | [] => p
        let name ← p.elementName.read 0
        let iOffset := if s.offsets.headD 0 = 0 then name.length else s.offsets.headD 0
        let rest ← p.element.read iOffset
        match attrLoop (rest.length + 1) rest false [] with
        | none => pure ({ p with lastError := bytes "Improperly formatted attribute list" }, true)
        | some (emptyTag, attrMap) =>
          let r := call answer p (.beginElement name attrMap)
          if emptyTag && !r.2 then pure (call answer r.1 (.endElement name)) else pure r

/-- What a round of the loop comes to. -/
inductive Round where
  | next (source : Source) (p : Parsing)
  | returned (err : Error) (p : Parsing)
  | fault (fault : BufferFault)

/-- `bError` -/
def finish (source : Source) (r : Parsing × Bool) : Round :=
  if r.2 then .returned .parseError r.1 else .next source { r.1 with first := false }

/-- The part of a round in which no element is read. -/
def dataRound (answer : List Event → Error) (source : Source) (p : Parsing) : Round :=
  if source.atEnd then .returned .noErr p
  else
    match source.scan dataFormat with
    | (_, []) => .returned .parseError { p with lastError := bytes "Unrecognized characters found" }
    | (source, data :: _) =>
      finish source (call answer { p with errorLine := p.errorLine + countNewlines data }
        (.pcData (unXMLize data)))

/-- The part of a round in which an element has been read. -/
def elementRound (answer : List Event → Error) (source : Source) (element : Text)
    (p : Parsing) : Round :=
  let p := { p with element := p.element.write element }
  if p.first && element.head? == some 63 && element.getLast? == some 63 then
    .next source { p with first := false }
  else
    match source.scan whiteFormat with
    | (source, white :: _) =>
      if maxElementNameLength ≤ white.length then .fault .overflow
      else
        let p := { p with
          elementName := p.elementName.write white
          errorLine := p.errorLine + countNewlines white }
        match parseElement answer element p with
        | .error fault => .fault fault
        | .ok r => finish source r
    | (source, []) =>
      match parseElement answer element p with
      | .error fault => .fault fault
      | .ok r => finish source r

/-- A round of the loop. -/
def round (answer : List Event → Error) (source : Source) (p : Parsing) : Round :=
  let p := { p with errorLine := p.errorLine + countNewlines (cStr p.element) }
  match source.scan elementFormat with
  | (source, []) => dataRound answer source p
  | (source, element :: _) => elementRound answer source element p

/-- The loop, for as many rounds as there is fuel. -/
def doParse (answer : List Event → Error) :
    Nat → Source → Parsing → Option (Except BufferFault (Error × Parsing))
  | 0, _, _ => none
  | fuel + 1, source, p =>
    match round answer source p with
    | .next source p => doParse answer fuel source p
    | .returned err p => some (.ok (err, p))
    | .fault fault => some (.error fault)

/-- `szElement[0] = 0`, after the constructor. -/
def parsing : Parsing where
  element := [0]
  elementName := []
  first := true
  errorLine := 1
  lastError := []
  events := []

/-- `ParseFile` of a file that could be opened. -/
def parseFile (answer : List Event → Error) (text : Text) (fuel : Nat) :
    Option (Except BufferFault (Error × Parsing)) :=
  doParse answer fuel (.file text false) parsing

def parseString (answer : List Event → Error) (text : Text) (fuel : Nat) :
    Option (Except BufferFault (Error × Parsing)) :=
  doParse answer fuel (.string text 0) parsing

end FreeAmp.Xml
