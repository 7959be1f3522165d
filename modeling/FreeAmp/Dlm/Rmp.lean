/-
  Dlm/Rmp.lean --- the reader of RealMedia packages, from `dlm/rmp/rmp.cpp` and `rmp.h`.

  The parser calls `BeginElement`, `PCData` and `EndElement`, and all of them keep what they
  need in members.  The parser lets no separator into the name of an element, so that
  `m_oPath` is kept as the names in it, the last one first.  Data have no NUL in them.
-/
import FreeAmp.Lib.Search
import FreeAmp.Xml.Parse

namespace FreeAmp.Dlm.Rmp

open FreeAmp.Base FreeAmp.Lib FreeAmp.Xml

/-! ## Items -/

/-- What is set of a `MetaData`. -/
structure MetaData where
  title : Text := []
  album : Text := []
  artist : Text := []
  genre : Text := []
  size : UInt32 := 0
  year : UInt32 := 0
  time : UInt32 := 0
  extension : Text := []
  deriving DecidableEq

/-- What is set of a `DownloadItem`. -/
structure Item where
  src : Text
  dest : Text
  metadata : MetaData
  playlist : Text
  bytesTotal : UInt32
  cookie : Text
  deriving DecidableEq

/-! ## Paths -/

/-- The names of a path, the last one first. -/
abbrev Path := List Text

def packagePath : Path := [bytes "PACKAGE"]

def serverPath : Path := bytes "SERVER" :: packagePath

def listPath : Path := bytes "TRACKLIST" :: packagePath

/-- `"/PACKAGE/TRACKLIST/TRACK"` -/
def trackPath : Path := bytes "TRACK" :: listPath

def cookiePath : Path := bytes "COOKIE" :: packagePath

/-! ## `class RMP` -/

structure RMP where
  oPath : Path := []
  oFileName : Text := []
  oLocation : Text := []
  oPackageId : Text := []
  oListId : Text := []
  oTrackId : Text := []
  oPlaylist : Text := []
  oServer : Text := []
  oTrackDir : Text := []
  oCookie : Text := []
  oCookieName : Text := []
  oCookieValue : Text := []
  pMetaData : Option MetaData := none
  deriving DecidableEq

/-- `oLocation.find(oPattern, 0)`, and `oLocation.replace` at the place. -/
def replaceFirst (oPattern replacement oLocation : Text) : Text :=
  match firstPlace oPattern oLocation with
  | none => oLocation
  | some iPos =>
    oLocation.take iPos ++ replacement ++ oLocation.drop (iPos + oPattern.length)

namespace RMP

def beginElement (s : RMP) (oElement : Text) : RMP :=
  let s := { s with oPath := oElement :: s.oPath }
  let s := if s.oPath = trackPath then { s with pMetaData := some {} } else s
  if s.oPath = cookiePath then { s with oCookieName := [], oCookieValue := [] } else s

/-- A string without the dot that it begins with. -/
def bumpItUp (oData : Text) : Text := if oData.head? = some 46 then oData.drop 1 else oData

/-- The part of `PCData` in which there is a `m_pMetaData`. -/
def trackData (oPath : Path) (m : MetaData) (oData : Text) : MetaData :=
  if oPath = bytes "TITLE" :: trackPath then { m with title := oData }
  else if oPath = bytes "ALBUM" :: trackPath then { m with album := oData }
  else if oPath = bytes "ARTIST" :: trackPath then { m with artist := oData }
  else if oPath = bytes "GENRE" :: trackPath then { m with genre := oData }
  else if oPath = bytes "SIZE" :: trackPath then { m with size := UInt32.ofInt (atoi oData) }
  else if oPath = bytes "YEAR" :: trackPath then { m with year := UInt32.ofInt (atoi oData) }
  else if oPath = bytes "DURATION" :: trackPath then { m with time := UInt32.ofInt (atoi oData) }
  else if oPath = bytes "FORMAT" :: trackPath then { m with extension := bumpItUp oData }
  else m

def pcData (s : RMP) (oData : Text) : RMP :=
  if s.oPath = bytes "PACKAGEID" :: packagePath then { s with oPackageId := oData }
  else if s.oPath = bytes "TARGET" :: packagePath then { s with oPlaylist := oData }
  else if s.oPath = bytes "NETNAME" :: serverPath then { s with oServer := oData }
  else if s.oPath = bytes "LOCATION" :: serverPath then { s with oLocation := oData }
  else if s.oPath = bytes "LISTID" :: listPath then { s with oListId := oData }
  else if s.oPath = bytes "TRACKID" :: trackPath then { s with oTrackId := oData }
  else if s.oPath = bytes "DIR" :: trackPath then { s with oTrackDir := oData }
  else if s.oPath = bytes "NAME" :: cookiePath then { s with oCookieName := oData }
  else if s.oPath = bytes "VALUE" :: cookiePath then { s with oCookieValue := oData }
  else if s.oPath = bytes "FILENAME" :: trackPath then { s with oFileName := oData }
  else { s with pMetaData := s.pMetaData.map fun m => trackData s.oPath m oData }

def mangleLocation (oTrackId oFileName oListId oPackageId oTrackDir oLocation : Text) : Text :=
  let oLocation := replaceFirst (bytes "%fid") oTrackId oLocation
  let oLocation := replaceFirst (bytes "%f") oFileName oLocation
  let oLocation := replaceFirst (bytes "%lid") oListId oLocation
  let oLocation := replaceFirst (bytes "%pid") oPackageId oLocation
  replaceFirst (bytes "%d") oTrackDir oLocation

/-- The item that a `TRACK` becomes. -/
def item (s : RMP) (m : MetaData) : Item where
  src := mangleLocation s.oTrackId s.oFileName s.oListId s.oPackageId s.oTrackDir
    (bytes "http://" ++ s.oServer ++ s.oLocation)
  dest := s.oFileName
  metadata := m
  playlist := s.oPlaylist
  bytesTotal := m.size
  cookie := s.oCookie

/-- A cookie behind those that have been seen. -/
def addCookie (oCookie oCookieName oCookieValue : Text) : Text :=
  (if oCookie = [] then [] else oCookie ++ bytes "; ") ++ oCookieName ++ bytes "=" ++ oCookieValue

/-- `EndElement`: the items that are appended; nothing where `m_pMetaData` is null and is
used. -/
def endElement (s : RMP) (oElement : Text) : Option (RMP × List Item) :=
  let s :=
    if s.oPath = cookiePath then
      { s with oCookie := addCookie s.oCookie s.oCookieName s.oCookieValue }
    else s
  match s.oPath with
  | [] => some (s, [])
  | _ :: oPath =>
    let s := { s with oPath }
    if oElement = bytes "TRACK" then
      s.pMetaData.map fun m => ({ s with pMetaData := none }, [s.item m])
    else some (s, [])

/-- A call of the parser, with the items of the caller's list. -/
def call (r : RMP × List Item) : Event → Option (RMP × List Item)
  | .beginElement oElement _ => some (r.1.beginElement oElement, r.2)
  | .pcData oData => some (r.1.pcData oData, r.2)
  | .endElement oElement => (r.1.endElement oElement).map fun e => (e.1, r.2 ++ e.2)

/-- The calls of a document, one after the other. -/
def read (r : RMP × List Item) (calls : List Event) : Option (RMP × List Item) :=
  calls.foldlM call r

end RMP

/-! ## Documents -/

/-- What a well-formed document is made of. -/
inductive Node where
  | data (oData : Text)
  | element (oElement : Text) (oAttrMap : AttrMap) (children : List Node)

mutual

/-- The calls that the parser makes. -/
def Node.calls : Node → List Event
  | .data oData => [.pcData oData]
  | .element oElement oAttrMap children =>
    .beginElement oElement oAttrMap :: (callsOf children ++ [.endElement oElement])

def callsOf : List Node → List Event
  | [] => []
  | node :: nodes => node.calls ++ callsOf nodes

end

/-- The data of an element, without those of the elements in it. -/
def texts : List Node → List Text
  | [] => []
  | .data oData :: nodes => oData :: texts nodes
  | .element _ _ _ :: nodes => texts nodes

/-- The data of the elements of an element, with their names. -/
def leaves : List Node → List (Text × Text)
  | [] => []
  | .data _ :: nodes => leaves nodes
  | .element oElement _ children :: nodes =>
    (texts children).map (fun oData => (oElement, oData)) ++ leaves nodes

/-- The last data of an element of this name, or what there was. -/
def lastOf (name : Text) (old : Text) (ls : List (Text × Text)) : Text :=
  ls.foldl (fun t l => if l.1 = name then l.2 else t) old

end FreeAmp.Dlm.Rmp
