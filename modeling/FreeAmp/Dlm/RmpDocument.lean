/-
  Dlm/RmpDocument.lean --- what a well-formed document says, and that it is what an `RMP` reads.

      facts       what a document says, in its order
      read_root   the calls of a document are its facts
-/
import FreeAmp.Dlm.Rmp

namespace FreeAmp.Dlm.Rmp

open FreeAmp.Base FreeAmp.Lib FreeAmp.Xml

/-! ## What a document says -/

/-- What is said of a whole document. -/
inductive Member where
  | packageId
  | playlist
  | server
  | location
  | listId
  deriving DecidableEq, Repr

inductive Fact where
  | member (x : Member) (t : Text)
  | cookie (name value : Text)
  | track (ls : List (Text × Text))
  deriving DecidableEq

def serverFact (l : Text × Text) : Option Fact :=
  if l.1 = bytes "NETNAME" then some (.member .server l.2)
  else if l.1 = bytes "LOCATION" then some (.member .location l.2)
  else none

/-- In a `TRACKLIST`. -/
def listFacts : List Node → List Fact
  | [] => []
  | .data _ :: nodes => listFacts nodes
  | .element name _ children :: nodes =>
    (if name = bytes "TRACK" then [.track (leaves children)]
      else if name = bytes "LISTID" then (texts children).map (.member .listId)
      else []) ++ listFacts nodes

def packageFacts : List Node → List Fact
  | [] => []
  | .data _ :: nodes => packageFacts nodes
  | .element name _ children :: nodes =>
    (if name = bytes "SERVER" then (leaves children).filterMap serverFact
      else if name = bytes "COOKIE" then
        [.cookie (lastOf (bytes "NAME") [] (leaves children))
          (lastOf (bytes "VALUE") [] (leaves children))]
      else if name = bytes "TRACKLIST" then listFacts children
      else if name = bytes "PACKAGEID" then (texts children).map (.member .packageId)
      else if name = bytes "TARGET" then (texts children).map (.member .playlist)
      else []) ++ packageFacts nodes

/-- What a document says, in its order. -/
def facts : Node → List Fact
  | .data _ => []
  | .element name _ children => if name = bytes "PACKAGE" then packageFacts children else []

/-- The metadata that a `TRACK` gives. -/
def trackMetaData (ls : List (Text × Text)) : MetaData where
  title := lastOf (bytes "TITLE") [] ls
  album := lastOf (bytes "ALBUM") [] ls
  artist := lastOf (bytes "ARTIST") [] ls
  genre := lastOf (bytes "GENRE") [] ls
  size := UInt32.ofInt (atoi (lastOf (bytes "SIZE") [] ls))
  year := UInt32.ofInt (atoi (lastOf (bytes "YEAR") [] ls))
  time := UInt32.ofInt (atoi (lastOf (bytes "DURATION") [] ls))
  extension := RMP.bumpItUp (lastOf (bytes "FORMAT") [] ls)

namespace RMP

def setMember (s : RMP) (t : Text) : Member → RMP
  | .packageId => { s with oPackageId := t }
  | .playlist => { s with oPlaylist := t }
  | .server => { s with oServer := t }
  | .location => { s with oLocation := t }
  | .listId => { s with oListId := t }

/-- What a fact does. -/
def meet (r : RMP × List Item) : Fact → RMP × List Item
  | .member x t => (r.1.setMember t x, r.2)
  | .cookie name value =>
    ({ r.1 with
      oCookie := addCookie r.1.oCookie name value
      oCookieName := name
      oCookieValue := value }, r.2)
  | .track ls =>
    let s :=
      { r.1 with
        oFileName := lastOf (bytes "FILENAME") r.1.oFileName ls
        oTrackId := lastOf (bytes "TRACKID") r.1.oTrackId ls
        oTrackDir := lastOf (bytes "DIR") r.1.oTrackDir ls
        pMetaData := none }
    (s, r.2 ++ [s.item (trackMetaData ls)])

end RMP

/-! ## Where elements stand -/

mutual

/-- All elements that are called `TRACK` are in a `TRACKLIST` of the package. -/
def Node.InPlace (p : Path) : Node → Prop
  | .data _ => True
  | .element name _ children =>
    (name = bytes "TRACK" → p = listPath) ∧ InPlaceAll (name :: p) children

def InPlaceAll (p : Path) : List Node → Prop
  | [] => True
  | node :: nodes => node.InPlace p ∧ InPlaceAll p nodes

end

/-- The paths at which data are looked for. -/
def dataPaths : List Path :=
  [bytes "PACKAGEID" :: packagePath, bytes "TARGET" :: packagePath,
    bytes "NETNAME" :: serverPath, bytes "LOCATION" :: serverPath, bytes "LISTID" :: listPath,
    bytes "TRACKID" :: trackPath, bytes "DIR" :: trackPath, bytes "NAME" :: cookiePath,
    bytes "VALUE" :: cookiePath, bytes "FILENAME" :: trackPath, bytes "TITLE" :: trackPath,
    bytes "ALBUM" :: trackPath, bytes "ARTIST" :: trackPath, bytes "GENRE" :: trackPath,
    bytes "SIZE" :: trackPath, bytes "YEAR" :: trackPath, bytes "DURATION" :: trackPath,
    bytes "FORMAT" :: trackPath]

/-- The paths that are looked for. -/
def specials : List Path := dataPaths ++ [trackPath, cookiePath]

/-- No path that is looked for is here or further in. -/
def Inert (p : Path) : Prop := ∀ q ∈ specials, ¬ p <:+ q

theorem Inert.cons {p : Path} (h : Inert p) (name : Text) : Inert (name :: p) := by
  intro q hq hsuffix
  exact h q hq ((List.suffix_cons name p).trans hsuffix)

theorem Inert.ne {p : Path} (h : Inert p) {q : Path} (hq : q ∈ specials) : p ≠ q := by
  intro heq
  exact h q hq (heq ▸ List.suffix_refl _)

/-- The elements of this one in which something is looked for. -/
def inner (p : Path) : List Text :=
  (specials.flatMap List.tails).filterMap fun
    | _ :: name :: q => if q = p then some name else none
    | _ => none

theorem inert_of_notMem {p : Path} {name : Text} (h : name ∉ inner p) (x : Text) :
    Inert (x :: name :: p) := by
  intro q hq hsuffix
  refine h (List.mem_filterMap.mpr ⟨x :: name :: p, ?_, if_pos rfl⟩)
  exact List.mem_flatMap.mpr ⟨q, hq, (List.mem_tails _ _).mpr hsuffix⟩

theorem inert_track (name x : Text) : Inert (x :: name :: trackPath) := by
  have hnone : inner trackPath = [] := by decide
  exact inert_of_notMem (by rw [hnone]; exact List.not_mem_nil) x

theorem inert_server (name x : Text) : Inert (x :: name :: serverPath) := by
  have hnone : inner serverPath = [] := by decide
  exact inert_of_notMem (by rw [hnone]; exact List.not_mem_nil) x

theorem inert_cookie (name x : Text) : Inert (x :: name :: cookiePath) := by
  have hnone : inner cookiePath = [] := by decide
  exact inert_of_notMem (by rw [hnone]; exact List.not_mem_nil) x

theorem inert_list {name : Text} (h : name ≠ bytes "TRACK") (x : Text) :
    Inert (x :: name :: listPath) := by
  have hinner : ∀ n ∈ inner listPath, n = bytes "TRACK" := by decide
  exact inert_of_notMem (fun hmem => h (hinner name hmem)) x

theorem inert_package {name : Text} (hserver : name ≠ bytes "SERVER")
    (hcookie : name ≠ bytes "COOKIE") (hlist : name ≠ bytes "TRACKLIST") (x : Text) :
    Inert (x :: name :: packagePath) := by
  have hinner : ∀ n ∈ inner packagePath,
      n = bytes "SERVER" ∨ n = bytes "COOKIE" ∨ n = bytes "TRACKLIST" := by
    decide
  refine inert_of_notMem (fun hmem => ?_) x
  rcases hinner name hmem with h | h | h
  · exact hserver h
  · exact hcookie h
  · exact hlist h

theorem inert_root {name : Text} (h : name ≠ bytes "PACKAGE") : Inert [name] := by
  have hroot : ∀ q ∈ specials, q.getLast? = some (bytes "PACKAGE") := by decide
  rintro q hq ⟨l, rfl⟩
  have hlast := hroot _ hq
  rw [List.getLast?_concat] at hlast
  exact h (Option.some.inj hlast)

/-- The elements of this one whose data are looked for. -/
def leafNames (p : Path) : List Text :=
  dataPaths.filterMap fun
    | name :: q => if q = p then some name else none
    | [] => none

theorem ne_of_notMem {p : Path} {name : Text} (h : name ∉ leafNames p) :
    ∀ q ∈ dataPaths, name :: p ≠ q := by
  rintro q hq rfl
  exact h (List.mem_filterMap.mpr ⟨name :: p, hq, if_pos rfl⟩)

/-! ## The calls of an element -/

namespace RMP

/-- Of the place and of whether there is a `m_pMetaData` the data are none. -/
theorem pcData_same (s : RMP) (oData : Text) : (s.pcData oData).oPath = s.oPath ∧
    (s.pcData oData).pMetaData.isSome = s.pMetaData.isSome := by
  have hchoose : ∀ {c : Prop} [Decidable c] {a b : RMP},
      a.oPath = s.oPath ∧ a.pMetaData.isSome = s.pMetaData.isSome →
      b.oPath = s.oPath ∧ b.pMetaData.isSome = s.pMetaData.isSome →
      (if c then a else b).oPath = s.oPath ∧
        (if c then a else b).pMetaData.isSome = s.pMetaData.isSome := by
    intro c _ a b ha hb
    split
    · exact ha
    · exact hb
  unfold pcData
  iterate 10 refine hchoose ⟨rfl, rfl⟩ ?_
  exact ⟨rfl, Option.isSome_map⟩

theorem oPath_pcData (s : RMP) (oData : Text) : (s.pcData oData).oPath = s.oPath :=
  (pcData_same s oData).1

theorem pcData_of_ne {s : RMP} (h : ∀ q ∈ dataPaths, s.oPath ≠ q) (oData : Text) :
    s.pcData oData = s := by
  simp only [dataPaths, List.forall_mem_cons] at h
  obtain ⟨h1, h2, h3, h4, h5, h6, h7, h8, h9, h10, h11, h12, h13, h14, h15, h16, h17, h18, -⟩ := h
  unfold pcData
  rw [if_neg h1, if_neg h2, if_neg h3, if_neg h4, if_neg h5, if_neg h6, if_neg h7, if_neg h8,
    if_neg h9, if_neg h10]
  have hsame : (fun m => trackData s.oPath m oData) = id := by
    funext m
    unfold trackData
    rw [if_neg h11, if_neg h12, if_neg h13, if_neg h14, if_neg h15, if_neg h16, if_neg h17,
      if_neg h18]
    rfl
  rw [hsame, Option.map_id_fun]
  rfl

theorem read_cons (r : RMP × List Item) (c : Event) (calls : List Event) :
    read r (c :: calls) = (call r c).bind fun r' => read r' calls := by
  unfold read
  rw [List.foldlM_cons]
  rfl

theorem read_data {s : RMP} (h : ∀ q ∈ dataPaths, s.oPath ≠ q) (items : List Item)
    (oData : Text) : read (s, items) (Node.data oData).calls = some (s, items) := by
  rw [Node.calls, read_cons]
  show (some (s.pcData oData, items)).bind _ = _
  rw [pcData_of_ne h]
  rfl

theorem read_append (r : RMP × List Item) (calls calls' : List Event) :
    read r (calls ++ calls') = (read r calls).bind fun r' => read r' calls' := by
  unfold read
  rw [List.foldlM_append]
  rfl

theorem read_element {s s' : RMP} {items items' : List Item} {name : Text} {oAttrMap : AttrMap}
    {children : List Node}
    (h : read (s.beginElement name, items) (callsOf children) = some (s', items')) :
    read (s, items) (Node.element name oAttrMap children).calls =
      (s'.endElement name).map fun e => (e.1, items' ++ e.2) := by
  rw [Node.calls, read_cons]
  show (read (s.beginElement name, items) _) = _
  rw [read_append, h]
  show read (s', items') [.endElement name] = _
  rw [read_cons]
  cases hend : s'.endElement name with
  | none => simp [call, hend]
  | some e => simp [call, hend, read]

theorem beginElement_of_ne {s : RMP} {name : Text} (htrack : name :: s.oPath ≠ trackPath)
    (hcookie : name :: s.oPath ≠ cookiePath) :
    s.beginElement name = { s with oPath := name :: s.oPath } := by
  unfold beginElement
  simp only [if_neg htrack, if_neg hcookie]

theorem endElement_of_ne {s : RMP} {name x : Text} {p : Path} (hpath : s.oPath = x :: p)
    (hcookie : x :: p ≠ cookiePath) (htrack : name ≠ bytes "TRACK") :
    s.endElement name = some ({ s with oPath := p }, []) := by
  unfold endElement
  simp only [hpath, if_neg hcookie, if_neg htrack]

theorem read_unread {s : RMP} {items : List Item} {p : Path} {name : Text} {oAttrMap : AttrMap}
    {children : List Node} (hpath : s.oPath = p) (hinert : Inert (name :: p))
    (hname : name = bytes "TRACK" → p = listPath)
    (h : read ({ s with oPath := name :: p }, items) (callsOf children) =
      some ({ s with oPath := name :: p }, items)) :
    read (s, items) (Node.element name oAttrMap children).calls = some (s, items) := by
  have htrack := hinert.ne (show trackPath ∈ specials by simp [specials])
  have hcookie := hinert.ne (show cookiePath ∈ specials by simp [specials])
  have hne : name ≠ bytes "TRACK" := by
    intro heq
    apply htrack
    rw [heq, hname heq]
    rfl
  subst hpath
  rw [← beginElement_of_ne htrack hcookie] at h
  rw [read_element h, beginElement_of_ne htrack hcookie, endElement_of_ne rfl hcookie hne]
  simp

theorem read_inert {s : RMP} {items : List Item} {p : Path} (hpath : s.oPath = p)
    (hinert : Inert p) :
    ∀ {nodes : List Node}, InPlaceAll p nodes → read (s, items) (callsOf nodes) = some (s, items)
  | [], _ => rfl
  | .data oData :: nodes, hplace => by
      have hdata := pcData_of_ne
        (fun q hq => hpath ▸ hinert.ne (List.mem_append_left _ hq)) oData
      rw [callsOf, Node.calls, read_append, read_cons]
      show read (s.pcData oData, items) (callsOf nodes) = _
      rw [hdata]
      exact read_inert hpath hinert hplace.2
  | .element name oAttrMap children :: nodes, hplace => by
      rw [callsOf, read_append, read_unread hpath (hinert.cons name) hplace.1.1
        (read_inert rfl (hinert.cons name) hplace.1.2)]
      exact read_inert hpath hinert hplace.2

/-! ## Elements with data -/

/-- The data of an element in the element whose path this is. -/
def leafStep (p : Path) (s : RMP) (l : Text × Text) : RMP :=
  { pcData { s with oPath := l.1 :: p } l.2 with oPath := p }

theorem oPath_foldl_pcData (ts : List Text) (s : RMP) :
    (ts.foldl pcData s).oPath = s.oPath := by
  induction ts generalizing s with
  | nil => rfl
  | cons t ts ih => rw [List.foldl_cons, ih, oPath_pcData]

theorem oPath_foldl_leafStep {p : Path} (ls : List (Text × Text)) {s : RMP} (h : s.oPath = p) :
    (ls.foldl (leafStep p) s).oPath = p := by
  induction ls generalizing s with
  | nil => exact h
  | cons l ls ih => exact ih rfl

theorem foldl_pcData {p : Path} (name : Text) (ts : List Text) {s : RMP} (hpath : s.oPath = p) :
    { ts.foldl pcData { s with oPath := name :: p } with oPath := p } =
      (ts.map fun t => (name, t)).foldl (leafStep p) s := by
  induction ts generalizing s with
  | nil =>
    subst hpath
    rfl
  | cons t ts ih =>
    rw [List.map_cons, List.foldl_cons, List.foldl_cons,
      ← @ih (leafStep p s (name, t)) rfl]
    have hsame : { leafStep p s (name, t) with oPath := name :: p } =
        pcData { s with oPath := name :: p } t := by
      have hkeep := oPath_pcData { s with oPath := name :: p } t
      unfold leafStep
      generalize pcData { s with oPath := name :: p } t = s' at hkeep
      cases s'
      simp_all
    rw [hsame]

/-- What is in an element with data: of the elements in it nothing is looked for. -/
theorem read_texts {p : Path} (hinert : ∀ x, Inert (x :: p)) {items : List Item} :
    ∀ {nodes : List Node} {s : RMP}, s.oPath = p → InPlaceAll p nodes →
      read (s, items) (callsOf nodes) = some ((texts nodes).foldl pcData s, items) := by
  intro nodes
  induction nodes with
  | nil => exact fun _ _ => rfl
  | cons node nodes ih =>
    intro s hpath hplace
    rw [callsOf, read_append]
    cases node with
    | data oData =>
      rw [Node.calls, read_cons]
      exact ih ((oPath_pcData s oData).trans hpath) hplace.2
    | element name oAttrMap children =>
      rw [read_unread hpath (hinert name) hplace.1.1
        (read_inert rfl (hinert name) hplace.1.2)]
      exact ih hpath hplace.2

theorem read_leaf {s : RMP} {items : List Item} {p : Path} {name : Text} {oAttrMap : AttrMap}
    {children : List Node} (hpath : s.oPath = p) (hinert : ∀ x, Inert (x :: name :: p))
    (htrack : name :: p ≠ trackPath) (hcookie : name :: p ≠ cookiePath)
    (hname : name ≠ bytes "TRACK") (hplace : InPlaceAll (name :: p) children) :
    read (s, items) (Node.element name oAttrMap children).calls =
      some (((texts children).map fun t => (name, t)).foldl (leafStep p) s, items) := by
  have hread := @read_texts (name :: p) hinert items children { s with oPath := name :: p } rfl
    hplace
  have hbegin : s.beginElement name = { s with oPath := name :: p } := by
    rw [beginElement_of_ne (by rw [hpath]; exact htrack) (by rw [hpath]; exact hcookie), hpath]
  rw [← hbegin] at hread
  have hkeep : ((texts children).foldl pcData (s.beginElement name)).oPath = name :: p := by
    rw [oPath_foldl_pcData, hbegin]
  rw [read_element hread, endElement_of_ne hkeep hcookie hname, hbegin, Option.map_some,
    foldl_pcData name _ hpath, List.append_nil]

theorem read_leaves {p : Path} (hinert : ∀ name x, Inert (x :: name :: p))
    (htrack : ∀ name, name :: p ≠ trackPath) (hcookie : ∀ name, name :: p ≠ cookiePath)
    (hdata : ∀ s : RMP, s.oPath = p → ∀ oData, s.pcData oData = s) (hp : p ≠ listPath)
    {items : List Item} :
    ∀ {nodes : List Node} {s : RMP}, s.oPath = p → InPlaceAll p nodes →
      read (s, items) (callsOf nodes) = some ((leaves nodes).foldl (leafStep p) s, items) := by
  intro nodes
  induction nodes with
  | nil => exact fun _ _ => rfl
  | cons node nodes ih =>
    intro s hpath hplace
    rw [callsOf, read_append]
    cases node with
    | data oData =>
      rw [Node.calls, read_cons]
      show (some (s.pcData oData, items)).bind _ = _
      rw [hdata s hpath]
      exact ih hpath hplace.2
    | element name oAttrMap children =>
      rw [read_leaf hpath (hinert name) (htrack name) (hcookie name)
        (fun heq => hp (hplace.1.1 heq)) hplace.1.2, leaves, List.foldl_append]
      exact ih (oPath_foldl_leafStep _ hpath) hplace.2

/-! ## What the data set -/

theorem leafStep_of_ne {p : Path} {s : RMP} (hpath : s.oPath = p) {name : Text}
    (h : ∀ q ∈ dataPaths, name :: p ≠ q) (t : Text) : leafStep p s (name, t) = s := by
  subst hpath
  unfold leafStep
  rw [pcData_of_ne (by exact h)]

theorem leafStep_server {s : RMP} (hpath : s.oPath = serverPath) (l : Text × Text) :
    leafStep serverPath s l =
      if l.1 = bytes "NETNAME" then s.setMember l.2 .server
      else if l.1 = bytes "LOCATION" then s.setMember l.2 .location
      else s := by
  obtain ⟨name, t⟩ := l
  simp only
  split_ifs with hnet hlocation
  · subst hnet
    cases s
    cases hpath
    rfl
  · subst hlocation
    cases s
    cases hpath
    rfl
  · have hnames : leafNames serverPath = [bytes "NETNAME", bytes "LOCATION"] := by decide
    refine leafStep_of_ne hpath (ne_of_notMem ?_) t
    rw [hnames]
    simp [hnet, hlocation]

theorem leafStep_list {s : RMP} (hpath : s.oPath = listPath) (name t : Text) :
    leafStep listPath s (name, t) = if name = bytes "LISTID" then s.setMember t .listId else s := by
  split_ifs with hid
  · subst hid
    cases s
    cases hpath
    rfl
  · have hnames : leafNames listPath = [bytes "LISTID"] := by decide
    refine leafStep_of_ne hpath (ne_of_notMem ?_) t
    rw [hnames]
    simp [hid]

theorem leafStep_package {s : RMP} (hpath : s.oPath = packagePath) (name t : Text) :
    leafStep packagePath s (name, t) =
      if name = bytes "PACKAGEID" then s.setMember t .packageId
      else if name = bytes "TARGET" then s.setMember t .playlist
      else s := by
  split_ifs with hid htarget
  · subst hid
    cases s
    cases hpath
    rfl
  · subst htarget
    cases s
    cases hpath
    rfl
  · have hnames : leafNames packagePath = [bytes "PACKAGEID", bytes "TARGET"] := by decide
    refine leafStep_of_ne hpath (ne_of_notMem ?_) t
    rw [hnames]
    simp [hid, htarget]

/-! ## Facts and paths -/

@[simp] theorem oPath_setMember (s : RMP) (t : Text) (x : Member) :
    (s.setMember t x).oPath = s.oPath := by
  cases x <;> rfl

theorem meet_path (s : RMP) (items : List Item) (p : Path) (f : Fact) :
    meet ({ s with oPath := p }, items) f =
      ({ (meet (s, items) f).1 with oPath := p }, (meet (s, items) f).2) := by
  cases f with
  | member x t => cases x <;> rfl
  | cookie name value => rfl
  | track ls => rfl

theorem foldl_meet_path (fs : List Fact) (s : RMP) (items : List Item) (p : Path) :
    fs.foldl meet ({ s with oPath := p }, items) =
      ({ (fs.foldl meet (s, items)).1 with oPath := p }, (fs.foldl meet (s, items)).2) := by
  induction fs generalizing s items with
  | nil => rfl
  | cons f fs ih => rw [List.foldl_cons, meet_path, ih, List.foldl_cons]

theorem oPath_foldl_meet (fs : List Fact) (r : RMP × List Item) :
    (fs.foldl meet r).1.oPath = r.1.oPath := by
  induction fs generalizing r with
  | nil => rfl
  | cons f fs ih =>
    rw [List.foldl_cons, ih]
    cases f with
    | member x t => exact oPath_setMember _ _ _
    | cookie name value => rfl
    | track ls => rfl

theorem foldl_member {p : Path} {name : Text} {x : Member}
    (h : ∀ s : RMP, s.oPath = p → ∀ t, leafStep p s (name, t) = s.setMember t x) (ts : List Text)
    {s : RMP} (hpath : s.oPath = p) (items : List Item) :
    (ts.map (Fact.member x)).foldl meet (s, items) =
      ((ts.map fun t => (name, t)).foldl (leafStep p) s, items) := by
  induction ts generalizing s with
  | nil => rfl
  | cons t ts ih =>
    rw [List.map_cons, List.map_cons, List.foldl_cons, List.foldl_cons, h s hpath]
    exact ih ((oPath_setMember s t x).trans hpath)

theorem foldl_unread {p : Path} {name : Text}
    (h : ∀ s : RMP, s.oPath = p → ∀ t, leafStep p s (name, t) = s) (ts : List Text)
    {s : RMP} (hpath : s.oPath = p) :
    (ts.map fun t => (name, t)).foldl (leafStep p) s = s := by
  induction ts with
  | nil => rfl
  | cons t ts ih =>
    rw [List.map_cons, List.foldl_cons, h s hpath]
    exact ih

theorem foldl_server (ls : List (Text × Text)) {s : RMP} (hpath : s.oPath = serverPath)
    (items : List Item) :
    (ls.filterMap serverFact).foldl meet (s, items) =
      (ls.foldl (leafStep serverPath) s, items) := by
  induction ls generalizing s with
  | nil => rfl
  | cons l ls ih =>
    rw [List.foldl_cons, leafStep_server hpath, List.filterMap_cons]
    unfold serverFact at ih ⊢
    by_cases hnet : l.1 = bytes "NETNAME"
    · simp only [if_pos hnet, List.foldl_cons]
      exact ih ((oPath_setMember _ _ _).trans hpath)
    · by_cases hlocation : l.1 = bytes "LOCATION"
      · simp only [if_neg hnet, if_pos hlocation, List.foldl_cons]
        exact ih ((oPath_setMember _ _ _).trans hpath)
      · simp only [if_neg hnet, if_neg hlocation]
        exact ih hpath

theorem foldl_cookie (ls : List (Text × Text)) {s : RMP} (hpath : s.oPath = cookiePath) :
    ls.foldl (leafStep cookiePath) s =
      { s with
        oCookieName := lastOf (bytes "NAME") s.oCookieName ls
        oCookieValue := lastOf (bytes "VALUE") s.oCookieValue ls } := by
  induction ls generalizing s with
  | nil => rfl
  | cons l ls ih =>
    obtain ⟨name, t⟩ := l
    have hstep : leafStep cookiePath s (name, t) =
        { s with
          oCookieName := if name = bytes "NAME" then t else s.oCookieName
          oCookieValue := if name = bytes "VALUE" then t else s.oCookieValue } := by
      by_cases hname : name = bytes "NAME"
      · subst hname
        cases s
        cases hpath
        rfl
      · by_cases hvalue : name = bytes "VALUE"
        · subst hvalue
          cases s
          cases hpath
          rfl
        · have hnames : leafNames cookiePath = [bytes "NAME", bytes "VALUE"] := by decide
          rw [if_neg hname, if_neg hvalue]
          refine leafStep_of_ne hpath (ne_of_notMem ?_) t
          rw [hnames]
          simp [hname, hvalue]
    rw [List.foldl_cons, ih (by rw [hstep]; exact hpath), hstep]
    rfl

/-! ## A track -/

/-- The metadata of a track, with the data read so far. -/
def metaFrom (m : MetaData) (ls : List (Text × Text)) : MetaData :=
  ls.foldl (fun m l => trackData (l.1 :: trackPath) m l.2) m

theorem field_metaFrom {β : Type} {π : MetaData → β} {g : Text → β} {name : Text}
    (hstep : ∀ (m : MetaData) (l : Text × Text),
      π (trackData (l.1 :: trackPath) m l.2) = if l.1 = name then g l.2 else π m)
    (ls : List (Text × Text)) {m : MetaData} {old : Text} (hold : π m = g old) :
    π (metaFrom m ls) = g (lastOf name old ls) := by
  induction ls generalizing m old with
  | nil => exact hold
  | cons l ls ih =>
    apply ih
    rw [hstep]
    show _ = g (if l.1 = name then l.2 else old)
    split
    · rfl
    · exact hold

theorem field_ite {β : Type} {π : MetaData → β} {c : Prop} [Decidable c] {m m' : MetaData} {v : β}
    (hm : c → π m = v) (hm' : π m' = v) : π (if c then m else m') = v := by
  split
  · exact hm ‹_›
  · exact hm'

theorem metaFrom_new (ls : List (Text × Text)) : metaFrom {} ls = trackMetaData ls := by
  have hext : ∀ m m' : MetaData, m.title = m'.title → m.album = m'.album →
      m.artist = m'.artist → m.genre = m'.genre → m.size = m'.size → m.year = m'.year →
      m.time = m'.time → m.extension = m'.extension → m = m' := by
    intro m m' h1 h2 h3 h4 h5 h6 h7 h8
    cases m
    cases m'
    simp_all
  refine hext _ _ (field_metaFrom (g := id) ?_ ls rfl) (field_metaFrom (g := id) ?_ ls rfl)
    (field_metaFrom (g := id) ?_ ls rfl) (field_metaFrom (g := id) ?_ ls rfl)
    (field_metaFrom (g := fun t => UInt32.ofInt (atoi t)) ?_ ls rfl)
    (field_metaFrom (g := fun t => UInt32.ofInt (atoi t)) ?_ ls rfl)
    (field_metaFrom (g := fun t => UInt32.ofInt (atoi t)) ?_ ls rfl)
    (field_metaFrom (g := bumpItUp) ?_ ls rfl)
  all_goals
    rintro m ⟨name, t⟩
    split
    · rename_i hname
      cases hname
      rfl
    · rename_i hname
      unfold trackData
      iterate 8 refine field_ite (fun hc => by
        first | rfl | exact absurd (List.head_eq_of_cons_eq hc) hname) ?_
      rfl

theorem foldl_track (ls : List (Text × Text)) {s : RMP} (hpath : s.oPath = trackPath)
    {m : MetaData} (hm : s.pMetaData = some m) :
    ls.foldl (leafStep trackPath) s =
      { s with
        oFileName := lastOf (bytes "FILENAME") s.oFileName ls
        oTrackId := lastOf (bytes "TRACKID") s.oTrackId ls
        oTrackDir := lastOf (bytes "DIR") s.oTrackDir ls
        pMetaData := some (metaFrom m ls) } := by
  induction ls generalizing s m with
  | nil =>
    cases s
    cases hm
    rfl
  | cons l ls ih =>
    obtain ⟨name, t⟩ := l
    have hstep : leafStep trackPath s (name, t) =
        { s with
          oFileName := if name = bytes "FILENAME" then t else s.oFileName
          oTrackId := if name = bytes "TRACKID" then t else s.oTrackId
          oTrackDir := if name = bytes "DIR" then t else s.oTrackDir
          pMetaData := some (trackData (name :: trackPath) m t) } := by
      by_cases hfile : name = bytes "FILENAME"
      · subst hfile
        cases s
        cases hpath
        cases hm
        rfl
      by_cases hid : name = bytes "TRACKID"
      · subst hid
        cases s
        cases hpath
        cases hm
        rfl
      by_cases hdir : name = bytes "DIR"
      · subst hdir
        cases s
        cases hpath
        cases hm
        rfl
      have hten : ∀ q ∈ dataPaths.take 10, q = bytes "FILENAME" :: trackPath ∨
          q = bytes "TRACKID" :: trackPath ∨ q = bytes "DIR" :: trackPath ∨
            q.tail ≠ trackPath := by
        decide
      have hne : ∀ q ∈ dataPaths.take 10, name :: trackPath ≠ q := by
        intro q hq heq
        rcases hten q hq with rfl | rfl | rfl | htail
        · exact hfile (List.head_eq_of_cons_eq heq)
        · exact hid (List.head_eq_of_cons_eq heq)
        · exact hdir (List.head_eq_of_cons_eq heq)
        · exact htail (heq ▸ rfl)
      simp only [dataPaths, List.take_succ_cons, List.take_zero, List.forall_mem_cons] at hne
      obtain ⟨h1, h2, h3, h4, h5, h6, h7, h8, h9, h10, -⟩ := hne
      rw [if_neg hfile, if_neg hid, if_neg hdir]
      unfold leafStep pcData
      simp only [if_neg h1, if_neg h2, if_neg h3, if_neg h4, if_neg h5, if_neg h6, if_neg h7,
        if_neg h8, if_neg h9, if_neg h10, hm, hpath, Option.map_some]
    rw [List.foldl_cons, @ih (leafStep trackPath s (name, t)) (by rw [hstep]; exact hpath)
      (trackData (name :: trackPath) m t) (by rw [hstep]), hstep]
    rfl

theorem read_track {s : RMP} {items : List Item} {oAttrMap : AttrMap} {children : List Node}
    (hpath : s.oPath = listPath) (hplace : InPlaceAll trackPath children) :
    read (s, items) (Node.element (bytes "TRACK") oAttrMap children).calls =
      some (meet (s, items) (.track (leaves children))) := by
  have hdata : ∀ s : RMP, s.oPath = trackPath → ∀ oData, s.pcData oData = s := by
    intro s hs oData
    exact pcData_of_ne (by rw [hs]; decide) oData
  have hbegin : s.beginElement (bytes "TRACK") =
      { s with oPath := trackPath, pMetaData := some {} } := by
    cases s
    cases hpath
    rfl
  have hread := @read_leaves trackPath inert_track (fun name => by
      simp [trackPath, listPath, packagePath]) (fun name => by
      simp [trackPath, cookiePath, listPath, packagePath]) hdata (by decide) items children
    { s with oPath := trackPath, pMetaData := some {} } rfl hplace
  rw [foldl_track (leaves children) rfl rfl, metaFrom_new, ← hbegin] at hread
  rw [read_element hread, hbegin]
  cases s
  cases hpath
  rfl

theorem read_list {nodes : List Node} {s : RMP} {items : List Item} (hpath : s.oPath = listPath)
    (hplace : InPlaceAll listPath nodes) :
    read (s, items) (callsOf nodes) = some ((listFacts nodes).foldl meet (s, items)) := by
  induction nodes generalizing s items with
  | nil => rfl
  | cons node nodes ih =>
    rw [callsOf, read_append]
    cases node with
    | data oData =>
      rw [read_data (by rw [hpath]; decide)]
      exact ih hpath hplace.2
    | element name oAttrMap children =>
      rw [listFacts, List.foldl_append]
      by_cases htrack : name = bytes "TRACK"
      · subst htrack
        rw [read_track hpath hplace.1.2, if_pos rfl]
        exact ih (s := (meet (s, items) (.track (leaves children))).1) hpath hplace.2
      · have hcookie : name :: listPath ≠ cookiePath := by
          simp [listPath, cookiePath, packagePath]
        have hnot : name :: listPath ≠ trackPath := by simpa [trackPath] using htrack
        rw [read_leaf hpath (inert_list htrack) hnot hcookie htrack hplace.1.2, if_neg htrack]
        by_cases hid : name = bytes "LISTID"
        · rw [if_pos hid, foldl_member (fun s hs t => by
            rw [leafStep_list hs, if_pos hid]) _ hpath]
          exact ih (oPath_foldl_leafStep _ hpath) hplace.2
        · rw [if_neg hid, foldl_unread (fun s hs t => by
            rw [leafStep_list hs, if_neg hid]) _ hpath]
          exact ih hpath hplace.2

/-! ## A package -/

/-- An element around others, when what is in it is read as facts. -/
theorem read_inner {s : RMP} {items : List Item} {p : Path} {name : Text} {oAttrMap : AttrMap}
    {children : List Node} {fs : List Fact} (hpath : s.oPath = p) (htrack : name :: p ≠ trackPath)
    (hcookie : name :: p ≠ cookiePath) (hname : name ≠ bytes "TRACK")
    (h : read ({ s with oPath := name :: p }, items) (callsOf children) =
      some (fs.foldl meet ({ s with oPath := name :: p }, items))) :
    read (s, items) (Node.element name oAttrMap children).calls =
      some (fs.foldl meet (s, items)) := by
  have hbegin : s.beginElement name = { s with oPath := name :: p } := by
    rw [beginElement_of_ne (by rw [hpath]; exact htrack) (by rw [hpath]; exact hcookie), hpath]
  have hkeep : (fs.foldl meet (s, items)).1.oPath = p := (oPath_foldl_meet fs _).trans hpath
  have hmeet := foldl_meet_path fs s items (name :: p)
  generalize fs.foldl meet (s, items) = r at hkeep hmeet ⊢
  obtain ⟨s', items'⟩ := r
  rw [hmeet, ← hbegin] at h
  rw [read_element h, endElement_of_ne rfl hcookie hname]
  cases s'
  cases hkeep
  rw [Option.map_some, List.append_nil]

theorem read_cookie {s : RMP} {items : List Item} {oAttrMap : AttrMap} {children : List Node}
    (hpath : s.oPath = packagePath) (hplace : InPlaceAll cookiePath children) :
    read (s, items) (Node.element (bytes "COOKIE") oAttrMap children).calls =
      some (meet (s, items) (.cookie (lastOf (bytes "NAME") [] (leaves children))
        (lastOf (bytes "VALUE") [] (leaves children)))) := by
  have hdata : ∀ s : RMP, s.oPath = cookiePath → ∀ oData, s.pcData oData = s := by
    intro s hs oData
    exact pcData_of_ne (by rw [hs]; decide) oData
  have hbegin : s.beginElement (bytes "COOKIE") =
      { s with oPath := cookiePath, oCookieName := [], oCookieValue := [] } := by
    cases s
    cases hpath
    rfl
  have hread := @read_leaves cookiePath inert_cookie (fun name => by
      simp +decide [trackPath, cookiePath, listPath, packagePath]) (fun name => by
      simp [cookiePath, packagePath]) hdata (by decide) items children
    { s with oPath := cookiePath, oCookieName := [], oCookieValue := [] } rfl hplace
  rw [foldl_cookie (leaves children) rfl, ← hbegin] at hread
  rw [read_element hread, hbegin]
  cases s
  cases hpath
  exact congrArg some (Prod.ext rfl (List.append_nil items))

theorem read_server {s : RMP} {items : List Item} {oAttrMap : AttrMap} {children : List Node}
    (hpath : s.oPath = packagePath) (hplace : InPlaceAll serverPath children) :
    read (s, items) (Node.element (bytes "SERVER") oAttrMap children).calls =
      some (((leaves children).filterMap serverFact).foldl meet (s, items)) := by
  have hdata : ∀ s : RMP, s.oPath = serverPath → ∀ oData, s.pcData oData = s := by
    intro s hs oData
    exact pcData_of_ne (by rw [hs]; decide) oData
  apply read_inner hpath (by decide) (by decide) (by decide)
  rw [foldl_server _ (by rfl)]
  exact read_leaves inert_server (fun name => by
      simp +decide [trackPath, serverPath, listPath, packagePath]) (fun name => by
      simp [cookiePath, serverPath, packagePath]) hdata (by decide) rfl hplace

theorem read_package {nodes : List Node} {s : RMP} {items : List Item}
    (hpath : s.oPath = packagePath) (hplace : InPlaceAll packagePath nodes) :
    read (s, items) (callsOf nodes) = some ((packageFacts nodes).foldl meet (s, items)) := by
  induction nodes generalizing s items with
  | nil => rfl
  | cons node nodes ih =>
    rw [callsOf, read_append]
    cases node with
    | data oData =>
      rw [read_data (by rw [hpath]; decide)]
      exact ih hpath hplace.2
    | element name oAttrMap children =>
      have hname : name ≠ bytes "TRACK" := fun heq =>
        absurd (hplace.1.1 heq) (by decide)
      rw [packageFacts, List.foldl_append]
      by_cases hserver : name = bytes "SERVER"
      · subst hserver
        rw [read_server hpath hplace.1.2, if_pos rfl]
        exact ih ((oPath_foldl_meet _ _).trans hpath) hplace.2
      by_cases hcookie : name = bytes "COOKIE"
      · subst hcookie
        rw [read_cookie hpath hplace.1.2, if_neg (by decide), if_pos rfl]
        exact ih hpath hplace.2
      by_cases hlist : name = bytes "TRACKLIST"
      · subst hlist
        rw [read_inner hpath (by decide) (by decide) hname (read_list rfl hplace.1.2),
          if_neg (by decide), if_neg (by decide), if_pos rfl]
        exact ih ((oPath_foldl_meet _ _).trans hpath) hplace.2
      have htrack : name :: packagePath ≠ trackPath := by
        simp [trackPath, listPath, packagePath]
      have hnot : name :: packagePath ≠ cookiePath := by simpa [cookiePath] using hcookie
      rw [read_leaf hpath (inert_package hserver hcookie hlist) htrack hnot hname hplace.1.2,
        if_neg hserver, if_neg hcookie, if_neg hlist]
      by_cases hid : name = bytes "PACKAGEID"
      · rw [if_pos hid, foldl_member (fun s hs t => by
          rw [leafStep_package hs, if_pos hid]) _ hpath]
        exact ih (oPath_foldl_leafStep _ hpath) hplace.2
      rw [if_neg hid]
      by_cases htarget : name = bytes "TARGET"
      · rw [if_pos htarget, foldl_member (fun s hs t => by
          rw [leafStep_package hs, if_neg hid, if_pos htarget]) _ hpath]
        exact ih (oPath_foldl_leafStep _ hpath) hplace.2
      · rw [if_neg htarget, foldl_unread (fun s hs t => by
          rw [leafStep_package hs, if_neg hid, if_neg htarget]) _ hpath]
        exact ih hpath hplace.2

/-- The calls of a document are its facts, one after the other. -/
theorem read_root {root : Node} {s : RMP} {items : List Item} (hpath : s.oPath = [])
    (hplace : root.InPlace []) :
    read (s, items) root.calls = some ((facts root).foldl meet (s, items)) := by
  cases root with
  | data oData =>
    rw [read_data (by rw [hpath]; decide)]
    rfl
  | element name oAttrMap children =>
    by_cases hpackage : name = bytes "PACKAGE"
    · subst hpackage
      exact read_inner hpath (by decide) (by decide) (by decide) (read_package rfl hplace.2)
    · have hinert := inert_root hpackage
      rw [read_unread hpath hinert hplace.1 (read_inert rfl hinert hplace.2), facts,
        if_neg hpackage]
      rfl

end RMP

end FreeAmp.Dlm.Rmp
