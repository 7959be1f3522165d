/-
  Dlm/RmpReads.lean --- what one `RMP` makes of the documents that it reads one after the other.

      readAll_right       each item is that of its own element and document
      readAll_right_fails where a `TRACK` has no `FILENAME`, and where it is not in the list

  Nothing sets the members back, neither between two `TRACK` elements nor between two
  documents.  Only the name and the value of a cookie begin anew with their element.
-/
import FreeAmp.Dlm.RmpDocument

namespace FreeAmp.Dlm.Rmp

open FreeAmp.Base FreeAmp.Lib FreeAmp.Xml

/-! ## The items of a document -/

/-- What is said of a single track, beside its metadata. -/
inductive Own where
  | fileName
  | trackId
  | trackDir
  deriving DecidableEq, Repr

def Own.name : Own → Text
  | .fileName => bytes "FILENAME"
  | .trackId => bytes "TRACKID"
  | .trackDir => bytes "DIR"

/-- What has been said of the document, after one more fact. -/
def heard (x : Member) (old : Text) : Fact → Text
  | .member y t => if y = x then t else old
  | .cookie _ _ => old
  | .track _ => old

/-- What the tracks have left, after one more fact. -/
def left (y : Own) (old : Text) : Fact → Text
  | .member _ _ => old
  | .cookie _ _ => old
  | .track ls => lastOf y.name old ls

/-- `NAME=VALUE` -/
def Fact.pair : Fact → Option Text
  | .member _ _ => none
  | .cookie name value => some (name ++ bytes "=" ++ value)
  | .track _ => none

/-- The cookies seen so far. -/
def cookieOf (before : List Fact) : Text :=
  (bytes "; ").intercalate (before.filterMap Fact.pair)

/-- The item of a track: its own data, and what the document has said before it. -/
def trackItem (before : List Fact) (ls : List (Text × Text)) : Item where
  src := RMP.mangleLocation (lastOf (Own.name .trackId) [] ls) (lastOf (Own.name .fileName) [] ls)
    (before.foldl (heard .listId) []) (before.foldl (heard .packageId) [])
    (lastOf (Own.name .trackDir) [] ls)
    (bytes "http://" ++ before.foldl (heard .server) [] ++ before.foldl (heard .location) [])
  dest := lastOf (Own.name .fileName) [] ls
  metadata := trackMetaData ls
  playlist := before.foldl (heard .playlist) []
  bytesTotal := (trackMetaData ls).size
  cookie := cookieOf before

def itemsFrom (before : List Fact) : List Fact → List Item
  | [] => []
  | .member x t :: fs => itemsFrom (before ++ [.member x t]) fs
  | .cookie name value :: fs => itemsFrom (before ++ [.cookie name value]) fs
  | .track ls :: fs => trackItem before ls :: itemsFrom (before ++ [.track ls]) fs

/-- One item for each `TRACK` of the list, in the order of the document. -/
def documentItems (root : Node) : List Item := itemsFrom [] (facts root)

/-! ## Documents one after the other -/

/-- The calls of a document up to the point where the parser stops. -/
inductive Document where
  | wellFormed (root : Node)
  | malformed (calls : List Event)

def Document.calls : Document → List Event
  | .wellFormed root => root.calls
  | .malformed calls => calls

/-- `ReadDownloadFile` with one `RMP`: each document with the list it is read into. -/
def readAll (s : RMP) : List (Document × List Item) → Option (RMP × List (List Item))
  | [] => some (s, [])
  | d :: ds => (RMP.read (s, d.2) d.1.calls).bind fun r =>
    (readAll r.1 ds).map fun e => (e.1, r.2 :: e.2)

/-- What is to come of a document. -/
def Right (d : Document × List Item) (list : List Item) : Prop :=
  ∀ root, d.1 = .wellFormed root → list = d.2 ++ documentItems root

/-! ## When it does -/

namespace RMP

def member (s : RMP) : Member → Text
  | .packageId => s.oPackageId
  | .playlist => s.oPlaylist
  | .server => s.oServer
  | .location => s.oLocation
  | .listId => s.oListId

def own (s : RMP) : Own → Text
  | .fileName => s.oFileName
  | .trackId => s.oTrackId
  | .trackDir => s.oTrackDir

end RMP

/-- Nothing of what a track needs is left of another track or of another document. -/
structure Complete (s : RMP) (before : List Fact) (ls : List (Text × Text)) : Prop where
  cookie : s.oCookie = []
  members : ∀ x, s.member x = [] ∨ ∃ t, Fact.member x t ∈ before
  own : ∀ y : Own, before.foldl (left y) (s.own y) = [] ∨ ∃ t, (y.name, t) ∈ ls

def CompleteFrom (s : RMP) (before : List Fact) : List Fact → Prop
  | [] => True
  | .member x t :: fs => CompleteFrom s (before ++ [.member x t]) fs
  | .cookie name value :: fs => CompleteFrom s (before ++ [.cookie name value]) fs
  | .track ls :: fs => Complete s before ls ∧ CompleteFrom s (before ++ [.track ls]) fs

/-- Wherever a `TRACK` is ended it is one of the list, or nothing is open. -/
def TracksClosed (p : Path) : List Event → Prop
  | [] => True
  | .beginElement oElement _ :: calls => TracksClosed (oElement :: p) calls
  | .pcData _ :: calls => TracksClosed p calls
  | .endElement oElement :: calls =>
    (oElement = bytes "TRACK" → p = trackPath ∨ p = []) ∧ TracksClosed p.tail calls

/-- The condition on a document and on the members in front of it. -/
def Document.Meets (s : RMP) : Document → Prop
  | .wellFormed root => s.oPath = [] ∧ root.InPlace [] ∧ CompleteFrom s [] (facts root)
  | .malformed calls => TracksClosed s.oPath calls

/-- Each document meets the condition when it is read. -/
def MeetsAll (s : RMP) : List (Document × List Item) → Prop
  | [] => True
  | d :: ds => d.1.Meets s ∧ ∀ r, RMP.read (s, d.2) d.1.calls = some r → MeetsAll r.1 ds

/-! ## The members behind the facts -/

/-- A value that some step sets does not depend on what there was. -/
theorem foldl_forgets {α β : Type} {f : β → α → β} {l : List α} {a : α} (ha : a ∈ l)
    (hset : ∀ b b', f b a = f b' a) (b b' : β) : l.foldl f b = l.foldl f b' := by
  obtain ⟨l₁, l₂, rfl⟩ := List.append_of_mem ha
  rw [List.foldl_append, List.foldl_append, List.foldl_cons, List.foldl_cons,
    hset (l₁.foldl f b) (l₁.foldl f b')]

namespace RMP

variable (fs : List Fact) (r : RMP × List Item)

theorem member_foldl (x : Member) :
    (fs.foldl meet r).1.member x = fs.foldl (heard x) (r.1.member x) := by
  induction fs generalizing r with
  | nil => rfl
  | cons f fs ih =>
    rw [List.foldl_cons, List.foldl_cons, ih]
    congr 1
    cases f with
    | member y t => cases x <;> cases y <;> rfl
    | cookie name value => cases x <;> rfl
    | track ls => cases x <;> rfl

theorem own_foldl (y : Own) : (fs.foldl meet r).1.own y = fs.foldl (left y) (r.1.own y) := by
  induction fs generalizing r with
  | nil => rfl
  | cons f fs ih =>
    rw [List.foldl_cons, List.foldl_cons, ih]
    congr 1
    cases f with
    | member x t => cases x <;> cases y <;> rfl
    | cookie name value => cases y <;> rfl
    | track ls => cases y <;> rfl

end RMP

theorem intercalate_concat (sep : Text) (x : Text) : ∀ xs : List Text, (∀ x ∈ xs, x ≠ []) →
    sep.intercalate (xs ++ [x]) =
      (if sep.intercalate xs = [] then [] else sep.intercalate xs ++ sep) ++ x
  | [], _ => by simp [List.intercalate]
  | [y], h => by
      have hy : y ≠ [] := h y List.mem_cons_self
      rw [List.singleton_append, List.intercalate_cons_cons, List.intercalate_singleton,
        List.intercalate_singleton, if_neg hy, List.append_assoc]
  | y :: z :: xs, h => by
      have hy : y ≠ [] := h y List.mem_cons_self
      have hrest := intercalate_concat sep x (z :: xs) fun t ht => h t (List.mem_cons_of_mem _ ht)
      have hz : sep.intercalate (z :: xs) ≠ [] := by
        have hz : z ≠ [] := h z (by simp)
        cases xs with
        | nil => rwa [List.intercalate_singleton]
        | cons t xs => simp [List.intercalate_cons_cons, hz]
      rw [if_neg hz] at hrest
      rw [List.cons_append, List.cons_append, List.intercalate_cons_cons, ← List.cons_append,
        hrest, List.intercalate_cons_cons, if_neg (by simp [hy])]
      simp only [List.append_assoc]

theorem RMP.cookie_foldl (fs : List Fact) {r : RMP × List Item} (h : r.1.oCookie = []) :
    (fs.foldl meet r).1.oCookie = cookieOf fs := by
  induction fs using List.reverseRecOn with
  | nil => exact h
  | append_singleton fs f ih =>
    rw [List.foldl_append, List.foldl_cons, List.foldl_nil]
    unfold cookieOf at ih ⊢
    rw [List.filterMap_append]
    cases f with
    | member x t =>
      have hkeep : ((fs.foldl meet r).1.setMember t x).oCookie = (fs.foldl meet r).1.oCookie := by
        cases x <;> rfl
      exact hkeep.trans (ih.trans (by rw [List.filterMap_cons_none rfl, List.filterMap_nil,
        List.append_nil]))
    | cookie name value =>
      have hpairs : ∀ x ∈ fs.filterMap Fact.pair, x ≠ [] := by
        intro x hx
        obtain ⟨f, -, hf⟩ := List.mem_filterMap.mp hx
        cases f with
        | member y t => cases hf
        | cookie name value =>
          cases hf
          have hsign : bytes "=" ≠ [] := by decide
          simp [hsign]
        | track ls => cases hf
      show addCookie (fs.foldl meet r).1.oCookie name value = _
      have hone : [Fact.cookie name value].filterMap Fact.pair = [name ++ bytes "=" ++ value] :=
        rfl
      rw [ih, hone, intercalate_concat _ _ _ hpairs]
      unfold addCookie
      split <;> simp only [List.append_assoc]
    | track ls =>
      exact ih.trans (by rw [List.filterMap_cons_none rfl, List.filterMap_nil,
        List.append_nil])

/-! ## The items behind the facts -/

namespace RMP

variable {s₀ : RMP} {items : List Item}

theorem meet_track {before : List Fact} {ls : List (Text × Text)} (h : Complete s₀ before ls) :
    (meet (before.foldl meet (s₀, items)) (.track ls)).2 =
      (before.foldl meet (s₀, items)).2 ++ [trackItem before ls] := by
  have hmembers : ∀ x, (before.foldl meet (s₀, items)).1.member x =
      before.foldl (heard x) [] := by
    intro x
    rw [member_foldl]
    rcases h.members x with hempty | ⟨t, hsaid⟩
    · exact congrArg (before.foldl (heard x)) hempty
    · refine foldl_forgets hsaid (fun b b' => ?_) _ _
      rw [heard, heard, if_pos rfl, if_pos rfl]
  have hown : ∀ y : Own, lastOf y.name ((before.foldl meet (s₀, items)).1.own y) ls =
      lastOf y.name [] ls := by
    intro y
    rw [own_foldl]
    rcases h.own y with hempty | ⟨t, hsaid⟩
    · exact congrArg (lastOf y.name · ls) hempty
    · refine foldl_forgets hsaid (fun b b' => ?_) _ _
      rw [if_pos rfl, if_pos rfl]
  have hcookie := cookie_foldl before (r := (s₀, items)) h.cookie
  have hlist := hmembers .listId
  have hpackage := hmembers .packageId
  have hserver := hmembers .server
  have hlocation := hmembers .location
  have hplaylist := hmembers .playlist
  have hfile := hown .fileName
  have hid := hown .trackId
  have hdir := hown .trackDir
  generalize before.foldl meet (s₀, items) = r at *
  simp only [member, own, Own.name] at *
  unfold meet trackItem
  simp only [item, Own.name, hcookie, hlist, hpackage, hserver, hlocation, hplaylist, hfile, hid,
    hdir]

theorem foldl_items (fs : List Fact) : ∀ before : List Fact, CompleteFrom s₀ before fs →
    (fs.foldl meet (before.foldl meet (s₀, items))).2 =
      (before.foldl meet (s₀, items)).2 ++ itemsFrom before fs := by
  induction fs with
  | nil => exact fun _ _ => (List.append_nil _).symm
  | cons f fs ih =>
    intro before h
    have hsnoc : meet (before.foldl meet (s₀, items)) f =
        (before ++ [f]).foldl meet (s₀, items) := by
      rw [List.foldl_append]
      rfl
    rw [List.foldl_cons, hsnoc]
    cases f with
    | member x t =>
      rw [ih _ h, ← hsnoc]
      rfl
    | cookie name value =>
      rw [ih _ h, ← hsnoc]
      rfl
    | track ls =>
      rw [ih _ h.2, ← hsnoc, meet_track h.1, List.append_assoc]
      rfl

/-! ## The callbacks and `m_pMetaData` -/

/-- Inside a `TRACK` of the list there is a `m_pMetaData`. -/
def Begun (s : RMP) : Prop := trackPath <:+ s.oPath → s.pMetaData.isSome

@[simp] theorem oPath_beginElement (s : RMP) (oElement : Text) :
    (s.beginElement oElement).oPath = oElement :: s.oPath := by
  unfold beginElement
  dsimp only
  split_ifs <;> rfl

theorem pMetaData_beginElement (s : RMP) (oElement : Text) :
    (s.beginElement oElement).pMetaData =
      if oElement :: s.oPath = trackPath then some {} else s.pMetaData := by
  unfold beginElement
  dsimp only
  split_ifs <;> rfl

theorem Begun.beginElement {s : RMP} (h : Begun s) (oElement : Text) :
    Begun (s.beginElement oElement) := by
  unfold Begun
  rw [oPath_beginElement, pMetaData_beginElement, List.suffix_cons_iff]
  intro hinside
  split
  · rfl
  · rename_i hne
    exact h (hinside.resolve_left fun heq => hne heq.symm)

theorem Begun.pcData {s : RMP} (h : Begun s) (oData : Text) : Begun (s.pcData oData) := by
  unfold Begun
  rw [oPath_pcData, (pcData_same s oData).2]
  exact h

theorem endElement_nil {s : RMP} (h : s.oPath = []) (oElement : Text) :
    s.endElement oElement = some (s, []) := by
  have hne : ([] : Path) ≠ cookiePath := by decide
  unfold endElement
  simp only [h, if_neg hne]

/-- The cookie apart, what an end of an element does is not a matter of the path. -/
theorem endElement_cons {s : RMP} {x : Text} {p : Path} (h : s.oPath = x :: p)
    (oElement : Text) : ∃ c, s.endElement oElement =
      if oElement = bytes "TRACK" then
        s.pMetaData.map fun m => ({ s with oPath := p, oCookie := c, pMetaData := none },
          [RMP.item { s with oPath := p, oCookie := c } m])
      else some ({ s with oPath := p, oCookie := c }, []) := by
  by_cases hcookie : x :: p = cookiePath
  · refine ⟨addCookie s.oCookie s.oCookieName s.oCookieValue, ?_⟩
    unfold endElement
    simp only [h, if_pos hcookie]
  · refine ⟨s.oCookie, ?_⟩
    unfold endElement
    simp only [h, if_neg hcookie]

/-- No end of an element takes a `m_pMetaData` that is not there. -/
theorem Begun.endElement {s : RMP} (h : Begun s) {oElement : Text}
    (htrack : oElement = bytes "TRACK" → s.oPath = trackPath ∨ s.oPath = []) :
    ∃ s' added, s.endElement oElement = some (s', added) ∧ Begun s' ∧ s'.oPath = s.oPath.tail := by
  cases hpath : s.oPath with
  | nil => exact ⟨s, [], endElement_nil hpath oElement, h, hpath⟩
  | cons x p =>
    obtain ⟨c, hend⟩ := endElement_cons hpath oElement
    rw [hend]
    by_cases hname : oElement = bytes "TRACK"
    · have hat : x :: p = trackPath := by
        rcases htrack hname with hat | hnil
        · exact hpath.symm.trans hat
        · exact absurd (hpath.symm.trans hnil) nofun
      obtain ⟨m, hm⟩ := Option.isSome_iff_exists.mp
        (h (by rw [hpath, hat]))
      rw [if_pos hname, hm]
      refine ⟨_, _, rfl, fun hinside : trackPath <:+ p => ?_, rfl⟩
      rw [List.tail_eq_of_cons_eq hat] at hinside
      exact absurd hinside (by decide)
    · rw [if_neg hname]
      exact ⟨_, _, rfl, fun hinside =>
        h (by rw [hpath]; exact hinside.trans (List.suffix_cons x p)), rfl⟩

/-- No call of a document that stops early takes a `m_pMetaData` that is not there. -/
theorem read_begun {calls : List Event} : ∀ {s : RMP} {items : List Item}, Begun s →
    TracksClosed s.oPath calls → ∃ r, read (s, items) calls = some r ∧ Begun r.1 := by
  induction calls with
  | nil => exact fun hbegun _ => ⟨_, rfl, hbegun⟩
  | cons c calls ih =>
    intro s items hbegun hclosed
    rw [read_cons]
    cases c with
    | beginElement oElement oAttrMap =>
      exact ih (hbegun.beginElement oElement) (by rwa [oPath_beginElement])
    | pcData oData => exact ih (hbegun.pcData oData) (by rwa [oPath_pcData])
    | endElement oElement =>
      obtain ⟨s', added, hend, hbegun', hpath⟩ := hbegun.endElement hclosed.1
      rw [call, hend]
      exact ih hbegun' (by rw [hpath]; exact hclosed.2)

end RMP

/-! ## Runs -/

/-- A document that meets the condition is read as it says, and leaves no path behind. -/
theorem Document.Meets.read {s : RMP} {d : Document} (h : d.Meets s) (hbegun : s.Begun)
    (list : List Item) :
    ∃ r, RMP.read (s, list) d.calls = some r ∧ r.1.Begun ∧ Right (d, list) r.2 := by
  cases d with
  | wellFormed root =>
    obtain ⟨hpath, hplace, hcomplete⟩ := h
    refine ⟨_, RMP.read_root hpath hplace, fun hinside => ?_, fun root' heq => ?_⟩
    · rw [RMP.oPath_foldl_meet, hpath] at hinside
      exact absurd hinside (by decide)
    · cases heq
      exact RMP.foldl_items (facts root) [] hcomplete
  | malformed calls =>
    obtain ⟨r, hread, hbegun'⟩ := @RMP.read_begun calls s list hbegun h
    exact ⟨r, hread, hbegun', nofun⟩

theorem readAll_begun {ds : List (Document × List Item)} : ∀ {s : RMP}, s.Begun → MeetsAll s ds →
    ∃ s' lists, readAll s ds = some (s', lists) ∧ List.Forall₂ Right ds lists := by
  induction ds with
  | nil => exact fun _ _ => ⟨_, [], rfl, .nil⟩
  | cons d ds ih =>
    intro s hbegun h
    obtain ⟨r, hread, hbegun', hright⟩ := h.1.read hbegun d.2
    obtain ⟨s', lists, hrest, hall⟩ := ih hbegun' (h.2 r hread)
    refine ⟨s', r.2 :: lists, ?_, .cons hright hall⟩
    rw [readAll, hread]
    show (readAll r.1 ds).map _ = _
    rw [hrest]
    rfl

/-- Documents that meet the condition one after the other: no callback uses a `m_pMetaData`
that is not there, and each list gets the items of its own document. -/
theorem readAll_right {ds : List (Document × List Item)} (h : MeetsAll {} ds) :
    ∃ s lists, readAll {} ds = some (s, lists) ∧ List.Forall₂ Right ds lists :=
  readAll_begun (fun hinside => absurd hinside (by decide)) h

def said (name t : String) : Node := .element (bytes name) [] [.data (bytes t)]

/-- A package of nothing but tracks. -/
def package (tracks : List Node) : Node :=
  .element (bytes "PACKAGE") [] [.element (bytes "TRACKLIST") [] tracks]

def track (children : List Node) : Node := .element (bytes "TRACK") [] children

/-- Everything that is asked of a track is said of this one. -/
def wholeTrack : Node := track [said "FILENAME" "a.mp3", said "TRACKID" "1", said "DIR" "d"]

theorem inPlace_whole : (package [wholeTrack]).InPlace [] := by
  unfold package wholeTrack track said
  simp +decide [Node.InPlace, InPlaceAll]

theorem meets_whole {s : RMP} (hpath : s.oPath = []) (hcookie : s.oCookie = [])
    (hmembers : ∀ x, s.member x = []) :
    (Document.wellFormed (package [wholeTrack])).Meets s := by
  refine ⟨hpath, inPlace_whole, ⟨hcookie, fun x => .inl (hmembers x), fun y => .inr ?_⟩, trivial⟩
  cases y with
  | fileName => exact ⟨bytes "a.mp3", by decide⟩
  | trackId => exact ⟨bytes "1", by decide⟩
  | trackDir => exact ⟨bytes "d", by decide⟩

/-- Two packages, and between them a document with an end of what is not open. -/
theorem readAll_right_whole : ∃ s lists,
    readAll {} [(.wellFormed (package [wholeTrack]), []),
      (.malformed [.endElement (bytes "TRACK")], []),
      (.wellFormed (package [wholeTrack]), [])] = some (s, lists) ∧
    List.Forall₂ Right [(.wellFormed (package [wholeTrack]), []),
      (.malformed [.endElement (bytes "TRACK")], []),
      (.wellFormed (package [wholeTrack]), [])] lists := by
  refine readAll_right ⟨meets_whole rfl rfl fun x => by cases x <;> rfl, fun r hr => ?_⟩
  cases hr.symm.trans (RMP.read_root rfl inPlace_whole)
  refine ⟨⟨fun _ => .inr rfl, trivial⟩, fun r hr => ?_⟩
  cases hr
  exact ⟨meets_whole rfl rfl fun x => by cases x <;> rfl, fun _ _ => trivial⟩

/-- A track without a `FILENAME` gets that of the track before it, and the end of a `TRACK` that
is not in a list takes a `m_pMetaData` that is not there. -/
theorem readAll_right_fails :
    (¬ ∃ s lists,
      readAll {} [(.wellFormed (package [wholeTrack, track [said "TRACKID" "2"]]), [])] =
        some (s, lists) ∧
      List.Forall₂ Right
        [(.wellFormed (package [wholeTrack, track [said "TRACKID" "2"]]), [])] lists) ∧
    readAll {} [(.wellFormed (track []), [])] = none := by
  refine ⟨?_, by decide⟩
  rintro ⟨s, lists, hread, hright⟩
  cases hright with
  | cons hhead htail =>
    cases htail
    cases hhead _ rfl
    have hlists := congrArg (Option.map Prod.snd) hread
    simp only [Option.map_some] at hlists
    exact absurd hlists (by decide)

end FreeAmp.Dlm.Rmp
