/-
  Ui/IcecastStreams.lean --- the list of streams of `ui/musicbrowser/src/Icecast.cpp`.

      read_eq           what the calls for a document leave
      streams_of_run    documents that are parsed one after the other, here and by
                        `FreeAmpStreams`

  What the constructor of an entry leaves unset is `none`.
-/
import FreeAmp.Ui.FreeAmpStreams

namespace FreeAmp.Ui.IcecastStreams

open FreeAmp.Base FreeAmp.Lib FreeAmp.Xml

/-! ## The source -/

structure IcecastStreamInfo where
  streamUrl : Text
  name : Text
  webUrl : Text
  eMail : Text
  desc : Text
  bitrate : Option Int
  deriving DecidableEq

def IcecastStreamInfo.new : IcecastStreamInfo := ⟨[], [], [], [], [], none⟩

/-- The object; `list` is what it has appended to `m_list`. -/
structure IcecastStreams where
  info : Option IcecastStreamInfo
  path : Text
  list : List IcecastStreamInfo
  deriving DecidableEq

/-- A new entry for an element with these attributes. -/
def entryFor (oAttrMap : AttrMap) : IcecastStreamInfo :=
  match oAttrMap.find? fun a => a.1 = bytes "href" with
  | some a => { IcecastStreamInfo.new with streamUrl := a.2 }
  | none => .new

/-- The elements of an entry that are read, and where their data go. -/
def fields : List (Text × (Text → IcecastStreamInfo → IcecastStreamInfo)) :=
  [(bytes "name", fun data i => { i with name := data }),
    (bytes "url", fun data i => { i with webUrl := data }),
    (bytes "email", fun data i => { i with eMail := data }),
    (bytes "description", fun data i => { i with desc := data }),
    (bytes "bitrate", fun data i => { i with bitrate := some (atoi data) })]

namespace IcecastStreams

def init : IcecastStreams := ⟨none, [], []⟩

def beginElement (s : IcecastStreams) (oElement : Text) (oAttrMap : AttrMap) : IcecastStreams :=
  let s := { s with path := push 47 s.path oElement }
  if s.path = bytes "/directory/resource" then { s with info := some (entryFor oAttrMap) } else s

/-- What is done with the data at a path, if anything is. -/
def setter (path data : Text) : Option (IcecastStreamInfo → IcecastStreamInfo) :=
  (fields.find? fun f => path = bytes "/directory/resource/" ++ f.1).map fun f => f.2 data

/-- `PCData`; `none`: `m_info` is null, and is dereferenced. -/
def pcData (s : IcecastStreams) (data : Text) : Option IcecastStreams :=
  match setter s.path data with
  | none => some s
  | some set => s.info.map fun info => { s with info := some (set info) }

/-- `EndElement`; `none`: `m_info` is null, and is dereferenced. -/
def endElement (s : IcecastStreams) : Option IcecastStreams :=
  if s.path = bytes "/directory/resource" then
    s.info.map fun info =>
      { s with list := s.list ++ [info], info := none, path := pop 47 s.path }
  else some { s with path := pop 47 s.path }

/-- A call of the parser. -/
def call (s : IcecastStreams) : Event → Option IcecastStreams
  | .beginElement oElement oAttrMap => some (s.beginElement oElement oAttrMap)
  | .pcData data => s.pcData data
  | .endElement _ => s.endElement

/-- The calls for a document; none of them returns an error. -/
def read (s : IcecastStreams) (calls : List Event) : Option (IcecastStreams × Error) :=
  (calls.foldlM call s).map fun s => (s, .noErr)

def reader : Xml.Reader IcecastStreams IcecastStreamInfo := ⟨read, list⟩

end IcecastStreams

/-! ## What a document says -/

/-- The names of the elements of an entry, the innermost first. -/
def resource : List Text := [bytes "resource", bytes "directory"]

/-- What the data inside of elements say of the entry around. -/
def setField (names : List Text) (data : Text) (i : IcecastStreamInfo) : IcecastStreamInfo :=
  ((fields.find? fun f => names = f.1 :: resource).map fun f => f.2 data i).getD i

/-- The entries of a document, each when its element ends. -/
def entries : List Text → Option IcecastStreamInfo → List Event → List IcecastStreamInfo
  | _, _, [] => []
  | names, info, .beginElement name attrMap :: calls =>
    entries (name :: names) (if name :: names = resource then some (entryFor attrMap) else info)
      calls
  | names, info, .pcData data :: calls => entries names (info.map (setField names data)) calls
  | names, info, .endElement _ :: calls =>
    if names = resource then info.toList ++ entries names.tail none calls
    else entries names.tail info calls

/-! ## A call -/

/-- The elements are inside of an entry. -/
def inResource : List Text → Bool
  | [] => false
  | name :: names => decide (name :: names = resource) || inResource names

theorem resource_noSlash : ∀ name ∈ resource, 47 ∉ name := by decide

/-- The object inside of elements, with the entry around. -/
structure Within (names : List Text) (info : Option IcecastStreamInfo) (s : IcecastStreams) :
    Prop where
  path : s.path = pathOf 47 names
  slashes : ∀ name ∈ names, 47 ∉ name
  inside : inResource names = true → (∃ i, info = some i) ∧ s.info = info
  outside : inResource names = false → info = none

variable {names : List Text} {info : Option IcecastStreamInfo} {s : IcecastStreams}

theorem Within.path_eq_iff (h : Within names info s) {names' : List Text}
    (h' : ∀ name ∈ names', 47 ∉ name) : s.path = pathOf 47 names' ↔ names = names' := by
  rw [h.path]
  exact ⟨pathOf_inj 47 h.slashes h', congrArg _⟩

theorem Within.beginElement (h : Within names info s) {name : Text} (hname : 47 ∉ name)
    (attrMap : AttrMap) :
    Within (name :: names) (if name :: names = resource then some (entryFor attrMap) else info)
      (s.beginElement name attrMap) ∧ (s.beginElement name attrMap).list = s.list := by
  have hslashes : ∀ x ∈ name :: names, 47 ∉ x := List.forall_mem_cons.mpr ⟨hname, h.slashes⟩
  have hpath : push 47 s.path name = pathOf 47 (name :: names) := by
    rw [h.path, pathOf]
  have hiff : push 47 s.path name = bytes "/directory/resource" ↔ name :: names = resource := by
    rw [hpath]
    exact ⟨pathOf_inj 47 hslashes resource_noSlash, fun heq => by rw [heq]; rfl⟩
  unfold IcecastStreams.beginElement
  dsimp only
  by_cases hres : name :: names = resource
  · rw [if_pos hres, if_pos (hiff.mpr hres)]
    refine ⟨⟨hpath, hslashes, fun _ => ⟨⟨_, rfl⟩, rfl⟩, fun hout => ?_⟩, rfl⟩
    rw [inResource, decide_eq_true hres, Bool.true_or] at hout
    cases hout
  · rw [if_neg hres, if_neg fun hat => hres (hiff.mp hat)]
    have hin : inResource (name :: names) = inResource names := by
      rw [inResource, decide_eq_false hres, Bool.false_or]
    exact ⟨⟨hpath, hslashes, hin ▸ h.inside, hin ▸ h.outside⟩, rfl⟩

/-- What is done with data is done to the entry around. -/
theorem Within.setter (h : Within names info s) (data : Text) :
    (IcecastStreams.setter s.path data = none ∧ ∀ i, setField names data i = i) ∨
      ∃ set, inResource names = true ∧ IcecastStreams.setter s.path data = some set ∧
        ∀ i, setField names data i = set i := by
  have hslash : ∀ f ∈ fields, 47 ∉ f.1 := by decide
  have hsame : (fields.find? fun f => s.path = bytes "/directory/resource/" ++ f.1) =
      fields.find? fun f => names = f.1 :: resource := by
    rw [← List.head?_filter, ← List.head?_filter]
    congr 1
    refine List.filter_congr fun f hf => decide_eq_decide.mpr ?_
    exact h.path_eq_iff (List.forall_mem_cons.mpr ⟨hslash f hf, resource_noSlash⟩)
  unfold IcecastStreams.setter setField
  rw [hsame]
  cases hfind : fields.find? fun f => names = f.1 :: resource with
  | none => exact .inl ⟨rfl, fun _ => rfl⟩
  | some f =>
    have hnames : names = f.1 :: resource := by simpa using List.find?_some hfind
    refine .inr ⟨f.2 data, ?_, rfl, fun _ => rfl⟩
    rw [hnames, inResource, Bool.or_eq_true]
    exact .inr rfl

theorem Within.pcData (h : Within names info s) (data : Text) :
    ∃ s', s.pcData data = some s' ∧ Within names (info.map (setField names data)) s' ∧
      s'.list = s.list := by
  unfold IcecastStreams.pcData
  rcases h.setter data with ⟨hnone, hsame⟩ | ⟨set, hin, hsome, hset⟩
  · have hinfo : info.map (setField names data) = info := by
      cases info with
      | none => rfl
      | some i => exact congrArg some (hsame i)
    rw [hnone, hinfo]
    exact ⟨s, rfl, h, rfl⟩
  · obtain ⟨⟨i, hi⟩, hsame⟩ := h.inside hin
    rw [hsome, hsame, hi]
    refine ⟨_, rfl, ⟨h.path, h.slashes, fun _ => ⟨⟨_, rfl⟩, ?_⟩, fun hout => ?_⟩, rfl⟩
    · exact congrArg some (hset i).symm
    · rw [hin] at hout
      cases hout

theorem Within.endElement (h : Within names info s) : ∃ s', s.endElement = some s' ∧
    Within names.tail (if names = resource then none else info) s' ∧
      s'.list = s.list ++ if names = resource then info.toList else [] := by
  have hpop : pop 47 s.path = pathOf 47 names.tail := by
    rw [h.path]
    exact pop_pathOf 47 h.slashes
  have hslashes : ∀ name ∈ names.tail, 47 ∉ name := fun name hname =>
    h.slashes name (List.mem_of_mem_tail hname)
  have hiff : s.path = bytes "/directory/resource" ↔ names = resource :=
    h.path_eq_iff resource_noSlash
  unfold IcecastStreams.endElement
  by_cases hres : names = resource
  · have hin : inResource names = true := by
      rw [hres]
      rfl
    obtain ⟨⟨i, hi⟩, hsame⟩ := h.inside hin
    rw [if_pos (hiff.mpr hres), if_pos hres, if_pos hres, hsame, hi]
    refine ⟨_, rfl, ⟨hpop, hslashes, fun hin' => ?_, fun _ => rfl⟩, rfl⟩
    rw [hres] at hin'
    cases hin'
  · rw [if_neg fun hat => hres (hiff.mp hat), if_neg hres, if_neg hres, List.append_nil]
    have hin : inResource names.tail = inResource names := by
      cases names with
      | nil => rfl
      | cons name names =>
        rw [List.tail_cons, inResource, decide_eq_false hres, Bool.false_or]
    exact ⟨_, rfl, ⟨hpop, hslashes, hin ▸ h.inside, hin ▸ h.outside⟩, rfl⟩

/-! ## A document -/

theorem foldlM_eq : ∀ (calls : List Event) {names : List Text} {info : Option IcecastStreamInfo}
    {s : IcecastStreams}, (∀ e ∈ calls, e.NoSlash) → Within names info s →
      ∃ s', calls.foldlM IcecastStreams.call s = some s' ∧
        s'.list = s.list ++ entries names info calls := by
  intro calls
  induction calls with
  | nil => exact fun _ _ => ⟨_, rfl, (List.append_nil _).symm⟩
  | cons e calls ih =>
    intro names info s hcalls h
    rw [List.forall_mem_cons] at hcalls
    rw [List.foldlM_cons]
    cases e with
    | beginElement name attrMap =>
      obtain ⟨hwithin, hlist⟩ := h.beginElement hcalls.1 attrMap
      obtain ⟨s', hdone, hlist'⟩ := ih hcalls.2 hwithin
      exact ⟨s', hdone, by rw [hlist', hlist, entries]⟩
    | pcData data =>
      obtain ⟨s₁, hcall, hwithin, hlist⟩ := h.pcData data
      obtain ⟨s', hdone, hlist'⟩ := ih hcalls.2 hwithin
      rw [IcecastStreams.call, hcall]
      exact ⟨s', hdone, by rw [hlist', hlist, entries]⟩
    | endElement name =>
      obtain ⟨s₁, hcall, hwithin, hlist⟩ := h.endElement
      obtain ⟨s', hdone, hlist'⟩ := ih hcalls.2 hwithin
      rw [IcecastStreams.call, hcall]
      refine ⟨s', hdone, ?_⟩
      rw [hlist', hlist, entries, List.append_assoc]
      split <;> rfl

/-- A document, read by an object that is outside of every element: its entries. -/
theorem read_eq (s : IcecastStreams) (calls : List Event) (hcalls : ∀ e ∈ calls, e.NoSlash)
    (hpath : s.path = []) : ∃ s' err, s.read calls = some (s', err) ∧
      s'.list = s.list ++ entries [] none calls := by
  have hwithin : Within [] none s := ⟨hpath, fun _ hname => absurd hname List.not_mem_nil,
    fun hin => absurd hin Bool.false_ne_true, fun _ => rfl⟩
  obtain ⟨s', hdone, hlist⟩ := foldlM_eq calls hcalls hwithin
  refine ⟨s', .noErr, ?_, hlist⟩
  rw [IcecastStreams.read, hdone]
  rfl

/-! ## Every run -/

open FreeAmpStreams (regular)

/-- In every run of documents that are read in no service, and are regular, and in every run of
documents that are read outside of every element, no null entry is reached, and a document
that has been parsed has appended its entries. -/
theorem streams_of_run (ds : List Document) :
    (∀ s : Session _ _, Lib.Run (Guarded
        (FreeAmpStreams.FreeAmpStreams.reader.Proper fun object calls =>
          object.treePath = [] ∧ regular [] [] calls = true)
        (Steps FreeAmpStreams.FreeAmpStreams.reader.next)) ⟨.init, none, false⟩ ds s →
      s.null = false ∧ ∀ x, s.parsed = some x → x.2 = FreeAmpStreams.entries [] none x.1) ∧
    ∀ s : Session _ _, Lib.Run (Guarded
        (IcecastStreams.reader.Proper fun object _ => object.path = [])
        (Steps IcecastStreams.reader.next)) ⟨.init, none, false⟩ ds s →
      s.null = false ∧ ∀ x, s.parsed = some x → x.2 = entries [] none x.1 := by
  constructor
  · intro s hrun
    have hright : Reader.Right (FreeAmpStreams.entries [] none) s := Reader.right_of_run
      (fun object calls _ hgood => FreeAmpStreams.read_eq hgood.1 hgood.2) hrun
    exact ⟨hright.null, hright.parsed⟩
  · intro s hrun
    have hright : Reader.Right (entries [] none) s := Reader.right_of_run
      (fun object calls hcalls hgood => read_eq object calls hcalls hgood) hrun
    exact ⟨hright.null, hright.parsed⟩

/-- A document with a stream in a service, and one with an entry. -/
def oneStream : Document :=
  ⟨.string (bytes "<Service Name=\"S\"><Stream><Url>u</Url></Stream></Service>") 0, 20⟩

def oneResource : Document :=
  ⟨.string (bytes "<directory><resource><name>n</name></resource></directory>") 0, 20⟩

theorem streams_of_run_one :
    (∃ s, FreeAmpStreams.FreeAmpStreams.reader.next ⟨.init, none, false⟩ oneStream = some s ∧
      s.null = false ∧ ∀ x, s.parsed = some x → x.2 = FreeAmpStreams.entries [] none x.1) ∧
    ∃ s, IcecastStreams.reader.next ⟨.init, none, false⟩ oneResource = some s ∧
      s.null = false ∧ ∀ x, s.parsed = some x → x.2 = entries [] none x.1 := by
  constructor
  · have hsome : (FreeAmpStreams.FreeAmpStreams.reader.next ⟨.init, none, false⟩
        oneStream).isSome = true := by decide +kernel
    obtain ⟨s, hs⟩ := Option.isSome_iff_exists.mp hsome
    refine ⟨s, hs, (streams_of_run [oneStream]).1 s (.single ⟨fun eRet p hparse => ⟨rfl, ?_⟩, hs⟩)⟩
    have hregular : regular [] [] (eventsOf (doParse (FreeAmpStreams.FreeAmpStreams.reader.answer
        .init) oneStream.rounds oneStream.source parsing)) = true := by decide +kernel
    rw [hparse] at hregular
    exact hregular
  · have hsome : (IcecastStreams.reader.next ⟨.init, none, false⟩ oneResource).isSome = true := by
      decide +kernel
    obtain ⟨s, hs⟩ := Option.isSome_iff_exists.mp hsome
    exact ⟨s, hs, (streams_of_run [oneResource]).2 s (.single ⟨fun _ _ _ => rfl, hs⟩)⟩

/-- A stream in a stream; and an element that is left open, and one of the next document that is
taken for a part of it. -/
theorem streams_fail :
    ((exec FreeAmpStreams.FreeAmpStreams.reader.next ⟨.init, none, false⟩
      [⟨.string (bytes "<Stream><Stream></Stream></Stream>") 0, 20⟩]).map Session.null =
        some true) ∧
    ((exec IcecastStreams.reader.next ⟨.init, none, false⟩
      [⟨.string (bytes "<directory>") 0, 20⟩, ⟨.string (bytes "<resource></resource>") 0, 20⟩]).bind
        Session.parsed).map (fun x => (x.2, entries [] none x.1)) = some ([.new], []) := by
  decide +kernel

end FreeAmp.Ui.IcecastStreams
