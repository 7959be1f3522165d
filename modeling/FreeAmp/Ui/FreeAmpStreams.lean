/-
  Ui/FreeAmpStreams.lean --- the list of streams of `ui/musicbrowser/src/FreeAmpStreams.cpp`.

      entries     the streams of a document, by the elements around them
      read_eq     what the calls for a document leave

  `m_path` is kept, and read by nothing but the functions that keep it.  What the constructor
  of an entry leaves unset is `none`.
-/
import FreeAmp.Lib.PathString
import FreeAmp.Xml.Reader

namespace FreeAmp.Ui.FreeAmpStreams

open FreeAmp.Base FreeAmp.Lib FreeAmp.Xml

/-! ## The source -/

structure FreeAmpStreamInfo where
  treePath : Text
  name : Text
  streamUrl : Text
  webUrl : Text
  desc : Text
  genre : Text
  bitrate : Option Int
  numUsers : Option Int
  maxUsers : Option Int
  deriving DecidableEq

def FreeAmpStreamInfo.new : FreeAmpStreamInfo := ⟨[], [], [], [], [], [], none, none, none⟩

/-- The object; `list` is what it has appended to `m_list`. -/
structure FreeAmpStreams where
  info : Option FreeAmpStreamInfo
  path : Text
  treePath : Text
  curElement : Text
  list : List FreeAmpStreamInfo
  deriving DecidableEq

/-- `oAttrMap["Name"]`, if it is there -/
def nameOf (oAttrMap : AttrMap) : Option Text :=
  (oAttrMap.find? fun a => a.1 = bytes "Name").map Prod.snd

/-- What is done with the data of an element. -/
def setField (curElement data : Text) (info : FreeAmpStreamInfo) : FreeAmpStreamInfo :=
  if curElement = bytes "Url" then { info with streamUrl := data }
  else if curElement = bytes "Name" then { info with name := data }
  else if curElement = bytes "WebUrl" then { info with webUrl := data }
  else if curElement = bytes "Genre" then { info with genre := data }
  else if curElement = bytes "Description" then { info with desc := data }
  else if curElement = bytes "Bitrate" then { info with bitrate := some (atoi data) }
  else if curElement = bytes "Users" then { info with numUsers := some (atoi data) }
  else if curElement = bytes "MaxUsers" then { info with maxUsers := some (atoi data) }
  else info

namespace FreeAmpStreams

def init : FreeAmpStreams := ⟨none, [], [], [], []⟩

def beginElement (s : FreeAmpStreams) (oElement : Text) (oAttrMap : AttrMap) :
    FreeAmpStreams × Error :=
  let s := { s with path := push 47 s.path oElement, curElement := oElement }
  if oElement = bytes "Service" then
    match nameOf oAttrMap with
    | some name => ({ s with treePath := push 47 s.treePath name }, .noErr)
    | none => (s, .youScrewedUp)
  else if oElement = bytes "Stream" then ({ s with info := some .new }, .noErr)
  else (s, .noErr)

def pcData (s : FreeAmpStreams) (data : Text) : FreeAmpStreams × Error :=
  match s.info with
  | none => (s, .invalidParam)
  | some info =>
    ({ s with info := some (setField s.curElement data info), curElement := [] }, .noErr)

/-- The part of `EndElement` behind the end of a stream. -/
def leave (s : FreeAmpStreams) (oElement : Text) : FreeAmpStreams :=
  if oElement = bytes "Service" then
    if 47 ∈ s.treePath then
      { s with treePath := pop 47 s.treePath, path := pop 47 s.path }
    else s
  else { s with path := pop 47 s.path }

/-- `EndElement`; `none`: `m_info` is null, and is dereferenced. -/
def endElement (s : FreeAmpStreams) (oElement : Text) : Option FreeAmpStreams :=
  if oElement = bytes "Stream" then
    match s.info with
    | none => none
    | some info => some (leave { s with
        info := none
        list := s.list ++ [{ info with treePath := s.treePath }] } oElement)
  else some (s.leave oElement)

/-- A call of the parser, behind one that has returned something. -/
def call (r : FreeAmpStreams × Error) : Event → Option (FreeAmpStreams × Error)
  | .beginElement oElement oAttrMap => some (r.1.beginElement oElement oAttrMap)
  | .pcData data => some (r.1.pcData data)
  | .endElement oElement => (r.1.endElement oElement).map fun s => (s, .noErr)

/-- The calls for a document. -/
def read (s : FreeAmpStreams) (calls : List Event) : Option (FreeAmpStreams × Error) :=
  calls.foldlM call (s, .noErr)

def reader : Xml.Reader FreeAmpStreams FreeAmpStreamInfo := ⟨read, list⟩

end FreeAmpStreams

/-! ## What a document says -/

/-- An element, with its `Name`. -/
abbrev Element := Text × Text

/-- The names of the services among the elements. -/
def services (open' : List Element) : List Text :=
  (open'.filter fun e => e.1 = bytes "Service").map Prod.snd

/-- The elements are inside of a stream. -/
def inStream (open' : List Element) : Bool := open'.any fun e => e.1 = bytes "Stream"

/-- The innermost element, when it is that of a stream's field. -/
def place : List Element → Text
  | e :: stream :: _ => if stream.1 = bytes "Stream" then e.1 else []
  | _ => []

/-- The streams of a document, each when it ends. -/
def entries : List Element → Option FreeAmpStreamInfo → List Event → List FreeAmpStreamInfo
  | _, _, [] => []
  | open', info, .beginElement name attrMap :: calls =>
    entries ((name, (nameOf attrMap).getD []) :: open')
      (if name = bytes "Stream" then some .new else info) calls
  | open', info, .pcData data :: calls =>
    entries open' (info.map (setField (place open') data)) calls
  | open', info, .endElement _ :: calls =>
    if open'.head?.map Prod.fst = some (bytes "Stream") then
      (info.map fun i => { i with treePath := pathOf 47 (services open') }).toList ++
        entries open'.tail none calls
    else entries open'.tail info calls

/-! ## Regular documents -/

/-- The elements that say something. -/
def marks : List Text := [bytes "Stream", bytes "Service"]

def fieldNames : List Text :=
  [bytes "Url", bytes "Name", bytes "WebUrl", bytes "Genre", bytes "Description",
    bytes "Bitrate", bytes "Users", bytes "MaxUsers"]

/-- An end is that of the innermost element, at least where one of them says something. -/
def ends (open' : List Element) (name : Text) : Bool :=
  decide (open'.head?.map Prod.fst = some name) ||
    (decide (name ∉ marks) && decide (∀ e ∈ open'.head?, e.1 ∉ marks))

/-- Streams are not inside of each other; a service has a name, without a slash; the ends are
those of the elements; and data in a stream belong to the field whose element stands around
them, and are the first of it. -/
def regular : List Element → Text → List Event → Bool
  | _, _, [] => true
  | open', _, .beginElement name attrMap :: calls =>
    decide (name = bytes "Stream" → inStream open' = false) &&
      decide (name = bytes "Service" → calls = [] ∨ ∃ v ∈ nameOf attrMap, 47 ∉ v) &&
      regular ((name, (nameOf attrMap).getD []) :: open') name calls
  | open', cur, .pcData _ :: calls =>
    decide (inStream open' = true → cur = place open' ∨
      cur ∉ fieldNames ∧ place open' ∉ fieldNames) && regular open' [] calls
  | open', cur, .endElement name :: calls => ends open' name && regular open'.tail cur calls

/-! ## A call -/

theorem setField_other {curElement : Text} (h : curElement ∉ fieldNames) (data : Text)
    (info : FreeAmpStreamInfo) : setField curElement data info = info := by
  simp only [fieldNames, List.mem_cons, List.not_mem_nil, or_false, not_or] at h
  simp only [setField, h, if_false]

theorem services_cons (e : Element) (open' : List Element) : services (e :: open') =
    if e.1 = bytes "Service" then e.2 :: services open' else services open' := by
  unfold services
  by_cases he : e.1 = bytes "Service"
  · rw [List.filter_cons, if_pos (decide_eq_true he), if_pos he, List.map_cons]
  · rw [List.filter_cons, if_neg fun h => he (of_decide_eq_true h), if_neg he]

theorem services_of_ne {e : Element} (he : e.1 ≠ bytes "Service") (open' : List Element) :
    services (e :: open') = services open' := by
  rw [services_cons, if_neg he]

theorem inStream_cons (e : Element) (open' : List Element) :
    inStream (e :: open') = (decide (e.1 = bytes "Stream") || inStream open') := rfl

theorem inStream_of_ne {e : Element} (he : e.1 ≠ bytes "Stream") (open' : List Element) :
    inStream (e :: open') = inStream open' := by
  rw [inStream_cons, decide_eq_false he, Bool.false_or]

/-- At most one of the elements is a stream. -/
def OneStream : List Element → Prop
  | [] => True
  | e :: open' => (e.1 = bytes "Stream" → inStream open' = false) ∧ OneStream open'

/-- The object inside of elements, with the entry of the stream around. -/
structure Within (open' : List Element) (cur : Text) (info : Option FreeAmpStreamInfo)
    (s : FreeAmpStreams) : Prop where
  treePath : s.treePath = pathOf 47 (services open')
  slashes : ∀ v ∈ services open', 47 ∉ v
  one : OneStream open'
  inside : inStream open' = true → (∃ i, info = some i) ∧ s.info = info ∧ s.curElement = cur
  outside : inStream open' = false → info = none

variable {open' : List Element} {cur : Text} {info : Option FreeAmpStreamInfo}
  {s : FreeAmpStreams}

theorem list_beginElement (s : FreeAmpStreams) (name : Text) (attrMap : AttrMap) :
    (s.beginElement name attrMap).1.list = s.list := by
  unfold FreeAmpStreams.beginElement
  dsimp only
  split
  · split <;> rfl
  · split <;> rfl

theorem Within.beginElement (h : Within open' cur info s) {name : Text} {attrMap : AttrMap}
    (hstream : name = bytes "Stream" → inStream open' = false)
    (hservice : name = bytes "Service" → ∃ v ∈ nameOf attrMap, 47 ∉ v) :
    Within ((name, (nameOf attrMap).getD []) :: open') name
      (if name = bytes "Stream" then some .new else info) (s.beginElement name attrMap).1 ∧
        (s.beginElement name attrMap).1.list = s.list := by
  unfold FreeAmpStreams.beginElement
  dsimp only
  by_cases hname : name = bytes "Service"
  · obtain ⟨v, hv, hslash⟩ := hservice hname
    have hnot : name ≠ bytes "Stream" := by
      rw [hname]
      decide
    have hv : nameOf attrMap = some v := hv
    rw [if_pos hname, hv, if_neg hnot]
    refine ⟨⟨?_, ?_, ⟨hstream, h.one⟩, ?_, ?_⟩, rfl⟩
    · rw [services_cons, if_pos hname, pathOf]
      exact congrArg (push 47 · v) h.treePath
    · rw [services_cons, if_pos hname, List.forall_mem_cons]
      exact ⟨hslash, h.slashes⟩
    · rw [inStream_of_ne hnot]
      intro hin
      exact ⟨(h.inside hin).1, (h.inside hin).2.1, rfl⟩
    · rw [inStream_of_ne hnot]
      exact h.outside
  · rw [if_neg hname]
    have hservices := services_of_ne (e := (name, (nameOf attrMap).getD [])) hname open'
    by_cases hbegins : name = bytes "Stream"
    · rw [if_pos hbegins, if_pos hbegins]
      refine ⟨⟨hservices ▸ h.treePath, hservices ▸ h.slashes, ⟨hstream, h.one⟩,
        fun _ => ⟨⟨_, rfl⟩, rfl, rfl⟩, ?_⟩, rfl⟩
      · rw [inStream_cons, decide_eq_true hbegins, Bool.true_or]
        intro hout
        cases hout
    · rw [if_neg hbegins, if_neg hbegins]
      refine ⟨⟨hservices ▸ h.treePath, hservices ▸ h.slashes, ⟨hstream, h.one⟩, ?_, ?_⟩, rfl⟩
      · rw [inStream_of_ne hbegins]
        intro hin
        exact ⟨(h.inside hin).1, (h.inside hin).2.1, rfl⟩
      · rw [inStream_of_ne hbegins]
        exact h.outside

theorem Within.pcData (h : Within open' cur info s) (data : Text)
    (hfield : inStream open' = true → cur = place open' ∨
      cur ∉ fieldNames ∧ place open' ∉ fieldNames) :
    Within open' [] (info.map (setField (place open') data)) (s.pcData data).1 ∧
      (s.pcData data).1.list = s.list := by
  unfold FreeAmpStreams.pcData
  cases hin : inStream open' with
  | true =>
    obtain ⟨⟨i, hi⟩, hsame, hcur⟩ := h.inside hin
    have hset : setField s.curElement data i = setField (place open') data i := by
      rw [hcur]
      rcases hfield hin with heq | ⟨hcur, hplace⟩
      · rw [heq]
      · rw [setField_other hcur, setField_other hplace]
    rw [hsame, hi]
    dsimp only
    rw [hset]
    exact ⟨⟨h.treePath, h.slashes, h.one, fun _ => ⟨⟨_, rfl⟩, rfl, rfl⟩,
      fun hout => absurd (hin.symm.trans hout) (by decide)⟩, rfl⟩
  | false =>
    have hnone := h.outside hin
    have hnot : inStream open' ≠ true := by
      rw [hin]
      exact Bool.false_ne_true
    rw [hnone]
    cases s.info with
    | none =>
      exact ⟨⟨h.treePath, h.slashes, h.one, fun hyes => absurd hyes hnot, fun _ => rfl⟩, rfl⟩
    | some old =>
      exact ⟨⟨h.treePath, h.slashes, h.one, fun hyes => absurd hyes hnot, fun _ => rfl⟩, rfl⟩

theorem Within.tail (h : Within open' cur info s) (hhead : ∀ e ∈ open'.head?, e.1 ∉ marks)
    (path : Text) : Within open'.tail cur info { s with path := path } := by
  cases open' with
  | nil => exact ⟨h.treePath, h.slashes, h.one, h.inside, h.outside⟩
  | cons e rest =>
    have hnot := hhead e rfl
    simp only [marks, List.mem_cons, List.not_mem_nil, or_false, not_or] at hnot
    have hservices := services_of_ne hnot.2 rest
    have hin := inStream_of_ne hnot.1 rest
    exact ⟨hservices ▸ h.treePath, hservices ▸ h.slashes, h.one.2, hin ▸ h.inside,
      hin ▸ h.outside⟩

/-- The entries that the end of the innermost element adds. -/
def ended (open' : List Element) (info : Option FreeAmpStreamInfo) : List FreeAmpStreamInfo :=
  if open'.head?.map Prod.fst = some (bytes "Stream") then
    (info.map fun i => { i with treePath := pathOf 47 (services open') }).toList
  else []

/-- The entry that is left behind it. -/
def still (open' : List Element) (info : Option FreeAmpStreamInfo) : Option FreeAmpStreamInfo :=
  if open'.head?.map Prod.fst = some (bytes "Stream") then none else info

theorem entries_end (open' : List Element) (info : Option FreeAmpStreamInfo) (name : Text)
    (calls : List Event) : entries open' info (.endElement name :: calls) =
      ended open' info ++ entries open'.tail (still open' info) calls := by
  rw [entries, ended, still]
  split <;> rfl

theorem Within.endElement (h : Within open' cur info s) {name : Text}
    (hends : ends open' name = true) : ∃ s', s.endElement name = some s' ∧
      Within open'.tail cur (still open' info) s' ∧ s'.list = s.list ++ ended open' info := by
  unfold ends at hends
  rw [Bool.or_eq_true, Bool.and_eq_true, decide_eq_true_iff, decide_eq_true_iff,
    decide_eq_true_iff] at hends
  by_cases hquiet : name ∉ marks ∧ ∀ e ∈ open'.head?, e.1 ∉ marks
  · obtain ⟨hname, hhead⟩ := hquiet
    have hnot := hname
    simp only [marks, List.mem_cons, List.not_mem_nil, or_false, not_or] at hnot
    have hstream : open'.head?.map Prod.fst ≠ some (bytes "Stream") := by
      intro heq
      obtain ⟨e, he, hfst⟩ := Option.map_eq_some_iff.mp heq
      exact hhead e he (hfst ▸ List.mem_cons_self)
    refine ⟨{ s with path := pop 47 s.path }, ?_, ?_, ?_⟩
    · rw [FreeAmpStreams.endElement, if_neg hnot.1, FreeAmpStreams.leave, if_neg hnot.2]
    · rw [still, if_neg hstream]
      exact h.tail hhead _
    · rw [ended, if_neg hstream, List.append_nil]
  · obtain ⟨e, he, hfst⟩ := Option.map_eq_some_iff.mp (hends.resolve_right hquiet)
    cases open' with
    | nil => cases he
    | cons e' rest =>
      obtain rfl := Option.some.inj he
      obtain rfl := hfst
      have hhead : (e' :: rest).head?.map Prod.fst = some e'.1 := rfl
      unfold ended still
      rw [hhead, FreeAmpStreams.endElement]
      by_cases hstream : e'.1 = bytes "Stream"
      · have hin : inStream (e' :: rest) = true := by
          rw [inStream_cons, decide_eq_true hstream, Bool.true_or]
        obtain ⟨⟨i, hi⟩, hsame, -⟩ := h.inside hin
        have hrest := h.one.1 hstream
        have hservice : e'.1 ≠ bytes "Service" := by
          rw [hstream]
          decide
        have hservices := services_of_ne hservice rest
        have hleave : ∀ s' : FreeAmpStreams,
            s'.leave (bytes "Stream") = { s' with path := pop 47 s'.path } :=
          fun s' => if_neg (by decide)
        rw [hstream, if_pos rfl, if_pos rfl, if_pos rfl, hsame, hi]
        refine ⟨_, rfl, ?_, ?_⟩
        · rw [hleave]
          refine ⟨hservices ▸ h.treePath, hservices ▸ h.slashes, h.one.2, fun hyes => ?_,
            fun _ => rfl⟩
          rw [List.tail_cons, hrest] at hyes
          cases hyes
        · rw [hleave, ← h.treePath]
          rfl
      · have hsome : some e'.1 ≠ some (bytes "Stream") := fun heq =>
          hstream (Option.some.inj heq)
        have hin := inStream_of_ne hstream rest
        rw [if_neg hstream, if_neg hsome, if_neg hsome, List.append_nil]
        refine ⟨_, rfl, ?_⟩
        unfold FreeAmpStreams.leave
        by_cases hservice : e'.1 = bytes "Service"
        · have hservices : services (e' :: rest) = e'.2 :: services rest := by
            rw [services_cons, if_pos hservice]
          have hslashes := hservices ▸ h.slashes
          have htree : s.treePath = push 47 (pathOf 47 (services rest)) e'.2 := by
            rw [h.treePath, hservices]
            rfl
          have hmem : 47 ∈ s.treePath := by
            rw [htree]
            exact List.mem_append_right _ List.mem_cons_self
          have hpop : pop 47 s.treePath = pathOf 47 (services rest) := by
            rw [htree]
            exact pop_push 47 (hslashes _ List.mem_cons_self)
          rw [if_pos hservice, if_pos hmem]
          exact ⟨⟨hpop, fun v hv => hslashes v (List.mem_cons_of_mem _ hv), h.one.2,
            hin ▸ h.inside, hin ▸ h.outside⟩, rfl⟩
        · have hservices := services_of_ne hservice rest
          rw [if_neg hservice]
          exact ⟨⟨hservices ▸ h.treePath, hservices ▸ h.slashes, h.one.2, hin ▸ h.inside,
            hin ▸ h.outside⟩, rfl⟩

/-! ## A document -/

/-- What the calls for a document leave: its streams, and no null entry has been reached. -/
theorem foldlM_eq : ∀ (calls : List Event) {open' : List Element} {cur : Text}
    {info : Option FreeAmpStreamInfo} {s : FreeAmpStreams} (err : Error),
    regular open' cur calls = true → Within open' cur info s →
      ∃ s' err', calls.foldlM FreeAmpStreams.call (s, err) = some (s', err') ∧
        s'.list = s.list ++ entries open' info calls := by
  intro calls
  induction calls with
  | nil =>
    intro open' cur info s err _ _
    exact ⟨s, err, rfl, (List.append_nil _).symm⟩
  | cons e calls ih =>
    intro open' cur info s err hregular h
    rw [List.foldlM_cons]
    cases e with
    | beginElement name attrMap =>
      rw [regular, Bool.and_eq_true, Bool.and_eq_true, decide_eq_true_iff,
        decide_eq_true_iff] at hregular
      obtain ⟨⟨hstream, hservice⟩, hrest⟩ := hregular
      by_cases hlast : calls = []
      · -- an error may have been returned, and the parser stops
        subst hlast
        refine ⟨(s.beginElement name attrMap).1, (s.beginElement name attrMap).2, rfl, ?_⟩
        rw [list_beginElement, entries, entries, List.append_nil]
      · obtain ⟨hwithin, hlist⟩ := h.beginElement hstream
          fun hname => (hservice hname).resolve_left hlast
        obtain ⟨s', err', hdone, hlist'⟩ := ih (s.beginElement name attrMap).2 hrest hwithin
        refine ⟨s', err', hdone, ?_⟩
        rw [hlist', hlist, entries]
    | pcData data =>
      rw [regular, Bool.and_eq_true, decide_eq_true_iff] at hregular
      obtain ⟨hwithin, hlist⟩ := h.pcData data hregular.1
      obtain ⟨s', err', hdone, hlist'⟩ := ih (s.pcData data).2 hregular.2 hwithin
      refine ⟨s', err', hdone, ?_⟩
      rw [hlist', hlist, entries]
    | endElement name =>
      rw [regular, Bool.and_eq_true] at hregular
      obtain ⟨s₁, hend, hwithin, hlist⟩ := h.endElement hregular.1
      obtain ⟨s', err', hdone, hlist'⟩ := ih .noErr hregular.2 hwithin
      refine ⟨s', err', ?_, ?_⟩
      · rw [FreeAmpStreams.call, hend]
        exact hdone
      · rw [hlist', hlist, entries_end, List.append_assoc]

/-- A document that is regular, read by an object that is in no service: its streams. -/
theorem read_eq {s : FreeAmpStreams} {calls : List Event} (htree : s.treePath = [])
    (hregular : regular [] [] calls = true) :
    ∃ s' err, s.read calls = some (s', err) ∧ s'.list = s.list ++ entries [] none calls := by
  refine foldlM_eq calls .noErr hregular ⟨htree, ?_, trivial, ?_, fun _ => rfl⟩
  · exact fun v hv => absurd hv List.not_mem_nil
  · exact fun hin => absurd hin Bool.false_ne_true

end FreeAmp.Ui.FreeAmpStreams
