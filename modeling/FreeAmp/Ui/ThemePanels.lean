/-
  Ui/ThemePanels.lean --- the windows of a theme, and the panels that are defined in them.

  A text says which panels a window has, and which panels these name.  A parse that goes the
  right way through its windows and panels leaves windows that own just these.

      Inv.call      what a call keeps
      Inv.calls     what the calls of a parse lead to
-/
import FreeAmp.Ui.ThemeElements
import Mathlib.Data.List.ReduceOption

namespace FreeAmp.Ui.ThemeParse

open FreeAmp.Base FreeAmp.Xml

/-! ## What a text says -/

/-- A window as a text describes it. -/
structure Described where
  name : Text
  /-- the names of the panels that are defined in it -/
  panels : List Text
  /-- the names of panels that these give in their attributes -/
  referenced : List Text
  deriving DecidableEq, Repr

/-- The windows of a text, as far as it has been read. -/
structure Document where
  opened : Option Described
  windows : List Described
  deriving DecidableEq, Repr

/-- The panels that a panel names. -/
def references (m : AttrMap) : List Text :=
  panelReferences.filterMap fun attr => m.lookup (bytes attr)

namespace Document

/-- A panel is defined. -/
def define (d : Document) (name : Text) : Document :=
  { d with opened := d.opened.map fun w => { w with panels := w.panels ++ [name] } }

/-- Panels are named. -/
def refer (d : Document) (names : List Text) : Document :=
  { d with opened := d.opened.map fun w => { w with referenced := w.referenced ++ names } }

/-- A tag is read. -/
def read (d : Document) : Event → Document
  | .beginElement e m =>
    match elementOf e with
    | some .window => { d with opened := some ⟨value m "Name", [], []⟩ }
    | some .panel => (d.define (value m "Name")).refer (references m)
    | _ => d
  | .endElement e =>
    match elementOf e with
    | some .window => { opened := none, windows := d.windows ++ d.opened.toList }
    | _ => d
  | .pcData _ => d

/-- What calls say. -/
def ofCalls (events : List Event) : Document := events.foldl read ⟨none, []⟩

end Document

/-- A window owns the panels that are defined in it, and perhaps the one that is made for
controls outside of panels; and the panels that are named in it are defined in it. -/
structure Owns (w : ParsedWindow) (d : Described) : Prop where
  name : w.name = d.name
  panels : ((w.panels.reduceOption.map Prod.snd).filter fun p => p.bitmap.isSome).map
    Panel.name = d.panels
  noNull : none ∉ w.panels
  dummy : ∀ p ∈ w.panels.reduceOption, p.2.bitmap = none → p.2.name = bytes "DummyPanel"
  referenced : ∀ name ∈ d.referenced, name ∈ d.panels

/-- The addresses of the panels of windows. -/
def addresses (windows : List (Option ParsedWindow)) : List Nat :=
  windows.reduceOption.flatMap fun w => w.panels.reduceOption.map Prod.fst

/-- The windows are those of a text, and own their panels once each. -/
structure Right (windows : List (Option ParsedWindow)) (described : List Described) : Prop where
  owns : List.Forall₂ (fun p d => ∃ w, p = some w ∧ Owns w d) windows described
  once : (addresses windows).Nodup

/-! ## The way through a text -/

namespace Frame

/-- The current panel, if it is one that has been defined. -/
def pending (f : Frame) : List Nat :=
  f.current.toList.filter fun p => (f.panel p).bitmap.isSome

/-- The open window has no panel of this name. -/
def Lacks (f : Frame) (name : Text) : Prop :=
  ∀ w, f.window = some w → ∀ p, some p ∈ w.panels → (f.panel p).name ≠ name

/-- No panel that has been named is without a window. -/
def AllDefined (f : Frame) : Prop := ∀ p, some p ∈ f.panels → (f.panel p).parent = true

end Frame

/-- A call that goes the right way: a panel begins in a window, outside of other panels, and
under a name of its own; a window ends where one is open and all panels have been defined; and
what else ends is what is open. -/
def Admits (s : Parser) : Event → Prop
  | .beginElement e m =>
    match elementOf e with
    | some .panel => s.frame.window.isSome ∧ s.frame.pending = [] ∧
        s.frame.Lacks (value m "Name")
    | _ => True
  | .endElement e =>
    match elementOf e with
    | some .window => s.frame.window.isSome ∧ s.frame.AllDefined
    | some .panel => s.frame.window.isSome ∧ s.frame.pending ≠ []
    | some .buttonControl | some .dialControl | some .sliderControl | some .vSliderControl
    | some .multiStateControl | some .textControl | some .pixmapFontControl
    | some .pixSliderControl => s.control.control.isSome
    | some .pixmapTimeControl => s.frame.current.isSome ∧ s.control.control.isSome
    | _ => True
  | .pcData _ => True

/-- Each of the calls goes the right way, in the state in which it is made. -/
def Admitted (r : Reads) (s : Parser) : List Event → Prop
  | [] => True
  | e :: events => Admits s e ∧ ∀ s', call r s e = .ok (none, s') → Admitted r s' events

/-! ## The invariant -/

/-- The windows that have been put together, with panels below an address. -/
structure Closed (b : Nat) (windows : List (Option ParsedWindow)) (described : List Described) :
    Prop where
  right : Right windows described
  below : ∀ p ∈ addresses windows, p < b

/-- What has been read, and what has been made of it; `ids` are the panels of the open window,
and the panels that the parser holds are from the address `b` on. -/
structure Inv (b : Nat) (ids : List Nat) (f : Frame) (d : Document) : Prop where
  window : f.window.map (fun w => (w.name, w.panels)) =
    d.opened.map fun w => (w.name, ids.map some)
  idle : d.opened = none → f.pending = []
  noNull : none ∉ f.panels
  filed : ∀ p ∈ ids, some p ∈ f.panels ∧ (f.panel p).bitmap.isSome ∧ f.current ≠ some p
  nodup : ids.Nodup
  bound : b ≤ f.made
  held : ∀ p, some p ∈ f.panels ∨ f.current = some p → b ≤ p ∧ p < f.made
  names : ∀ w, d.opened = some w → (ids ++ f.pending).map (fun p => (f.panel p).name) = w.panels
  referenced : ∀ w, d.opened = some w → ∀ name ∈ w.referenced, ∃ p,
    (some p ∈ f.panels ∨ p ∈ f.pending) ∧ (f.panel p).name = name
  defined : ∀ p, some p ∈ f.panels → (f.panel p).parent = true →
    d.opened ≠ none ∧ (p ∈ ids ∨ p ∈ f.pending)
  dummy : ∀ p, f.current = some p → (f.panel p).bitmap = none →
    (f.panel p).name = bytes "DummyPanel"
  closed : Closed b (f.parsedWindows.getD []) d.windows

variable {b : Nat} {ids : List Nat} {f : Frame} {d : Document}

/-! ## Panels that are found -/

/-- A forward reference. -/
def Frame.forward (f : Frame) (name : Text) : Frame :=
  { f.makePanel (.new name) with panels := f.panels ++ [some f.made] }

theorem firstPanel_spec {name : Text} {panels : List (Option Nat)} (h : none ∉ panels) :
    ∃ found, f.firstPanel name panels = .ok found ∧
      (∀ p, found = some p → some p ∈ panels ∧ (f.panel p).name = name) := by
  induction panels with
  | nil => exact ⟨none, rfl, nofun⟩
  | cons head panels ih =>
    obtain ⟨hhead, hpanels⟩ := not_or.mp (mt List.mem_cons.mpr h)
    cases head with
    | none => exact absurd rfl hhead
    | some p =>
      unfold Frame.firstPanel
      split
      · rename_i hname
        refine ⟨some p, rfl, fun q hq => ?_⟩
        rw [← Option.some.inj hq]
        exact ⟨List.mem_cons_self, hname⟩
      · obtain ⟨found, hfound, hspec⟩ := ih hpanels
        refine ⟨found, hfound, fun q hq => ?_⟩
        exact ⟨List.mem_cons_of_mem _ (hspec q hq).1, (hspec q hq).2⟩

/-- A panel of the name is returned: the current one, one that is known, or a new one. -/
theorem findPanel_spec (name : Text) (h : none ∉ f.panels) :
    ∃ p f', f.findPanel name = .ok (p, f') ∧ (f'.panel p).name = name ∧
      ((f.current = some p ∧ f' = f) ∨ (some p ∈ f.panels ∧ f' = f) ∨
        (p = f.made ∧ f' = f.forward name)) := by
  unfold Frame.findPanel
  cases hcurrent : f.current.filter fun p => (f.panel p).name = name with
  | some p =>
    obtain ⟨hp, hname⟩ := Option.filter_eq_some_iff.mp hcurrent
    exact ⟨p, f, rfl, of_decide_eq_true hname, .inl ⟨hp, rfl⟩⟩
  | none =>
    obtain ⟨found, hfound, hspec⟩ := @firstPanel_spec f name _ h
    simp only [hfound]
    cases found with
    | some p => exact ⟨p, f, rfl, (hspec p rfl).2, .inr (.inl ⟨(hspec p rfl).1, rfl⟩)⟩
    | none =>
      refine ⟨f.made, f.forward name, rfl, ?_, .inr (.inr ⟨rfl, rfl⟩)⟩
      show (Function.update f.panel f.made (Panel.new name) f.made).name = name
      rw [Function.update_self]
      rfl

theorem panel_makePanel {p : Nat} {panel : Panel} (h : p < f.made) :
    (f.makePanel panel).panel p = f.panel p :=
  Function.update_of_ne (Nat.ne_of_lt h) _ _

theorem Inv.pending_lt (h : Inv b ids f d) {p : Nat} (hp : p ∈ f.pending) : p < f.made := by
  have hcurrent := (List.mem_filter.mp hp).1
  exact (h.held p (.inr (Option.mem_toList.mp hcurrent))).2

theorem Inv.ids_lt (h : Inv b ids f d) {p : Nat} (hp : p ∈ ids) : p < f.made :=
  (h.held p (.inl (h.filed p hp).1)).2

theorem Inv.pending_forward (h : Inv b ids f d) (name : Text) :
    (f.forward name).pending = f.pending := by
  unfold Frame.pending
  apply List.filter_congr
  intro p hp
  have hlt := (h.held p (.inr (Option.mem_toList.mp hp))).2
  exact congrArg (fun panel : Panel => panel.bitmap.isSome) (panel_makePanel hlt)

/-- A forward reference changes nothing about what is there. -/
theorem Inv.forward (h : Inv b ids f d) (name : Text) : Inv b ids (f.forward name) d := by
  have hpanel : ∀ p, p < f.made → (f.forward name).panel p = f.panel p := fun p hp =>
    panel_makePanel hp
  have hpending := h.pending_forward name
  have hmem : ∀ p, some p ∈ (f.forward name).panels ↔ some p ∈ f.panels ∨ p = f.made := by
    intro p
    show some p ∈ f.panels ++ [some f.made] ↔ _
    rw [List.mem_append, List.mem_singleton, Option.some.injEq]
  refine ⟨h.window, ?_, ?_, ?_, h.nodup, Nat.le_succ_of_le h.bound, ?_, ?_, ?_, ?_, ?_, h.closed⟩
  · rw [hpending]
    exact h.idle
  · show none ∉ f.panels ++ [some f.made]
    simpa using h.noNull
  · intro p hp
    obtain ⟨hfiled, hbitmap, hcurrent⟩ := h.filed p hp
    refine ⟨(hmem p).mpr (.inl hfiled), ?_, hcurrent⟩
    rw [hpanel p (h.ids_lt hp)]
    exact hbitmap
  · rintro p (hp | hp)
    · rcases (hmem p).mp hp with hp | rfl
      · exact ⟨(h.held p (.inl hp)).1, Nat.lt_succ_of_lt (h.held p (.inl hp)).2⟩
      · exact ⟨h.bound, Nat.lt_succ_self _⟩
    · exact ⟨(h.held p (.inr hp)).1, Nat.lt_succ_of_lt (h.held p (.inr hp)).2⟩
  · intro w hw
    rw [hpending, ← h.names w hw]
    apply List.map_congr_left
    intro p hp
    rw [hpanel p ((List.mem_append.mp hp).elim h.ids_lt h.pending_lt)]
  · intro w hw name' hname
    obtain ⟨p, hp, hpname⟩ := h.referenced w hw name' hname
    have hlt : p < f.made := hp.elim (fun hp => (h.held p (.inl hp)).2) h.pending_lt
    refine ⟨p, ?_, ?_⟩
    · rw [hmem, hpending]
      exact hp.imp_left .inl
    · rw [hpanel p hlt]
      exact hpname
  · intro p hp hparent
    rw [hpending]
    rcases (hmem p).mp hp with hp | rfl
    · rw [hpanel p (h.held p (.inl hp)).2] at hparent
      exact h.defined p hp hparent
    · have hnew : (f.forward name).panel f.made = Panel.new name := Function.update_self _ _ _
      rw [hnew] at hparent
      exact absurd hparent Bool.false_ne_true
  · intro p hp hbitmap
    have hlt := (h.held p (.inr hp)).2
    rw [hpanel p hlt] at hbitmap ⊢
    exact h.dummy p hp hbitmap

theorem Inv.findPanel (h : Inv b ids f d) (name : Text) :
    ∃ p f', f.findPanel name = .ok (p, f') ∧ Inv b ids f' d ∧ (f'.panel p).name = name ∧
      f'.current = f.current ∧ f'.pending = f.pending ∧
      (∀ q, q < f.made → f'.panel q = f.panel q) ∧
      (some p ∈ f'.panels ∨ f'.current = some p) := by
  obtain ⟨p, f', hfind, hname, hcases⟩ := findPanel_spec name h.noNull
  refine ⟨p, f', hfind, ?_⟩
  obtain ⟨hcurrent, rfl⟩ | ⟨hp, rfl⟩ | ⟨rfl, rfl⟩ := hcases
  · exact ⟨h, hname, rfl, rfl, fun _ _ => rfl, .inr hcurrent⟩
  · exact ⟨h, hname, rfl, rfl, fun _ _ => rfl, .inl hp⟩
  · exact ⟨h.forward name, hname, rfl, h.pending_forward name, fun _ hq => panel_makePanel hq,
      .inl (List.mem_append_right _ (List.mem_singleton_self _))⟩

theorem Inv.refer (h : Inv b ids f d) {names : List Text}
    (hnames : ∀ name ∈ names, ∃ p, (some p ∈ f.panels ∨ p ∈ f.pending) ∧
      (f.panel p).name = name) : Inv b ids f (d.refer names) := by
  have hopened : (d.refer names).opened = none ↔ d.opened = none := Option.map_eq_none_iff
  refine ⟨?_, fun hidle => h.idle (hopened.mp hidle), h.noNull, h.filed, h.nodup, h.bound, h.held,
    ?_, ?_, fun p hp hparent => ?_, h.dummy, h.closed⟩
  · rw [h.window]
    unfold Document.refer
    rw [Option.map_map]
    rfl
  · intro w hw
    obtain ⟨v, hv, rfl⟩ := Option.map_eq_some_iff.mp hw
    exact h.names v hv
  · intro w hw name hname
    obtain ⟨v, hv, rfl⟩ := Option.map_eq_some_iff.mp hw
    rcases List.mem_append.mp hname with hname | hname
    · exact h.referenced v hv name hname
    · exact hnames name hname
  · obtain ⟨hne, hdefined⟩ := h.defined p hp hparent
    exact ⟨mt hopened.mp hne, hdefined⟩

theorem Document.refer_refer (d : Document) (names more : List Text) :
    (d.refer names).refer more = d.refer (names ++ more) := by
  unfold Document.refer
  simp only [Option.map_map]
  congr 2
  funext w
  exact congrArg (Described.mk _ _) (List.append_assoc _ _ _)

theorem Inv.findNamed (h : Inv b ids f d) (m : AttrMap) (attrs : List String)
    (hcurrent : ∀ p, f.current = some p → p ∈ f.pending) :
    ∃ f', f.findNamed m attrs = .ok f' ∧
      Inv b ids f' (d.refer (attrs.filterMap fun attr => m.lookup (bytes attr))) := by
  induction attrs generalizing f d with
  | nil => exact ⟨f, rfl, h.refer fun name hname => absurd hname List.not_mem_nil⟩
  | cons attr attrs ih =>
    unfold Frame.findNamed
    rw [List.foldlM_cons]
    cases hattr : m.lookup (bytes attr) with
    | none =>
      simp only [List.filterMap_cons, hattr]
      exact ih h hcurrent
    | some name =>
      simp only [List.filterMap_cons, hattr]
      rw [← List.singleton_append, ← Document.refer_refer]
      obtain ⟨p, f', hfind, hinv, hname, hsame, hpending, -, hp⟩ := h.findPanel name
      have hpend : ∀ q, f'.current = some q → q ∈ f'.pending := by
        rw [hsame, hpending]
        exact hcurrent
      have hnoted : Inv b ids f' (d.refer [name]) := hinv.refer fun name' hname' => by
        rw [List.mem_singleton.mp hname']
        exact ⟨p, hp.imp_right (hpend p), hname⟩
      simp only [hfind]
      exact ih hnoted hpend

/-- A panel is defined under a name that the open window has not got yet. -/
theorem Inv.define (h : Inv b ids f d) {m : AttrMap} {p : Nat}
    (hopened : d.opened ≠ none) (hpending : f.pending = [])
    (hname : (f.panel p).name = value m "Name") (hp : some p ∈ f.panels ∨ f.current = some p)
    (hfresh : p ∉ ids) :
    Inv b ids (definePanel m p f) (d.define (value m "Name")) := by
  have hself : (definePanel m p f).panel p =
      { f.panel p with bitmap := some (value m "Bitmap"), parent := f.window.isSome } :=
    Function.update_self _ _ _
  have hother : ∀ q, q ≠ p → (definePanel m p f).panel q = f.panel q := fun q hq =>
    Function.update_of_ne hq _ _
  have hsame : ∀ q, ((definePanel m p f).panel q).name = (f.panel q).name := by
    intro q
    by_cases hq : q = p
    · rw [hq, hself]
    · rw [hother q hq]
  have hnow : (definePanel m p f).pending = [p] := by
    unfold Frame.pending
    show [p].filter _ = [p]
    rw [List.filter_cons_of_pos (by rw [hself]; rfl), List.filter_nil]
  refine ⟨?_, ?_, h.noNull, ?_, h.nodup, h.bound, ?_, ?_, ?_, ?_, ?_, h.closed⟩
  · show f.window.map _ = _
    rw [h.window]
    unfold Document.define
    rw [Option.map_map]
    rfl
  · intro hidle
    exact absurd (Option.map_eq_none_iff.mp hidle) hopened
  · intro q hq
    have hne : q ≠ p := fun heq => hfresh (heq ▸ hq)
    obtain ⟨hfiled, hbitmap, -⟩ := h.filed q hq
    refine ⟨hfiled, ?_, fun hcurrent => hne (Option.some.inj hcurrent).symm⟩
    rw [hother q hne]
    exact hbitmap
  · rintro q (hq | hq)
    · exact h.held q (.inl hq)
    · rw [← Option.some.inj hq]
      exact h.held p hp
  · intro w hw
    obtain ⟨v, hv, rfl⟩ := Option.map_eq_some_iff.mp hw
    have hbefore := h.names v hv
    rw [hpending, List.append_nil] at hbefore
    rw [hnow, List.map_append, List.map_congr_left fun q _ => hsame q, hbefore]
    show _ = v.panels ++ [value m "Name"]
    rw [List.map_singleton, hsame p, hname]
  · intro w hw name hmem
    obtain ⟨v, hv, rfl⟩ := Option.map_eq_some_iff.mp hw
    obtain ⟨q, hq, hqname⟩ := h.referenced v hv name hmem
    rw [hpending] at hq
    refine ⟨q, .inl (hq.resolve_right List.not_mem_nil), ?_⟩
    rw [hsame q]
    exact hqname
  · intro q hq hparent
    refine ⟨fun hnone => hopened (Option.map_eq_none_iff.mp hnone), ?_⟩
    rw [hnow, List.mem_singleton]
    by_cases hqp : q = p
    · exact .inr hqp
    · rw [hother q hqp] at hparent
      have hdefined := (h.defined q hq hparent).2
      rw [hpending] at hdefined
      exact .inl (hdefined.resolve_right List.not_mem_nil)
  · intro q hq hbitmap
    rw [← Option.some.inj hq, hself] at hbitmap
    exact absurd hbitmap (Option.some_ne_none _)

theorem Inv.makeDummyPanel (h : Inv b ids f d) (hcurrent : f.current = none) :
    Inv b ids f.makeDummyPanel d := by
  have hpanel : ∀ p, p < f.made → f.makeDummyPanel.panel p = f.panel p := fun p hp =>
    panel_makePanel hp
  have hself : f.makeDummyPanel.panel f.made =
      { Panel.new (bytes "DummyPanel") with parent := f.window.isSome } :=
    Function.update_self _ _ _
  have hbefore : f.pending = [] := by
    unfold Frame.pending
    rw [hcurrent]
    rfl
  have hpending : f.makeDummyPanel.pending = [] := by
    unfold Frame.pending
    show [f.made].filter _ = []
    rw [List.filter_cons_of_neg (by rw [hself]; exact Bool.false_ne_true), List.filter_nil]
  refine ⟨h.window, fun _ => hpending, h.noNull, ?_, h.nodup, Nat.le_succ_of_le h.bound, ?_, ?_,
    ?_, ?_, ?_, h.closed⟩
  · intro p hp
    obtain ⟨hfiled, hbitmap, -⟩ := h.filed p hp
    refine ⟨hfiled, ?_, fun heq => ?_⟩
    · rw [hpanel p (h.ids_lt hp)]
      exact hbitmap
    · exact Nat.ne_of_gt (h.ids_lt hp) (Option.some.inj heq)
  · rintro p (hp | hp)
    · exact ⟨(h.held p (.inl hp)).1, Nat.lt_succ_of_lt (h.held p (.inl hp)).2⟩
    · rw [← Option.some.inj hp]
      exact ⟨h.bound, Nat.lt_succ_self _⟩
  · intro w hw
    have hnames := h.names w hw
    rw [hbefore] at hnames
    rw [hpending, ← hnames]
    apply List.map_congr_left
    intro p hp
    rw [List.append_nil] at hp
    rw [hpanel p (h.ids_lt hp)]
  · intro w hw name hname
    obtain ⟨p, hp, hpname⟩ := h.referenced w hw name hname
    rw [hbefore] at hp
    have hp := hp.resolve_right List.not_mem_nil
    refine ⟨p, .inl hp, ?_⟩
    rw [hpanel p (h.held p (.inl hp)).2]
    exact hpname
  · intro p hp hparent
    rw [hpanel p (h.held p (.inl hp)).2] at hparent
    have hdefined := h.defined p hp hparent
    rw [hbefore] at hdefined
    rw [hpending]
    exact hdefined
  · intro p hp _
    rw [← Option.some.inj hp, hself]
    rfl

/-! ## What a call keeps -/

variable {r : Reads}

/-- A handler of what is not a control keeps the invariant. -/
def Keeps (h : AttrMap → Frame → Except NullPointer (Ret Frame)) : Prop :=
  ∀ {b : Nat} {ids : List Nat} {d : Document} (m : AttrMap) (f : Frame), Inv b ids f d →
    ∃ ret f', h m f = .ok (ret, f') ∧ (ret = none → Inv b ids f' d)

/-- A handler of what is in a control leaves the windows and the panels as they are. -/
def LeavesFrame (h : AttrMap → CurrentControl → Frame →
    Except NullPointer (Ret (CurrentControl × Frame))) : Prop :=
  ∀ m c f, ∃ ret c', h m c f = .ok (ret, c', f)

theorem Inv.of_eq (h : Inv b ids f d) {f' : Frame}
    (hwindow : f'.window.map (fun w => (w.name, w.panels)) =
      f.window.map fun w => (w.name, w.panels))
    (hcurrent : f'.current = f.current) (hpanels : f'.panels = f.panels)
    (hpanel : f'.panel = f.panel) (hmade : f'.made = f.made)
    (hparsed : f'.parsedWindows = f.parsedWindows) : Inv b ids f' d := by
  obtain ⟨window, current, panels, panel, made, parsedWindows, _, _, _⟩ := f'
  obtain rfl : current = f.current := hcurrent
  obtain rfl : panels = f.panels := hpanels
  obtain rfl : panel = f.panel := hpanel
  obtain rfl : made = f.made := hmade
  obtain rfl : parsedWindows = f.parsedWindows := hparsed
  exact ⟨hwindow.trans h.window, h.idle, h.noNull, h.filed, h.nodup, h.bound, h.held, h.names,
    h.referenced, h.defined, h.dummy, h.closed⟩

theorem keeps_done : Keeps fun _ => done := fun _ f hinv => ⟨none, f, rfl, fun _ => hinv⟩

theorem keeps_version : Keeps (version r) := by
  intro b ids d m f hinv
  unfold version
  split
  · exact ⟨_, f, rfl, fun _ => hinv⟩
  · split
    · exact ⟨_, f, rfl, fun _ => hinv⟩
    · exact ⟨_, f, rfl, fun _ => hinv⟩

theorem keeps_bitmap : Keeps (bitmap r) := by
  intro b ids d m f hinv
  unfold bitmap
  split
  · exact ⟨_, f, rfl, fun _ => hinv⟩
  · split
    · exact ⟨_, f, rfl, fun _ => hinv⟩
    · exact ⟨_, _, rfl, fun _ => hinv.of_eq rfl rfl rfl rfl rfl rfl⟩

theorem keeps_font : Keeps font := by
  intro b ids d m f hinv
  unfold font
  split
  · exact ⟨_, f, rfl, fun _ => hinv⟩
  · split
    · exact ⟨_, f, rfl, fun _ => hinv⟩
    · exact ⟨_, _, rfl, fun _ => hinv.of_eq rfl rfl rfl rfl rfl rfl⟩

theorem keeps_headlines : Keeps headlines := by
  intro b ids d m f hinv
  unfold headlines
  split
  · exact ⟨_, f, rfl, fun _ => hinv⟩
  split
  · exact ⟨_, f, rfl, fun _ => hinv⟩
  split
  · exact ⟨_, f, rfl, fun _ => hinv⟩
  · exact ⟨_, _, rfl, fun _ => hinv.of_eq rfl rfl rfl rfl rfl rfl⟩

theorem keeps_backgroundBitmap : Keeps (backgroundBitmap r) := by
  intro b ids d m f hinv
  unfold backgroundBitmap
  split
  · exact ⟨_, f, rfl, fun _ => hinv⟩
  rename_i w hw
  split
  · exact ⟨_, f, rfl, fun _ => hinv⟩
  split
  · exact ⟨_, f, rfl, fun _ => hinv⟩
  split
  · exact ⟨_, f, rfl, fun _ => hinv⟩
  split
  · exact ⟨_, f, rfl, fun _ => hinv⟩
  · refine ⟨_, _, rfl, fun _ => hinv.of_eq ?_ rfl rfl rfl rfl rfl⟩
    rw [hw]
    rfl

theorem keeps_controls : Keeps fun _ => controls := by
  intro b ids d m f hinv
  show ∃ ret f', controls f = _ ∧ _
  unfold controls
  split
  · exact ⟨_, f, rfl, fun _ => hinv⟩
  · split
    · rename_i hcurrent
      exact ⟨_, _, rfl, fun _ => hinv.makeDummyPanel hcurrent⟩
    · exact ⟨_, f, rfl, fun _ => hinv⟩

theorem keeps_dockPosition : Keeps (dockPosition r) := by
  intro b ids d m f hinv
  refine ⟨(dockPosition r m f).toOption.bind Prod.fst, f, ?_, fun _ => hinv⟩
  unfold dockPosition
  split
  · rfl
  split
  · rfl
  split
  · rfl
  · rfl

theorem leavesFrame_named (needed : List (String × Text)) : LeavesFrame (named needed) := by
  intro m c f
  unfold named
  split
  · exact ⟨_, _, rfl⟩
  · exact ⟨_, _, rfl⟩

theorem leavesFrame_style : LeavesFrame (style r) := by
  intro m c f
  unfold style
  split
  · exact ⟨_, _, rfl⟩
  · split_ifs <;> exact ⟨_, _, rfl⟩

theorem leavesFrame_position : LeavesFrame (position r) := by
  intro m c f
  unfold position
  split_ifs <;> exact ⟨_, _, rfl⟩

theorem leavesFrame_controlBitmaps (needed : List (String × Text)) (tag : String)
    (state defines : Bool) : LeavesFrame (controlBitmaps r needed tag state defines) := by
  intro m c f
  unfold controlBitmaps
  split
  · exact ⟨_, _, rfl⟩
  · split_ifs <;> exact ⟨_, _, rfl⟩

theorem leavesFrame_sliderTroughBitmap : LeavesFrame (sliderTroughBitmap r) := by
  intro m c f
  unfold sliderTroughBitmap
  split
  · exact ⟨_, _, rfl⟩
  · exact leavesFrame_controlBitmaps _ _ _ _ m c f

theorem leavesFrame_activationBitmap : LeavesFrame (activationBitmap r) := by
  intro m c f
  unfold activationBitmap
  split
  · exact ⟨_, _, rfl⟩
  · exact leavesFrame_controlBitmaps _ _ _ _ m c f

theorem Inv.beginPanel (h : Inv b ids f d) {m : AttrMap} (hwindow : f.window.isSome)
    (hpending : f.pending = []) (hlacks : f.Lacks (value m "Name")) :
    ∃ ret f', panel r m f = .ok (ret, f') ∧
      (ret = none → Inv b ids f' ((d.define (value m "Name")).refer (references m))) := by
  obtain ⟨w, hw⟩ := Option.isSome_iff_exists.mp hwindow
  have hopened : d.opened ≠ none := by
    intro hnone
    have heq := h.window
    rw [hw, hnone] at heq
    exact absurd heq nofun
  unfold panel
  rw [hw]
  simp only
  split
  · exact ⟨_, _, rfl, nofun⟩
  split
  · exact ⟨_, _, rfl, nofun⟩
  split
  · exact ⟨_, _, rfl, nofun⟩
  split
  · exact ⟨_, _, rfl, nofun⟩
  split
  · exact ⟨_, _, rfl, nofun⟩
  obtain ⟨p, f', hfind, hinv, hname, -, hpend, hkept, hp⟩ := h.findPanel (value m "Name")
  have hfresh : p ∉ ids := by
    intro hmem
    -- the panel would be one of the window's
    have hpanels : some p ∈ w.panels := by
      have heq := h.window
      rw [hw] at heq
      obtain ⟨v, -, heq⟩ := Option.map_eq_some_iff.mp heq.symm
      rw [← (Prod.mk.inj heq).2]
      exact List.mem_map_of_mem hmem
    rw [hkept p (h.ids_lt hmem)] at hname
    exact hlacks w hw p hpanels hname
  rw [hfind]
  simp only [FreeAmp.Lib.ok_bind]
  split
  · exact ⟨_, _, rfl, nofun⟩
  have hdefined := hinv.define hopened (hpend.trans hpending) hname hp hfresh
  obtain ⟨f3, hnamed, hinv3⟩ := hdefined.findNamed m panelReferences fun q hq => by
    apply List.mem_filter.mpr
    refine ⟨Option.mem_toList.mpr hq, ?_⟩
    obtain rfl : p = q := Option.some.inj hq
    show ((definePanel m p f').panel p).bitmap.isSome = true
    unfold definePanel
    simp only [Function.update_self]
    rfl
  rw [hnamed]
  exact ⟨_, _, rfl, fun _ => hinv3⟩

theorem Inv.toggle (h : Inv b ids f d) (m : AttrMap) (c : CurrentControl) :
    ∃ ret c' f', togglePanel m c f = .ok (ret, c', f') ∧ (ret = none → Inv b ids f' d) := by
  unfold togglePanel
  split
  · exact ⟨_, _, _, rfl, nofun⟩
  · obtain ⟨p, f', hfind, hinv, -⟩ := h.findPanel (value m "Panel")
    rw [hfind]
    exact ⟨_, _, _, rfl, fun _ => hinv⟩

/-! ## Ends of panels and windows -/

theorem Inv.opened_of_window (h : Inv b ids f d) (hwindow : f.window.isSome) :
    ∃ w v, f.window = some w ∧ d.opened = some v ∧ w.name = v.name ∧
      w.panels = ids.map some := by
  obtain ⟨w, hw⟩ := Option.isSome_iff_exists.mp hwindow
  have heq := h.window
  rw [hw] at heq
  obtain ⟨v, hv, heq⟩ := Option.map_eq_some_iff.mp heq.symm
  obtain ⟨hname, hpanels⟩ := Prod.mk.inj heq
  exact ⟨w, v, hw, hv, hname.symm, hpanels.symm⟩

/-- A panel that has been defined is put into the window. -/
theorem Inv.panelEnds (h : Inv b ids f d) (hwindow : f.window.isSome) (hpending : f.pending ≠ []) :
    ∃ f', f.addCurrentPanel = .ok f' ∧ ∃ ids', Inv b ids' f' d := by
  obtain ⟨w, v, hw, hv, hname, hpanels⟩ := h.opened_of_window hwindow
  obtain ⟨p, hp⟩ := List.exists_mem_of_ne_nil _ hpending
  obtain ⟨hcurrent, hbitmap⟩ := List.mem_filter.mp hp
  have hcurrent := Option.mem_toList.mp hcurrent
  have hcurrent : f.current = some p := hcurrent
  have hpend : f.pending = [p] := by
    unfold Frame.pending
    rw [hcurrent]
    exact List.filter_cons_of_pos hbitmap
  unfold Frame.addCurrentPanel
  rw [hw]
  have hmem : ∀ q, some q ∈ f.panels ++ [f.current] ↔ some q ∈ f.panels ∨ q = p := by
    intro q
    rw [List.mem_append, List.mem_singleton, hcurrent, Option.some.injEq]
  refine ⟨_, rfl, ids ++ [p], ⟨?_, fun _ => rfl, ?_, ?_, ?_, h.bound, ?_, ?_, ?_, ?_, nofun,
    h.closed⟩⟩
  · rw [hv]
    show some (w.name, w.panels ++ [f.current]) = some (v.name, (ids ++ [p]).map some)
    rw [hname, hpanels, hcurrent, List.map_append]
    rfl
  · show none ∉ f.panels ++ [f.current]
    rw [hcurrent]
    simpa using h.noNull
  · intro q hq
    refine ⟨(hmem q).mpr ?_, ?_, nofun⟩
    · rcases List.mem_append.mp hq with hq | hq
      · exact .inl (h.filed q hq).1
      · exact .inr (List.mem_singleton.mp hq)
    · rcases List.mem_append.mp hq with hq | hq
      · exact (h.filed q hq).2.1
      · rw [List.mem_singleton.mp hq]
        exact hbitmap
  · rw [List.nodup_append]
    refine ⟨h.nodup, List.nodup_singleton p, fun q hq q' hq' heq => ?_⟩
    rw [heq, List.mem_singleton.mp hq'] at hq
    exact (h.filed p hq).2.2 hcurrent
  · rintro q (hq | hq)
    · rcases (hmem q).mp hq with hq | rfl
      · exact h.held q (.inl hq)
      · exact h.held q (.inr hcurrent)
    · exact absurd hq nofun
  · intro u hu
    have hnames := h.names u hu
    rw [hpend] at hnames
    exact (congrArg (List.map _) (List.append_nil (ids ++ [p]))).trans hnames
  · intro u hu name hmem'
    obtain ⟨q, hq, hqname⟩ := h.referenced u hu name hmem'
    rw [hpend, List.mem_singleton] at hq
    exact ⟨q, .inl ((hmem q).mpr hq), hqname⟩
  · intro q hq hparent
    refine ⟨fun hnone => absurd (hv.symm.trans hnone) nofun, .inl (List.mem_append.mpr ?_)⟩
    rcases (hmem q).mp hq with hq | rfl
    · have hdefined := (h.defined q hq hparent).2
      rw [hpend] at hdefined
      exact hdefined
    · exact .inr (List.mem_singleton_self _)

theorem Inv.owns (h : Inv b ids f d) {w : Window} {v : Described} (hv : d.opened = some v)
    (hname : w.name = v.name) (hpanels : w.panels = (ids ++ f.current.toList).map some)
    (hdefined : f.AllDefined) : Owns (f.parsed w) v := by
  have hlist : (f.parsed w).panels = (ids ++ f.current.toList).map fun p =>
      some (p, f.panel p) := by
    show w.panels.map _ = _
    rw [hpanels, List.map_map]
    rfl
  have hreduce : (f.parsed w).panels.reduceOption =
      (ids ++ f.current.toList).map fun p => (p, f.panel p) := by
    rw [hlist]
    induction ids ++ f.current.toList with
    | nil => rfl
    | cons p ps ih =>
      rw [List.map_cons, List.reduceOption_cons_of_some, ih]
      rfl
  have hids : ids.filter (fun p => (f.panel p).bitmap.isSome) = ids :=
    List.filter_eq_self.mpr fun p hp => (h.filed p hp).2.1
  refine ⟨hname, ?_, ?_, ?_, ?_⟩
  · rw [hreduce, List.map_map, List.filter_map, List.map_map, ← h.names v hv]
    show List.map _ ((ids ++ f.current.toList).filter fun p => (f.panel p).bitmap.isSome) = _
    rw [List.filter_append, hids]
    rfl
  · rw [hlist]
    intro hnone
    obtain ⟨p, -, hp⟩ := List.mem_map.mp hnone
    exact absurd hp nofun
  · intro q hq hbitmap
    rw [hreduce] at hq
    obtain ⟨p, hp, rfl⟩ := List.mem_map.mp hq
    rcases List.mem_append.mp hp with hp | hp
    · have hsome := (h.filed p hp).2.1
      rw [hbitmap] at hsome
      exact absurd hsome Bool.false_ne_true
    · exact h.dummy p (Option.mem_toList.mp hp) hbitmap
  · intro name hmem
    obtain ⟨p, hp, rfl⟩ := h.referenced v hv name hmem
    rw [← h.names v hv]
    apply @List.mem_map_of_mem _ _ _ _ fun p => (f.panel p).name
    apply List.mem_append.mpr
    rcases hp with hp | hp
    · exact (h.defined p hp (hdefined p hp)).2
    · exact .inr hp

theorem addresses_append (windows : List (Option ParsedWindow)) (w : ParsedWindow) :
    addresses (windows ++ [some w]) =
      addresses windows ++ w.panels.reduceOption.map Prod.fst := by
  unfold addresses
  rw [List.reduceOption_append, List.flatMap_append]
  congr 1
  exact List.append_nil _

/-- A window ends where its panels have been defined, and nothing is held any more. -/
theorem Inv.windowEnds (h : Inv b ids f d) {control : CurrentControl} (hwindow : f.window.isSome)
    (hdefined : f.AllDefined) :
    ∃ s', endWindow ⟨f, control⟩ = .ok (none, s') ∧
      Inv f.made [] s'.frame { opened := none, windows := d.windows ++ d.opened.toList } := by
  obtain ⟨w, v, hw, hv, hname, hpanels⟩ := h.opened_of_window hwindow
  have hclosed : ∀ w', w'.name = v.name → w'.panels = (ids ++ f.current.toList).map some →
      Closed f.made (f.parsedWindows.getD [] ++ [some (f.parsed w')]) (d.windows ++ [v]) := by
    intro w' hname' hpanels'
    have hnew : (f.parsed w').panels.reduceOption.map Prod.fst = ids ++ f.current.toList := by
      show (w'.panels.map _).reduceOption.map _ = _
      rw [hpanels', List.map_map]
      induction ids ++ f.current.toList with
      | nil => rfl
      | cons p ps ih =>
        rw [List.map_cons]
        exact congrArg (p :: ·) ih
    have hheld : ∀ p ∈ ids ++ f.current.toList, b ≤ p ∧ p < f.made := by
      intro p hp
      rcases List.mem_append.mp hp with hp | hp
      · exact h.held p (.inl (h.filed p hp).1)
      · exact h.held p (.inr (Option.mem_toList.mp hp))
    have hnodup : (ids ++ f.current.toList).Nodup := by
      rw [List.nodup_append]
      refine ⟨h.nodup, ?_, fun p hp q hq heq => ?_⟩
      · cases f.current with
        | none => exact List.nodup_nil
        | some p => exact List.nodup_singleton p
      · rw [heq] at hp
        exact (h.filed q hp).2.2 (Option.mem_toList.mp hq)
    refine ⟨⟨?_, ?_⟩, ?_⟩
    · exact List.rel_append h.closed.right.owns
        (.cons ⟨_, rfl, h.owns hv hname' hpanels' hdefined⟩ .nil)
    · rw [addresses_append, hnew, List.nodup_append]
      refine ⟨h.closed.right.once, hnodup, fun p hp q hq heq => ?_⟩
      have hlow := h.closed.below p hp
      rw [heq] at hlow
      exact Nat.not_lt.mpr (hheld q hq).1 hlow
    · intro p hp
      rw [addresses_append, hnew] at hp
      rcases List.mem_append.mp hp with hp | hp
      · exact Nat.lt_of_lt_of_le (h.closed.below p hp) h.bound
      · exact (hheld p hp).2
  have hnothing : ∀ (f' : Frame) (windows : List Described), f'.window = none →
      f'.current = none → f'.panels = [] → f'.made = f.made →
      Closed f.made (f'.parsedWindows.getD []) windows →
        Inv f.made [] f' { opened := none, windows := windows } := by
    intro f' windows hwindow' hcurrent' hpanels' hmade hright
    have hpending : f'.pending = [] := by
      unfold Frame.pending
      rw [hcurrent']
      rfl
    refine ⟨by rw [hwindow']; rfl, fun _ => hpending, by rw [hpanels']; exact List.not_mem_nil,
      fun p hp => absurd hp List.not_mem_nil, List.nodup_nil, hmade.ge, ?_, nofun, nofun, ?_,
      ?_, hright⟩
    · rintro p (hp | hp)
      · rw [hpanels'] at hp
        exact absurd hp List.not_mem_nil
      · exact absurd (hcurrent'.symm.trans hp) nofun
    · intro p hp
      rw [hpanels'] at hp
      exact absurd hp List.not_mem_nil
    · intro p hp
      exact absurd (hcurrent'.symm.trans hp) nofun
  rw [hv]
  unfold endWindow
  cases hcurrent : f.current with
  | none =>
    have hlist := hclosed w hname (by
      rw [hcurrent, hpanels]
      exact congrArg _ (List.append_nil _).symm)
    refine ⟨_, rfl, hnothing _ _ rfl hcurrent rfl rfl ?_⟩
    show Closed f.made (f.parsedWindows.getD [] ++ [f.window.map f.parsed]) _
    rw [hw]
    exact hlist
  | some p =>
    have hlist := hclosed { w with panels := w.panels ++ [some p] } hname (by
      rw [hcurrent, List.map_append, ← hpanels]
      rfl)
    simp only [Frame.addCurrentPanel, hw, hcurrent]
    exact ⟨_, rfl, hnothing _ _ rfl rfl rfl rfl hlist⟩

/-! ## Calls -/

/-- A handler keeps what is known, without anything that is to be admitted. -/
def Harmless (h : Handler) : Prop :=
  ∀ {b : Nat} {ids : List Nat} {d : Document} (m : AttrMap) (s : Parser), Inv b ids s.frame d →
    ∃ ret s', h.run m s = .ok (ret, s') ∧ (ret = none → Inv b ids s'.frame d)

theorem harmless_outer {h : AttrMap → Frame → Except NullPointer (Ret Frame)} (hkeeps : Keeps h) :
    Harmless (.outer h) := by
  intro b ids d m s hinv
  obtain ⟨ret, f', hrun, hinv'⟩ := hkeeps m s.frame hinv
  refine ⟨ret, { s with frame := f' }, ?_, hinv'⟩
  simp only [Handler.run]
  rw [hrun]
  rfl

theorem harmless_outside {text : Text} {h : AttrMap → Frame → Except NullPointer (Ret Frame)}
    (hkeeps : Keeps h) : Harmless (.outside text h) := by
  intro b ids d m s hinv
  obtain ⟨ret, f', hrun, hinv'⟩ := hkeeps m s.frame hinv
  simp only [Handler.run]
  split
  · exact ⟨_, s, rfl, fun _ => hinv⟩
  · refine ⟨ret, { s with frame := f' }, ?_, hinv'⟩
    rw [hrun]
    rfl

theorem harmless_begins (type : ControlType) (check : AttrMap → Option Text) :
    Harmless (.begins type check) :=
  fun _ _ hinv => ⟨_, _, rfl, fun _ => hinv⟩

theorem harmless_within {text : Text} {type : Option ControlType}
    {h : AttrMap → CurrentControl → Frame → Except NullPointer (Ret (CurrentControl × Frame))}
    (hleaves : LeavesFrame h) : Harmless (.within text type h) := by
  intro b ids d m s hinv
  obtain ⟨ret, c', hrun⟩ := hleaves m s.control s.frame
  simp only [Handler.run]
  split
  · exact ⟨_, s, rfl, fun _ => hinv⟩
  split
  · exact ⟨_, s, rfl, fun _ => hinv⟩
  · refine ⟨ret, { frame := s.frame, control := c' }, ?_, fun _ => hinv⟩
    rw [hrun]
    rfl

theorem harmless_togglePanel {text : Text} {type : Option ControlType} :
    Harmless (.within text type togglePanel) := by
  intro b ids d m s hinv
  obtain ⟨ret, c', f', hrun, hinv'⟩ := hinv.toggle m s.control
  simp only [Handler.run]
  split
  · exact ⟨_, s, rfl, fun _ => hinv⟩
  split
  · exact ⟨_, s, rfl, fun _ => hinv⟩
  · refine ⟨ret, { frame := f', control := c' }, ?_, hinv'⟩
    rw [hrun]
    rfl

theorem harmless_handler {e : Element} (hwindow : e ≠ .window) (hpanel : e ≠ .panel) :
    Harmless (handler r e) := by
  cases e with
  | window => exact absurd rfl hwindow
  | panel => exact absurd rfl hpanel
  | version => exact harmless_outer keeps_version
  | bitmap => exact harmless_outer keeps_bitmap
  | font => exact harmless_outer keeps_font
  | backgroundBitmap => exact harmless_outer keeps_backgroundBitmap
  | controls => exact harmless_outer keeps_controls
  | headlines => exact harmless_outer keeps_headlines
  | action => exact harmless_outer keeps_done
  | maskBitmap => exact harmless_outer keeps_done
  | themeInfo => exact harmless_outside keeps_done
  | dockPosition => exact harmless_outside keeps_dockPosition
  | buttonControl => exact harmless_begins _ _
  | dialControl => exact harmless_begins _ _
  | multiStateControl => exact harmless_begins _ _
  | pixSliderControl => exact harmless_begins _ _
  | sliderControl => exact harmless_begins _ _
  | vSliderControl => exact harmless_begins _ _
  | textControl => exact harmless_begins _ _
  | pixmapFontControl => exact harmless_begins _ _
  | pixmapTimeControl => exact harmless_begins _ _
  | fontMap => exact harmless_within (leavesFrame_named _)
  | partName => exact harmless_within (leavesFrame_named _)
  | changeWindow => exact harmless_within (leavesFrame_named _)
  | style => exact harmless_within leavesFrame_style
  | togglePanel => exact harmless_togglePanel
  | position => exact harmless_within leavesFrame_position
  | controlBitmap => exact harmless_within (leavesFrame_controlBitmaps _ _ _ _)
  | sliderTroughBitmap => exact harmless_within leavesFrame_sliderTroughBitmap
  | activationBitmap => exact harmless_within leavesFrame_activationBitmap
  | controlStateBitmap => exact harmless_within (leavesFrame_controlBitmaps _ _ _ _)
  | info => exact harmless_within fun _ _ _ => ⟨_, _, rfl⟩

theorem Inv.beginWindow (h : Inv b ids f d) (m : AttrMap) :
    ∃ ret f', ThemeParse.window m f = .ok (ret, f') ∧
      (ret = none → Inv b [] f' { d with opened := some ⟨value m "Name", [], []⟩ }) := by
  unfold ThemeParse.window
  split
  · exact ⟨_, _, rfl, nofun⟩
  rename_i hwindow
  split
  · exact ⟨_, _, rfl, nofun⟩
  have hidle : d.opened = none := by
    have heq := h.window
    rw [Option.not_isSome_iff_eq_none.mp hwindow] at heq
    exact Option.map_eq_none_iff.mp heq.symm
  refine ⟨_, _, rfl, fun _ => ⟨rfl, nofun, h.noNull, fun p hp => absurd hp List.not_mem_nil,
    List.nodup_nil, h.bound, h.held, ?_, ?_, ?_, h.dummy, h.closed⟩⟩
  · intro w hw
    rw [← Option.some.inj hw]
    exact congrArg (List.map fun p => (f.panel p).name) (h.idle hidle)
  · intro w hw name hname
    rw [← Option.some.inj hw] at hname
    exact absurd hname List.not_mem_nil
  · intro p hp hparent
    exact absurd hidle (h.defined p hp hparent).1

theorem Inv.controlEnds {s : Parser} (h : Inv b ids s.frame d)
    (hcontrol : s.control.control.isSome) :
    ∃ ret s', endControl s = .ok (ret, s') ∧ (ret = none → Inv b ids s'.frame d) := by
  obtain ⟨control, hcontrol⟩ := Option.isSome_iff_exists.mp hcontrol
  unfold endControl
  simp only [hcontrol]
  split
  · exact ⟨_, s, rfl, fun _ => h⟩
  split
  · exact ⟨_, s, rfl, fun _ => h⟩
  split
  · exact ⟨_, s, rfl, fun _ => h⟩
  split
  · exact ⟨_, s, rfl, fun _ => h⟩
  · refine ⟨_, _, rfl, fun _ => ?_⟩
    cases hcurrent : s.frame.current with
    | none => exact h.makeDummyPanel hcurrent
    | some p => exact h

/-- What an end tag is of. -/
inductive Ending (name : Text) : Prop where
  | window (h : elementOf name = some .window)
  | panel (h : elementOf name = some .panel)
  | pixmapTimeControl (h : elementOf name = some .pixmapTimeControl)
  | controls (h : elementOf name = some .controls)
  /-- a control that is put into a panel -/
  | control (hends : ∀ s, endElement s name = endControl s)
      (hadmits : ∀ s, Admits s (.endElement name) → s.control.control.isSome)
      (hread : ∀ d : Document, d.read (.endElement name) = d)
  /-- what is to stand in a control -/
  | inside (text : Text)
      (hends : ∀ s, endElement s name = match s.control.control with
        | none => failed .invalidParam text s
        | some _ => done s)
      (hread : ∀ d : Document, d.read (.endElement name) = d)
  | other (hends : ∀ s, endElement s name = done s)
      (hread : ∀ d : Document, d.read (.endElement name) = d)

theorem ending (name : Text) : Ending name := by
  cases helement : elementOf name with
  | none =>
    refine .other (fun s => ?_) fun d => ?_
    · simp only [endElement, helement]
    · simp only [Document.read, helement]
  | some e =>
    have hread : e ≠ .window → ∀ d : Document, d.read (.endElement name) = d := by
      intro hne d
      simp only [Document.read, helement]
      cases e with
      | window => exact absurd rfl hne
      | _ => rfl
    have hcontrol : e ≠ .window →
        (∀ s, endElement s name = endControl s) →
        (∀ s, Admits s (.endElement name) → s.control.control.isSome = true) → Ending name :=
      fun hne hends hadmits => .control hends hadmits (hread hne)
    have hinside : e ≠ .window → (∀ s, endElement s name = match s.control.control with
        | none => failed .invalidParam
            (bytes "The <" ++ name ++ bytes "> tag must be inside a <XXXXControl>") s
        | some _ => done s) → Ending name :=
      fun hne hends => .inside _ hends (hread hne)
    cases e
    case window => exact .window helement
    case panel => exact .panel helement
    case pixmapTimeControl => exact .pixmapTimeControl helement
    case controls => exact .controls helement
    case buttonControl | dialControl | sliderControl | vSliderControl | multiStateControl
        | textControl | pixmapFontControl | pixSliderControl =>
      refine hcontrol nofun (fun s => ?_) fun s hadmits => ?_
      · simp only [endElement, helement]
      · simp only [Admits, helement] at hadmits
        exact hadmits
    case action | position | style | info | controlBitmap | controlStateBitmap
        | sliderTroughBitmap | activationBitmap | fontMap | partName =>
      refine hinside nofun fun s => ?_
      cases hopen : s.control.control <;> simp only [endElement, helement, hopen]
    all_goals
      refine .other (fun s => ?_) (hread nofun)
      simp only [endElement, helement]

/-- A call that goes the right way dereferences nothing that is null, and keeps what has been
made to what has been read. -/
theorem Inv.call {s : Parser} (h : Inv b ids s.frame d) {e : Event} (hadmits : Admits s e) :
    ∃ ret s', call r s e = .ok (ret, s') ∧
      (ret = none → ∃ b' ids', Inv b' ids' s'.frame (d.read e)) := by
  cases e with
  | pcData data => exact ⟨_, s, rfl, fun hret => by cases hret⟩
  | beginElement name m =>
    simp only [Admits] at hadmits
    simp only [ThemeParse.call, beginElement, Document.read]
    cases helement : elementOf name with
    | none => exact ⟨none, s, rfl, fun _ => ⟨b, ids, h⟩⟩
    | some e =>
      rw [helement] at hadmits
      by_cases hwindow : e = .window
      · subst hwindow
        obtain ⟨ret, f', hrun, hinv⟩ := h.beginWindow m
        refine ⟨ret, { s with frame := f' }, ?_, fun hret => ⟨b, [], hinv hret⟩⟩
        show (ThemeParse.window m s.frame >>= _) = _
        rw [hrun]
        rfl
      by_cases hpanel : e = .panel
      · subst hpanel
        obtain ⟨hopen, hpending, hlacks⟩ := hadmits
        obtain ⟨ret, f', hrun, hinv⟩ :=
          @Inv.beginPanel b ids s.frame d r h m hopen hpending hlacks
        refine ⟨ret, { s with frame := f' }, ?_, fun hret => ⟨b, ids, hinv hret⟩⟩
        show (panel r m s.frame >>= _) = _
        rw [hrun]
        rfl
      obtain ⟨ret, s', hrun, hinv⟩ := @harmless_handler r e hwindow hpanel b ids d m s h
      refine ⟨ret, s', hrun, fun hret => ⟨b, ids, ?_⟩⟩
      cases e with
      | window => exact absurd rfl hwindow
      | panel => exact absurd rfl hpanel
      | _ => exact hinv hret
  | endElement name =>
    simp only [ThemeParse.call]
    cases ending name with
    | window helement =>
      simp only [Admits, helement] at hadmits
      simp only [endElement, Document.read, helement]
      obtain ⟨hopen, hdefined⟩ := hadmits
      obtain ⟨s', hrun, hinv⟩ := @Inv.windowEnds b ids s.frame d h s.control hopen hdefined
      exact ⟨none, s', hrun, fun _ => ⟨_, _, hinv⟩⟩
    | panel helement =>
      simp only [Admits, helement] at hadmits
      simp only [endElement, endPanel, Document.read, helement]
      obtain ⟨hopen, hpending⟩ := hadmits
      obtain ⟨f', hrun, ids', hinv⟩ := h.panelEnds hopen hpending
      rw [hrun]
      exact ⟨none, { s with frame := f' }, rfl, fun _ => ⟨b, ids', hinv⟩⟩
    | pixmapTimeControl helement =>
      simp only [Admits, helement] at hadmits
      obtain ⟨hcurrent, hsome⟩ := hadmits
      obtain ⟨p, hcurrent⟩ := Option.isSome_iff_exists.mp hcurrent
      obtain ⟨control, hsome⟩ := Option.isSome_iff_exists.mp hsome
      simp only [endElement, endPixmapTimeControl, Document.read, helement, hcurrent, hsome]
      exact ⟨_, _, rfl, fun _ => ⟨b, ids, h⟩⟩
    | controls helement =>
      simp only [endElement, Document.read, helement]
      cases s.frame.window with
      | none => exact ⟨_, s, rfl, fun hret => by cases hret⟩
      | some _ => exact ⟨none, s, rfl, fun _ => ⟨b, ids, h⟩⟩
    | control hends hsome hread =>
      rw [hends, hread]
      obtain ⟨ret, s', hrun, hinv⟩ := h.controlEnds (hsome s hadmits)
      exact ⟨ret, s', hrun, fun hret => ⟨b, ids, hinv hret⟩⟩
    | inside text hends hread =>
      rw [hends, hread]
      cases s.control.control with
      | none => exact ⟨_, s, rfl, fun hret => by cases hret⟩
      | some _ => exact ⟨none, s, rfl, fun _ => ⟨b, ids, h⟩⟩
    | other hends hread =>
      rw [hends, hread]
      exact ⟨none, s, rfl, fun _ => ⟨b, ids, h⟩⟩

theorem Inv.calls {s : Parser} (h : Inv b ids s.frame d) {events : List Event}
    (hadmitted : Admitted r s events) :
    ∃ ret s', calls r s events = .ok (ret, s') ∧
      (ret = none → ∃ b' ids', Inv b' ids' s'.frame (events.foldl Document.read d)) := by
  induction events generalizing s b ids d with
  | nil => exact ⟨none, s, rfl, fun _ => ⟨b, ids, h⟩⟩
  | cons e events ih =>
    obtain ⟨hadmits, hrest⟩ := hadmitted
    obtain ⟨ret, s', hcall, hinv⟩ := @Inv.call b ids d r s h e hadmits
    unfold ThemeParse.calls
    rw [hcall]
    cases ret with
    | some failure => exact ⟨_, s', rfl, nofun⟩
    | none =>
      obtain ⟨b', ids', hinv⟩ := hinv rfl
      exact ih hinv (hrest s' hcall)

end FreeAmp.Ui.ThemeParse
