/-
  Xml/ParseNames.lean --- no name of an element that a parse calls with has a slash.

  The name in a call is what a format has accepted, or what an earlier one has left in the
  buffer of the names.
-/
import FreeAmp.Xml.ParseAgree

namespace FreeAmp.Xml

open FreeAmp.Base FreeAmp.Lib

/-! ## Fields -/

/-- Every byte of a field is accepted by a set of the format. -/
theorem scanf_fields {P : UInt8 → Prop} (ds : List Directive) (input : Text) (pos : Nat) :
    (∀ width accepts, Directive.set width accepts ∈ ds → ∀ c, accepts c = true → P c) →
      ∀ field ∈ (scanf ds input pos).fields, ∀ c ∈ field, P c := by
  induction ds, input, pos using scanf.induct with
  | case1 input pos => exact fun _ field hfield => absurd hfield List.not_mem_nil
  | case2 ds input pos rest ih =>
    intro hsets
    rw [scanf]
    exact ih fun width accepts hmem => hsets width accepts (List.mem_cons_of_mem _ hmem)
  | case3 c ds pos => exact fun _ field hfield => absurd hfield List.not_mem_nil
  | case4 ds d input pos ih =>
    intro hsets
    rw [scanf, if_pos rfl]
    exact ih fun width accepts hmem => hsets width accepts (List.mem_cons_of_mem _ hmem)
  | case5 c ds d input pos hne =>
    rw [scanf, if_neg hne]
    exact fun _ field hfield => absurd hfield List.not_mem_nil
  | case6 width accepts ds pos => exact fun _ field hfield => absurd hfield List.not_mem_nil
  | case7 width accepts ds d input pos field hnone =>
    rw [scanf, if_pos hnone]
    exact fun _ field hfield => absurd hfield List.not_mem_nil
  | case8 width accepts ds d input pos field hsome rest ih =>
    intro hsets taken htaken c hc
    rw [scanf, if_neg hsome] at htaken
    rcases List.mem_cons.mp htaken with rfl | hlater
    · refine hsets width accepts List.mem_cons_self c ?_
      cases width with
      | none => exact List.mem_takeWhile_imp hc
      | some n => exact List.mem_takeWhile_imp hc
    · exact ih (fun width accepts hmem => hsets width accepts (List.mem_cons_of_mem _ hmem))
        taken hlater c hc
  | case9 ds input pos ih =>
    intro hsets
    rw [scanf]
    exact ih fun width accepts hmem => hsets width accepts (List.mem_cons_of_mem _ hmem)

/-! ## Names -/

/-- The name of the element in a call has no slash. -/
def Event.NoSlash : Event → Prop
  | .beginElement element _ => 47 ∉ element
  | .endElement element => 47 ∉ element
  | .pcData _ => True

/-- Nor has the name that is kept. -/
structure Parsing.NoSlash (p : Parsing) : Prop where
  elementName : 47 ∉ cStr p.elementName
  events : ∀ e ∈ p.events, e.NoSlash

theorem cStr_write (b : Buffer) (s : Text) : cStr (b.write s) = cStr s := by
  unfold Buffer.write
  rw [List.append_assoc]
  exact cStr_append_nul s _

theorem mem_of_mem_cStr {s : Text} {c : UInt8} (h : c ∈ cStr s) : c ∈ s :=
  (List.takeWhile_sublist _).subset h

variable {answer : List Event → Error} {p : Parsing}

theorem Parsing.NoSlash.call (h : p.NoSlash) {e : Event} (he : e.NoSlash) :
    (Xml.call answer p e).1.NoSlash := by
  refine ⟨h.elementName, fun e' he' => ?_⟩
  rcases List.mem_append.mp he' with hbefore | hnow
  · exact h.events e' hbefore
  · exact List.mem_singleton.mp hnow ▸ he

theorem Parsing.NoSlash.write (h : p.NoSlash) {name : Text} (hname : 47 ∉ name) :
    Parsing.NoSlash { p with elementName := p.elementName.write name } := by
  refine ⟨fun hmem => ?_, h.events⟩
  rw [cStr_write] at hmem
  exact hname (mem_of_mem_cStr hmem)

/-- A format whose sets do not accept a slash reads none. -/
theorem not_mem_field {ds : List Directive} {input field : Text} {pos : Nat}
    (hsets : ∀ width accepts, Directive.set width accepts ∈ ds → accepts 47 = false)
    (hfield : field ∈ (scanf ds input pos).fields) : 47 ∉ field := by
  refine fun hmem => scanf_fields (P := (· ≠ 47)) ds input pos ?_ field hfield 47 hmem rfl
  rintro width accepts hset c hc rfl
  rw [hsets width accepts hset] at hc
  cases hc

theorem slash_nameFormat (width : Option Nat) (accepts : UInt8 → Bool)
    (h : Directive.set width accepts ∈ nameFormat) : accepts 47 = false := by
  simp [nameFormat] at h
  rw [h.2]
  decide

theorem slash_endFormat (width : Option Nat) (accepts : UInt8 → Bool)
    (h : Directive.set width accepts ∈ endFormat) : accepts 47 = false := by
  simp [endFormat] at h
  rw [h.2]
  decide

theorem slash_whiteFormat (width : Option Nat) (accepts : UInt8 → Bool)
    (h : Directive.set width accepts ∈ whiteFormat) : accepts 47 = false := by
  simp [whiteFormat] at h
  rw [h.2]
  decide

theorem not_mem_scan {format : List Directive} {source : Source} {field : Text}
    (hsets : ∀ width accepts, Directive.set width accepts ∈ format → accepts 47 = false)
    (hfield : field ∈ (source.scan format).2) : 47 ∉ field := by
  cases source with
  | file rest eof => exact not_mem_field hsets hfield
  | string xml offset =>
    have hcounted : field ∈ (scanf (format ++ [.count]) (cStr (xml.drop offset)) 0).fields := by
      unfold Source.scan at hfield
      dsimp only at hfield
      split at hfield <;> exact hfield
    refine not_mem_field (fun width accepts hset => ?_) hcounted
    rcases List.mem_append.mp hset with hset | hcount
    · exact hsets width accepts hset
    · cases List.mem_singleton.mp hcount

/-! ## A round -/

theorem not_mem_read {b : Buffer} {name : Text} (hb : 47 ∉ cStr b) (h : b.read 0 = .ok name) :
    47 ∉ name := by
  unfold Buffer.read at h
  split at h
  · rw [← Except.ok.inj h]
    exact hb
  · cases h

theorem Parsing.NoSlash.begun (h : p.NoSlash) {name : Text} (hname : 47 ∉ name)
    {emptyTag : Bool} {attrMap : AttrMap} {r : Parsing × Bool}
    (hr : (let b := Xml.call answer p (.beginElement name attrMap)
      if emptyTag && !b.2 then pure (Xml.call answer b.1 (.endElement name)) else pure b :
        Except BufferFault (Parsing × Bool)) = .ok r) : r.1.NoSlash := by
  have hevent : (Event.beginElement name attrMap).NoSlash := hname
  have hbegun : (Xml.call answer p (.beginElement name attrMap)).1.NoSlash := h.call hevent
  dsimp only at hr
  split at hr
  · exact Except.ok.inj hr ▸ hbegun.call hname
  · exact Except.ok.inj hr ▸ hbegun

theorem Parsing.NoSlash.parseElement (h : p.NoSlash) {element : Text} {r : Parsing × Bool}
    (hr : Xml.parseElement answer element p = .ok r) : r.1.NoSlash := by
  unfold Xml.parseElement at hr
  split at hr
  · rename_i name _ hfields _
    have hname : 47 ∉ name := not_mem_field slash_endFormat (hfields ▸ List.mem_singleton_self name)
    rw [← Except.ok.inj hr]
    exact (h.write hname).call hname
  · dsimp only at hr
    split at hr
    · split at hr
      · cases hr
      · rw [← Except.ok.inj hr]
        exact h
    · cases hfields : (scanf nameFormat element 0).fields with
      | nil =>
        rw [hfields] at hr
        obtain ⟨name, hread, hr⟩ := bind_eq_ok.mp hr
        obtain ⟨rest, -, hr⟩ := bind_eq_ok.mp hr
        split at hr
        · rw [← Except.ok.inj hr]
          exact ⟨h.elementName, h.events⟩
        · exact h.begun (not_mem_read h.elementName hread) hr
      | cons name fields =>
        rw [hfields] at hr
        have hname : 47 ∉ name :=
          not_mem_field slash_nameFormat (hfields ▸ List.mem_cons_self)
        have hwritten := h.write hname
        obtain ⟨name', hread, hr⟩ := bind_eq_ok.mp hr
        obtain ⟨rest, -, hr⟩ := bind_eq_ok.mp hr
        split at hr
        · rw [← Except.ok.inj hr]
          exact ⟨hwritten.elementName, hwritten.events⟩
        · exact hwritten.begun (not_mem_read hwritten.elementName hread) hr

/-- What a round leaves behind, if it leaves anything. -/
def Round.Keeps (P : Parsing → Prop) : Round → Prop
  | .next _ p => P p
  | .returned _ p => P p
  | .fault _ => True

theorem keeps_finish {source : Source} {r : Parsing × Bool} (h : r.1.NoSlash) :
    (finish source r).Keeps Parsing.NoSlash := by
  unfold finish
  split
  · exact h
  · exact ⟨h.elementName, h.events⟩

theorem keeps_dataRound (h : p.NoSlash) (source : Source) :
    (dataRound answer source p).Keeps Parsing.NoSlash := by
  unfold dataRound
  split
  · exact h
  · split
    · exact ⟨h.elementName, h.events⟩
    · refine keeps_finish (Parsing.NoSlash.call ?_ trivial)
      exact ⟨h.elementName, h.events⟩

theorem keeps_elementRound (h : p.NoSlash) (source : Source) (element : Text) :
    (elementRound answer source element p).Keeps Parsing.NoSlash := by
  have hwritten : Parsing.NoSlash { p with element := p.element.write element } :=
    ⟨h.elementName, h.events⟩
  unfold elementRound
  dsimp only
  split
  · exact ⟨h.elementName, h.events⟩
  · split
    · split
      · trivial
      · rename_i source' white whites hscan hroom
        have hwhite : 47 ∉ white := by
          have hfield : white ∈ (source.scan whiteFormat).2 := by
            rw [hscan]
            exact List.mem_cons_self
          exact not_mem_scan slash_whiteFormat hfield
        split
        · trivial
        · rename_i r hr
          refine keeps_finish (Parsing.NoSlash.parseElement ?_ hr)
          exact ⟨(hwritten.write hwhite).elementName, h.events⟩
    · split
      · trivial
      · rename_i r hr
        exact keeps_finish (hwritten.parseElement hr)

theorem keeps_round (h : p.NoSlash) (source : Source) :
    (round answer source p).Keeps Parsing.NoSlash := by
  unfold round
  dsimp only
  split
  · refine keeps_dataRound ?_ _
    exact ⟨h.elementName, h.events⟩
  · refine keeps_elementRound ?_ _ _
    exact ⟨h.elementName, h.events⟩

/-! ## A parse -/

theorem noSlash_doParse : ∀ (fuel : Nat) {source : Source} {p : Parsing}, p.NoSlash →
    ∀ {err : Error} {p' : Parsing}, doParse answer fuel source p = some (.ok (err, p')) →
      p'.NoSlash := by
  intro fuel
  induction fuel with
  | zero =>
    intro source p h err p' hdone
    cases hdone
  | succ fuel ih =>
    intro source p h err p' hdone
    have hkeeps : (round answer source p).Keeps Parsing.NoSlash := keeps_round h source
    rw [doParse] at hdone
    split at hdone
    · rename_i source' q hround
      rw [hround] at hkeeps
      exact ih hkeeps hdone
    · rename_i err' q hround
      rw [hround] at hkeeps
      obtain ⟨-, rfl⟩ := Prod.mk.inj (Except.ok.inj (Option.some.inj hdone))
      exact hkeeps
    · cases Option.some.inj hdone

theorem noSlash_parsing : parsing.NoSlash :=
  ⟨List.not_mem_nil, fun _ he => absurd he List.not_mem_nil⟩

theorem noSlash_parseString {text : Text} {fuel : Nat} {err : Error} {p' : Parsing}
    (h : parseString answer text fuel = some (.ok (err, p'))) : ∀ e ∈ p'.events, e.NoSlash :=
  (noSlash_doParse fuel noSlash_parsing h).events

end FreeAmp.Xml
