/-
  Base/PropertiesImpl.lean --- the properties and their watchers, `base/src/propimpl.cpp`.

      removeFrom_end         `RemovePropertyWatcher` begins behind the last watcher
      properties_right_iff   when every call does what the calls before it make it do

  `SetProperty` takes the value over; a value that is replaced is deleted, and here simply
  gone.  A watcher does not call the object that calls it.
-/
import FreeAmp.Base.Database
import FreeAmp.Base.Errors
import Mathlib.Logic.Function.Basic

namespace FreeAmp.Base

/-! ## The object -/

/-- `class PropElem`, for values `V` and watchers `W`; none is NULL. -/
structure PropElem (V W : Type) where
  val : Option V
  propWatchers : List (Option W)

abbrev PropertiesImpl (V W : Type) := Text → Option (PropElem V W)

/-- A call, with its arguments; `want`: `ppVal` is not NULL. -/
inductive PropertyCall (V W : Type) where
  | getProperty (pProp : Option Text) (want : Bool)
  | setProperty (pProp : Option Text) (pVal : Option V)
  | registerPropertyWatcher (pProp : Option Text) (pw : Option W)
  | removePropertyWatcher (pProp : Option Text) (pw : Option W)

/-- What a call comes to. -/
structure PropertyEntry (V W : Type) where
  call : PropertyCall V W
  result : Error
  /-- `*ppVal` -/
  value : Option V
  /-- the calls of `PropertyChange` -/
  notified : List (W × Text × Option V)

namespace PropertiesImpl

variable {V W : Type} [DecidableEq W]

/-- The loop of `RemovePropertyWatcher`, from the watcher at `j` down to the first; none when
there is nothing at `j`. -/
def removeFrom (pw : Option W) (j : Nat) (propWatchers : List (Option W)) :
    Option (List (Option W)) :=
  match propWatchers[j]? with
  | none => none
  | some w =>
    let propWatchers := if pw = w then propWatchers.eraseIdx j else propWatchers
    match j with
    | 0 => some propWatchers
    | j + 1 => removeFrom pw j propWatchers

/-- A call; none when it reads outside the watchers. -/
def call (s : PropertiesImpl V W) (c : PropertyCall V W) :
    Option (PropertiesImpl V W × PropertyEntry V W) :=
  match c with
  | .getProperty (some pProp) true =>
    match s pProp with
    | some ppe => some (s, ⟨c, .noErr, ppe.val, []⟩)
    | none => some (s, ⟨c, .unknownErr, none, []⟩)
  | .setProperty (some pProp) pVal =>
    let ppe := (s pProp).getD ⟨none, []⟩
    some (Function.update s pProp (some { ppe with val := pVal }),
      ⟨c, .noErr, none, (ppe.propWatchers.filterMap id).map fun pw => (pw, pProp, pVal)⟩)
  | .registerPropertyWatcher (some pProp) pw =>
    match s pProp with
    | some ppe =>
      some (Function.update s pProp
        (some { ppe with propWatchers := ppe.propWatchers ++ [pw] }), ⟨c, .noErr, none, []⟩)
    | none => some (s, ⟨c, .unknownErr, none, []⟩)
  | .removePropertyWatcher (some pProp) pw =>
    match s pProp with
    | some ppe =>
      (removeFrom pw ppe.propWatchers.length ppe.propWatchers).map fun propWatchers =>
        (Function.update s pProp (some { ppe with propWatchers }), ⟨c, .noErr, none, []⟩)
    | none => some (s, ⟨c, .unknownErr, none, []⟩)
  | _ => some (s, ⟨c, .unknownErr, none, []⟩)

/-- Calls one after the other, and what they come to. -/
def calls (s : PropertiesImpl V W) :
    List (PropertyCall V W) → Option (PropertiesImpl V W × List (PropertyEntry V W))
  | [] => some (s, [])
  | c :: cs => do
      let (s, e) ← call s c
      let (s, es) ← calls s cs
      pure (s, e :: es)

end PropertiesImpl

/-! ## What the calls make it do -/

section History

variable {V W : Type} [DecidableEq W]

/-- What a call does to the value of a name. -/
def PropertyEntry.set (name : Text) (value : Option (Option V)) (e : PropertyEntry V W) :
    Option (Option V) :=
  match e.call with
  | .setProperty (some pProp) pVal => if pProp = name then some pVal else value
  | _ => value

/-- The value of the latest `SetProperty` of a name; none when there is none. -/
def latest (name : Text) (before : List (PropertyEntry V W)) : Option (Option V) :=
  before.foldl (PropertyEntry.set name) none

/-- What a call does to the watchers of a name that have been registered. -/
def PropertyEntry.watch (name : Text) (registered : List (Option W)) (e : PropertyEntry V W) :
    List (Option W) :=
  match e.call with
  | .registerPropertyWatcher (some pProp) pw =>
    if pProp = name ∧ e.result = .noErr then registered ++ [pw] else registered
  | .removePropertyWatcher (some pProp) pw =>
    if pProp = name then registered.filter fun w => !decide (w = pw) else registered
  | _ => registered

/-- The watchers of a name that have been registered and not removed since, each as often as it
has been, in that order. -/
def registered (name : Text) (before : List (PropertyEntry V W)) : List (Option W) :=
  before.foldl (PropertyEntry.watch name) []

/-- A call does what the calls before it make it do. -/
def PropertyEntry.Right (before : List (PropertyEntry V W)) (e : PropertyEntry V W) : Prop :=
  match e.call with
  | .getProperty (some pProp) true =>
    (∀ pVal, latest pProp before = some pVal → e.value = pVal) ∧ e.notified = []
  | .setProperty (some pProp) pVal =>
    e.notified = ((registered pProp before).filterMap id).map fun pw => (pw, pProp, pVal)
  | _ => e.notified = []

/-- All of them do. -/
def RightFrom (before : List (PropertyEntry V W)) : List (PropertyEntry V W) → Prop
  | [] => True
  | e :: es => e.Right before ∧ RightFrom (before ++ [e]) es

/-- No watcher is removed from a name that has been set; `known`: those that have been. -/
def NoRemoval (known : List Text) : List (PropertyCall V W) → Prop
  | [] => True
  | .setProperty (some pProp) _ :: cs => NoRemoval (pProp :: known) cs
  | .removePropertyWatcher (some pProp) _ :: cs => pProp ∉ known ∧ NoRemoval known cs
  | _ :: cs => NoRemoval known cs

end History

/-! ## One call -/

section Step

variable {V W : Type} [DecidableEq W]

/-- `RemovePropertyWatcher` begins behind the last watcher. -/
theorem removeFrom_end (pw : Option W) (propWatchers : List (Option W)) :
    PropertiesImpl.removeFrom pw propWatchers.length propWatchers = none := by
  unfold PropertiesImpl.removeFrom
  rw [List.getElem?_eq_none (Nat.le_refl _)]

/-- The object is what the calls have made of it. -/
structure Agrees (s : PropertiesImpl V W) (known : List Text) (before : List (PropertyEntry V W)) :
    Prop where
  known : ∀ name, name ∈ known ↔ s name ≠ none
  unset : ∀ name, s name = none → latest name before = none ∧ registered name before = []
  val : ∀ name ppe, s name = some ppe → latest name before = some ppe.val
  watchers : ∀ name ppe, s name = some ppe → registered name before = ppe.propWatchers

theorem latest_snoc (name : Text) (before : List (PropertyEntry V W)) (e : PropertyEntry V W) :
    latest name (before ++ [e]) = e.set name (latest name before) := by
  unfold latest
  rw [List.foldl_append]
  rfl

theorem registered_snoc (name : Text) (before : List (PropertyEntry V W)) (e : PropertyEntry V W) :
    registered name (before ++ [e]) = e.watch name (registered name before) := by
  unfold registered
  rw [List.foldl_append]
  rfl

variable {s : PropertiesImpl V W} {known : List Text} {before : List (PropertyEntry V W)}

theorem Agrees.same (h : Agrees s known before) {e : PropertyEntry V W}
    (hset : ∀ name, e.set name (latest name before) = latest name before)
    (hwatch : ∀ name, e.watch name (registered name before) = registered name before) :
    Agrees s known (before ++ [e]) where
  known := h.known
  unset name hname := by
    rw [latest_snoc, registered_snoc, hset, hwatch]
    exact h.unset name hname
  val name ppe hppe := by rw [latest_snoc, hset, h.val name ppe hppe]
  watchers name ppe hppe := by rw [registered_snoc, hwatch, h.watchers name ppe hppe]

theorem Agrees.setProperty (h : Agrees s known before) (pProp : Text) (pVal : Option V) :
    ∃ s' e, s.call (.setProperty (some pProp) pVal) = some (s', e) ∧ e.Right before ∧
      Agrees s' (pProp :: known) (before ++ [e]) := by
  have hwatchers : ((s pProp).getD ⟨none, []⟩).propWatchers = registered pProp before := by
    cases hs : s pProp with
    | none => exact (h.unset pProp hs).2.symm
    | some ppe => exact (h.watchers pProp ppe hs).symm
  refine ⟨_, _, rfl, ?_, ?_⟩
  · show List.map _ (List.filterMap id _) = List.map _ (List.filterMap id _)
    rw [hwatchers]
  constructor
  · intro name
    by_cases hname : name = pProp
    · rw [hname, Function.update_self]
      exact iff_of_true List.mem_cons_self nofun
    · rw [Function.update_of_ne hname, List.mem_cons, or_iff_right hname]
      exact h.known name
  · intro name hnone
    by_cases hname : name = pProp
    · rw [hname, Function.update_self] at hnone
      cases hnone
    · rw [Function.update_of_ne hname] at hnone
      rw [latest_snoc, registered_snoc]
      exact ⟨(if_neg (Ne.symm hname)).trans (h.unset name hnone).1, (h.unset name hnone).2⟩
  · intro name ppe hppe
    rw [latest_snoc]
    by_cases hname : name = pProp
    · subst hname
      rw [Function.update_self] at hppe
      cases hppe
      exact if_pos rfl
    · rw [Function.update_of_ne hname] at hppe
      exact (if_neg (Ne.symm hname)).trans (h.val name ppe hppe)
  · intro name ppe hppe
    rw [registered_snoc]
    by_cases hname : name = pProp
    · subst hname
      rw [Function.update_self] at hppe
      cases hppe
      exact hwatchers.symm
    · rw [Function.update_of_ne hname] at hppe
      exact h.watchers name ppe hppe

theorem Agrees.register (h : Agrees s known before) (pProp : Text) (pw : Option W) :
    ∃ s' e, s.call (.registerPropertyWatcher (some pProp) pw) = some (s', e) ∧ e.Right before ∧
      Agrees s' known (before ++ [e]) := by
  cases hs : s pProp with
  | none =>
    refine ⟨s, ⟨.registerPropertyWatcher (some pProp) pw, .unknownErr, none, []⟩, ?_, rfl,
      h.same (fun _ => rfl) fun name => ?_⟩
    · rw [PropertiesImpl.call, hs]
    · exact if_neg fun hand => nomatch hand.2
  | some ppe =>
    refine ⟨_, ⟨.registerPropertyWatcher (some pProp) pw, .noErr, none, []⟩,
      by rw [PropertiesImpl.call, hs], rfl, ?_⟩
    have hwatch : ∀ name, (⟨.registerPropertyWatcher (some pProp) pw, .noErr, none, []⟩ :
        PropertyEntry V W).watch name (registered name before) =
          if pProp = name then registered name before ++ [pw] else registered name before := by
      intro name
      show (if _ ∧ _ then _ else _) = _
      simp only [and_true]
    constructor
    · intro name
      by_cases hname : name = pProp
      · rw [hname, Function.update_self]
        exact iff_of_true ((h.known pProp).mpr (by rw [hs]; nofun)) nofun
      · rw [Function.update_of_ne hname]
        exact h.known name
    · intro name hnone
      by_cases hname : name = pProp
      · rw [hname, Function.update_self] at hnone
        cases hnone
      · rw [Function.update_of_ne hname] at hnone
        rw [latest_snoc, registered_snoc, hwatch, if_neg (Ne.symm hname)]
        exact h.unset name hnone
    · intro name ppe' hppe
      rw [latest_snoc]
      by_cases hname : name = pProp
      · subst hname
        rw [Function.update_self] at hppe
        cases hppe
        exact h.val name ppe hs
      · rw [Function.update_of_ne hname] at hppe
        exact h.val name ppe' hppe
    · intro name ppe' hppe
      rw [registered_snoc, hwatch]
      by_cases hname : name = pProp
      · subst hname
        rw [Function.update_self] at hppe
        cases hppe
        rw [if_pos rfl, h.watchers name ppe hs]
      · rw [Function.update_of_ne hname] at hppe
        rw [if_neg (Ne.symm hname), h.watchers name ppe' hppe]

theorem Agrees.getProperty (h : Agrees s known before) (pProp : Text) :
    ∃ e, s.call (.getProperty (some pProp) true) = some (s, e) ∧ e.Right before ∧
      Agrees s known (before ++ [e]) := by
  cases hs : s pProp with
  | none =>
    refine ⟨⟨.getProperty (some pProp) true, .unknownErr, none, []⟩,
      by rw [PropertiesImpl.call, hs], ⟨fun pVal hlatest => ?_, rfl⟩,
      h.same (fun _ => rfl) fun _ => rfl⟩
    rw [(h.unset pProp hs).1] at hlatest
    cases hlatest
  | some ppe =>
    refine ⟨⟨.getProperty (some pProp) true, .noErr, ppe.val, []⟩,
      by rw [PropertiesImpl.call, hs], ⟨fun pVal hlatest => ?_, rfl⟩,
      h.same (fun _ => rfl) fun _ => rfl⟩
    rw [h.val pProp ppe hs] at hlatest
    exact Option.some.inj hlatest

/-- `RemovePropertyWatcher`, of a name that has not been set. -/
theorem Agrees.remove (h : Agrees s known before) {pProp : Text} (hnot : pProp ∉ known)
    (pw : Option W) :
    ∃ e, s.call (.removePropertyWatcher (some pProp) pw) = some (s, e) ∧ e.Right before ∧
      Agrees s known (before ++ [e]) := by
  have hs : s pProp = none := not_not.mp fun hne => hnot ((h.known pProp).mpr hne)
  refine ⟨⟨.removePropertyWatcher (some pProp) pw, .unknownErr, none, []⟩,
    by rw [PropertiesImpl.call, hs], rfl, h.same (fun _ => rfl) fun name => ?_⟩
  show (if pProp = name then _ else _) = _
  split
  · rename_i hname
    rw [← hname, (h.unset pProp hs).2]
    rfl
  · rfl

/-- `RemovePropertyWatcher`, of a name that has been set. -/
theorem Agrees.remove_known (h : Agrees s known before) {pProp : Text} (hmem : pProp ∈ known)
    (pw : Option W) : s.call (.removePropertyWatcher (some pProp) pw) = none := by
  obtain ⟨ppe, hppe⟩ := Option.ne_none_iff_exists'.mp ((h.known pProp).mp hmem)
  rw [PropertiesImpl.call, hppe]
  show (PropertiesImpl.removeFrom pw _ _).map _ = none
  rw [removeFrom_end]
  rfl

/-- A call without a name, or without a place for the value. -/
theorem Agrees.nothing (h : Agrees s known before) {c : PropertyCall V W}
    (hcall : s.call c = some (s, ⟨c, .unknownErr, none, []⟩))
    (hset : ∀ name v, (⟨c, .unknownErr, none, []⟩ : PropertyEntry V W).set name v = v)
    (hwatch : ∀ name ws, (⟨c, .unknownErr, none, []⟩ : PropertyEntry V W).watch name ws = ws)
    (hright : (⟨c, .unknownErr, none, []⟩ : PropertyEntry V W).Right before) :
    ∃ e, s.call c = some (s, e) ∧ e.Right before ∧ Agrees s known (before ++ [e]) :=
  ⟨_, hcall, hright, h.same (fun name => hset name _) fun name => hwatch name _⟩

end Step

/-! ## Any number of calls -/

section Calls

variable {V W : Type} [DecidableEq W]

theorem calls_cons_iff {s s' : PropertiesImpl V W} {c : PropertyCall V W} {e : PropertyEntry V W}
    {before : List (PropertyEntry V W)} (hcall : s.call c = some (s', e)) (hright : e.Right before)
    (cs : List (PropertyCall V W)) :
    (∃ r, s.calls (c :: cs) = some r ∧ RightFrom before r.2) ↔
      ∃ r, s'.calls cs = some r ∧ RightFrom (before ++ [e]) r.2 := by
  rw [PropertiesImpl.calls, hcall]
  simp only [Option.bind_eq_bind, Option.bind_some]
  constructor
  · rintro ⟨r, hr, hall⟩
    obtain ⟨r', hr', heq⟩ := Option.bind_eq_some_iff.mp hr
    cases heq
    exact ⟨r', hr', hall.2⟩
  · rintro ⟨r, hr, hall⟩
    rw [hr]
    exact ⟨_, rfl, hright, hall⟩

theorem calls_right_iff {cs : List (PropertyCall V W)} : ∀ {s : PropertiesImpl V W}
    {known : List Text} {before : List (PropertyEntry V W)}, Agrees s known before →
    ((∃ r, s.calls cs = some r ∧ RightFrom before r.2) ↔ NoRemoval known cs) := by
  induction cs with
  | nil => exact fun _ => iff_of_true ⟨_, rfl, trivial⟩ trivial
  | cons c cs ih =>
    intro s known before h
    cases c with
    | getProperty pProp want =>
      obtain ⟨e, hcall, hright, hagrees⟩ : ∃ e,
          s.call (.getProperty pProp want) = some (s, e) ∧ e.Right before ∧
            Agrees s known (before ++ [e]) := by
        match pProp, want with
        | some pProp, true => exact h.getProperty pProp
        | some _, false => exact h.nothing rfl (fun _ _ => rfl) (fun _ _ => rfl) rfl
        | none, _ => exact h.nothing rfl (fun _ _ => rfl) (fun _ _ => rfl) rfl
      exact (calls_cons_iff hcall hright cs).trans (ih hagrees)
    | setProperty pProp pVal =>
      cases pProp with
      | none =>
        obtain ⟨e, hcall, hright, hagrees⟩ := h.nothing (c := .setProperty none pVal) rfl
          (fun _ _ => rfl) (fun _ _ => rfl) rfl
        exact (calls_cons_iff hcall hright cs).trans (ih hagrees)
      | some pProp =>
        obtain ⟨s', e, hcall, hright, hagrees⟩ := h.setProperty pProp pVal
        exact (calls_cons_iff hcall hright cs).trans (ih hagrees)
    | registerPropertyWatcher pProp pw =>
      cases pProp with
      | none =>
        obtain ⟨e, hcall, hright, hagrees⟩ := h.nothing
          (c := .registerPropertyWatcher none pw) rfl (fun _ _ => rfl) (fun _ _ => rfl) rfl
        exact (calls_cons_iff hcall hright cs).trans (ih hagrees)
      | some pProp =>
        obtain ⟨s', e, hcall, hright, hagrees⟩ := h.register pProp pw
        exact (calls_cons_iff hcall hright cs).trans (ih hagrees)
    | removePropertyWatcher pProp pw =>
      cases pProp with
      | none =>
        obtain ⟨e, hcall, hright, hagrees⟩ := h.nothing
          (c := .removePropertyWatcher none pw) rfl (fun _ _ => rfl) (fun _ _ => rfl) rfl
        exact (calls_cons_iff hcall hright cs).trans (ih hagrees)
      | some pProp =>
        by_cases hmem : pProp ∈ known
        · refine iff_of_false ?_ fun hall => hall.1 hmem
          rintro ⟨r, hr, -⟩
          rw [PropertiesImpl.calls, h.remove_known hmem] at hr
          cases hr
        · obtain ⟨e, hcall, hright, hagrees⟩ := h.remove hmem pw
          refine (calls_cons_iff hcall hright cs).trans ((ih hagrees).trans ?_)
          exact (and_iff_right hmem).symm

end Calls

end FreeAmp.Base
