/-
  Base/ResolvePath.lean --- `ResolvePath` of `base/src/utility.cpp`.

  The path is rewritten in place: one loop takes out repeated separators and the `.` and
  `..` that are followed by a separator, and what is left of them at the end is cut off
  afterwards.  The dots are looked for at every place, also at the end of a name; the
  `..` after the first name takes the leading separator with it, and at the root it is
  never passed; and one at the end takes nothing with it.
-/
import FreeAmp.Base.FileUrl
import Mathlib.Logic.Relation

namespace FreeAmp.Base

open FreeAmp.Lib

/-- `'.'` -/
def dot : UInt8 := 46

def isRelative (path : Text) : Bool := path.head? != some dirMarker

/-- The path itself, or in relation to the working directory. -/
def fullPath (cwd path : Text) : Text :=
  if isRelative path then cwd ++ [dirMarker] ++ path else path

/-! ## The loop -/

/-- The string, the pointer into it and the flag.  The string ends where its NUL is. -/
structure Resolving where
  path : Text
  cp : Nat
  separator : Bool
  deriving DecidableEq, Repr

/-- The loop that moves `lastDir` back: behind the next separator, or to the front of the
string. -/
def lastDirFrom (path : Text) : Nat → Nat
  | 0 => 0
  | i + 1 => if path[i + 1]? = some dirMarker then i + 2 else lastDirFrom path i

/-- `strcpy(dest, src)` inside the string. -/
def cutOut (path : Text) (dest src : Nat) : Text := path.take dest ++ path.drop src

/-- One round of the loop; `none` at the end of the string. -/
def resolveStep (s : Resolving) : Option Resolving :=
  match s.path[s.cp]? with
  | none => none
  | some c =>
    if c = dirMarker then
      if s.separator then some { s with path := cutOut s.path (s.cp - 1) s.cp }
      else some { s with separator := true, cp := s.cp + 1 }
    else if c = dot ∧ [dot, dirMarker] <+: s.path.drop s.cp then
      some ⟨cutOut s.path s.cp (s.cp + 2), s.cp, false⟩
    else if c = dot ∧ [dot, dot, dirMarker] <+: s.path.drop s.cp ∧ s.cp ≠ 0 then
      -- `lastDir` starts in front of the string when `cp` is its second character
      if 2 ≤ s.cp then
        let lastDir := lastDirFrom s.path (s.cp - 2)
        some ⟨cutOut s.path lastDir (s.cp + 3), lastDir, false⟩
      else some { s with separator := false }
    else some { s with separator := false, cp := s.cp + 1 }

/-- The loop, for as long as the fuel lasts. -/
def resolveLoop : Nat → Resolving → Option Resolving
  | 0, _ => none
  | fuel + 1, s =>
    match resolveStep s with
    | none => some s
    | some s' => resolveLoop fuel s'

/-! ## The end of the string -/

/-- The check for stragglers. -/
def stragglers (path : Text) (cp : Nat) : Text × Nat :=
  if path[cp - 1]? = some dot then
    if cp - 1 ≠ 0 ∧ path[cp - 2]? = some dot ∧ cp - 2 ≠ 0 then (path.take (cp - 2), cp - 2)
    else if cp - 1 ≠ 0 ∧ path[cp - 2]? ≠ some dot then (path.take (cp - 1), cp - 1)
    else (path, cp)
  else (path, cp)

/-- A separator at the end goes unless it is the root directory. -/
def dropSeparator (path : Text) (cp : Nat) : Text :=
  if path[cp - 1]? = some dirMarker ∧ cp - 1 ≠ 0 then path.take (cp - 1) else path

/-- What follows the loop.  Of an empty string it reads the character in front. -/
def resolveEnd (s : Resolving) : Option Text :=
  if s.cp = 0 then none
  else some (dropSeparator (stragglers s.path s.cp).1 (stragglers s.path s.cp).2)

def resolvePath (cwd path : Text) (fuel : Nat) : Option Text := do
  let s ← resolveLoop fuel ⟨fullPath cwd path, 0, false⟩
  resolveEnd s

/-- `ResolvePath` terminates, and leaves the string. -/
def ResolvesTo (cwd path result : Text) : Prop := ∃ fuel, resolvePath cwd path fuel = some result

theorem resolveLoop_add {fuel : Nat} : ∀ {s s' : Resolving}, resolveLoop fuel s = some s' →
    ∀ more, resolveLoop (fuel + more) s = some s' := by
  induction fuel with
  | zero => exact fun h => absurd h nofun
  | succ fuel ih =>
    intro s s' h more
    rw [Nat.succ_add, resolveLoop]
    rw [resolveLoop] at h
    split
    · rename_i hend
      rw [hend] at h
      exact h
    · rename_i t hstep
      rw [hstep] at h
      exact ih h more

theorem ResolvesTo.unique {cwd path r₁ r₂ : Text} (h₁ : ResolvesTo cwd path r₁)
    (h₂ : ResolvesTo cwd path r₂) : r₁ = r₂ := by
  obtain ⟨fuel₁, h₁⟩ := h₁
  obtain ⟨fuel₂, h₂⟩ := h₂
  unfold resolvePath at h₁ h₂
  obtain ⟨s₁, hs₁, h₁⟩ := Option.bind_eq_some_iff.mp h₁
  obtain ⟨s₂, hs₂, h₂⟩ := Option.bind_eq_some_iff.mp h₂
  have hsame := resolveLoop_add hs₁ fuel₂
  rw [Nat.add_comm, resolveLoop_add hs₂ fuel₁] at hsame
  obtain rfl := Option.some.inj hsame
  exact Option.some.inj (h₁.symm.trans h₂)

/-- Rounds of the loop. -/
def Leads : Resolving → Resolving → Prop :=
  Relation.ReflTransGen fun s t => resolveStep s = some t

theorem Leads.resolveLoop {s t : Resolving} (h : Leads s t) (hend : resolveStep t = none) :
    ∃ fuel, resolveLoop fuel s = some t := by
  induction h using Relation.ReflTransGen.head_induction_on with
  | refl =>
    refine ⟨1, ?_⟩
    rw [FreeAmp.Base.resolveLoop, hend]
  | head hstep _ ih =>
    obtain ⟨fuel, hfuel⟩ := ih
    refine ⟨fuel + 1, ?_⟩
    rw [FreeAmp.Base.resolveLoop, hstep]
    exact hfuel

/-! ## One round between two parts of the string -/

/-- The pointer stands between what has been resolved and what has not. -/
def standing (front rest : Text) (separator : Bool) : Resolving :=
  ⟨front ++ rest, front.length, separator⟩

section Rounds

variable {front rest name : Text} {separator : Bool}

theorem resolveStep_end : resolveStep (standing front [] separator) = none := by
  unfold resolveStep standing
  rw [List.append_nil, List.getElem?_eq_none (Nat.le_refl _)]

theorem getElem?_standing (c : UInt8) : (front ++ c :: rest)[front.length]? = some c := by
  rw [List.getElem?_append_right (Nat.le_refl _), Nat.sub_self]
  rfl

theorem cutOut_standing (gone : Text) :
    cutOut (front ++ (gone ++ rest)) front.length (front.length + gone.length) = front ++ rest := by
  unfold cutOut
  rw [List.take_left, ← List.drop_drop, List.drop_left, List.drop_left]

theorem resolveStep_separator :
    resolveStep (standing front (dirMarker :: rest) false) =
      some (standing (front ++ [dirMarker]) rest true) := by
  unfold resolveStep standing
  simp only [getElem?_standing, if_true, Bool.false_eq_true, if_false, List.append_assoc,
    List.length_append, List.length_singleton, List.singleton_append]

theorem resolveStep_repeated :
    resolveStep (standing (front ++ [dirMarker]) (dirMarker :: rest) true) =
      some (standing (front ++ [dirMarker]) rest true) := by
  unfold resolveStep standing
  simp only [getElem?_standing, if_true, Option.some.injEq, Resolving.mk.injEq, and_true]
  have hcut := @cutOut_standing front (dirMarker :: rest) [dirMarker]
  rw [List.length_append, List.length_singleton, Nat.add_sub_cancel, List.append_assoc]
  rw [List.length_singleton] at hcut
  rw [List.append_assoc]
  exact hcut

theorem resolveStep_dotslash :
    resolveStep (standing front ([dot, dirMarker] ++ rest) separator) =
      some (standing front rest false) := by
  have hcut := @cutOut_standing front rest [dot, dirMarker]
  have hdot : dot ≠ dirMarker := by decide
  have hmatch : [dot, dirMarker] <+: (front ++ (dot :: dirMarker :: rest)).drop front.length := by
    rw [List.drop_left]
    exact List.prefix_append [dot, dirMarker] rest
  unfold resolveStep standing
  simp only [List.cons_append, List.nil_append, getElem?_standing, if_neg hdot]
  rw [if_pos ⟨trivial, hmatch⟩]
  exact congrArg (fun path => some (Resolving.mk path front.length false)) hcut

theorem lastDirFrom_name (hname : dirMarker ∉ name) (hfront : 1 ≤ front.length) :
    lastDirFrom (front ++ [dirMarker] ++ name ++ rest) (front.length + name.length) =
      front.length + 1 := by
  induction name using List.reverseRecOn generalizing rest with
  | nil =>
    obtain ⟨n, hn⟩ := Nat.exists_eq_add_of_le' hfront
    have hat : (front ++ [dirMarker] ++ [] ++ rest)[front.length]? = some dirMarker := by
      rw [List.append_nil, List.append_assoc]
      exact getElem?_standing dirMarker
    rw [List.length_nil, Nat.add_zero, hn, lastDirFrom, ← hn, if_pos hat, hn]
  | append_singleton name c ih =>
    have hc : c ≠ dirMarker := fun h => hname (by simp [h])
    have hrest : front ++ [dirMarker] ++ (name ++ [c]) ++ rest =
        front ++ [dirMarker] ++ name ++ (c :: rest) := by simp
    have hat : (front ++ [dirMarker] ++ name ++ (c :: rest))[front.length + name.length + 1]? =
        some c := by
      have hlen : front.length + name.length + 1 = (front ++ [dirMarker] ++ name).length := by
        simp only [List.length_append, List.length_singleton]
        omega
      rw [hlen]
      exact getElem?_standing c
    rw [hrest, List.length_append, List.length_singleton, ← Nat.add_assoc, lastDirFrom, hat,
      if_neg fun h => hc (Option.some.inj h)]
    exact ih fun h => hname (List.mem_append_left _ h)

/-- `../` goes with the name in front of it, which is not the first one. -/
theorem resolveStep_dotdotslash (hname : dirMarker ∉ name) (hnonempty : name ≠ [])
    (hfront : 1 ≤ front.length) :
    resolveStep (standing (front ++ [dirMarker] ++ name ++ [dirMarker])
        ([dot, dot, dirMarker] ++ rest) separator) =
      some (standing (front ++ [dirMarker]) rest false) := by
  have hdot : dot ≠ dirMarker := by decide
  have hlen : (front ++ [dirMarker] ++ name ++ [dirMarker]).length =
      front.length + name.length + 2 := by
    simp only [List.length_append, List.length_singleton]
    omega
  have hone : ¬ [dot, dirMarker] <+: (front ++ [dirMarker] ++ name ++ [dirMarker] ++
      (dot :: dot :: dirMarker :: rest)).drop
        (front ++ [dirMarker] ++ name ++ [dirMarker]).length := by
    rw [List.drop_left]
    intro h
    have hsecond := (List.cons_prefix_cons.mp (List.cons_prefix_cons.mp h).2).1
    exact hdot hsecond.symm
  have htwo : [dot, dot, dirMarker] <+: (front ++ [dirMarker] ++ name ++ [dirMarker] ++
      (dot :: dot :: dirMarker :: rest)).drop
        (front ++ [dirMarker] ++ name ++ [dirMarker]).length := by
    rw [List.drop_left]
    exact List.prefix_append [dot, dot, dirMarker] rest
  have hdir : lastDirFrom (front ++ [dirMarker] ++ name ++ [dirMarker] ++
      (dot :: dot :: dirMarker :: rest)) (front.length + name.length) =
        (front ++ [dirMarker]).length := by
    rw [List.append_assoc _ [dirMarker], lastDirFrom_name hname hfront, List.length_append,
      List.length_singleton]
  unfold resolveStep standing
  simp only [List.cons_append, List.nil_append, getElem?_standing, if_neg hdot]
  rw [if_neg (fun h => hone h.2), if_pos ⟨trivial, htwo, by omega⟩, if_pos (by omega)]
  have hback : (front ++ [dirMarker] ++ name ++ [dirMarker]).length - 2 =
      front.length + name.length := by omega
  rw [hback, hdir]
  have hcut := @cutOut_standing (front ++ [dirMarker]) rest
    (name ++ [dirMarker] ++ [dot, dot, dirMarker])
  have hpath : front ++ [dirMarker] ++ (name ++ [dirMarker] ++ [dot, dot, dirMarker] ++ rest) =
      front ++ [dirMarker] ++ name ++ [dirMarker] ++ (dot :: dot :: dirMarker :: rest) := by simp
  have hsrc : (front ++ [dirMarker]).length + (name ++ [dirMarker] ++ [dot, dot, dirMarker]).length =
      (front ++ [dirMarker] ++ name ++ [dirMarker]).length + 3 := by
    simp only [List.length_append, List.length_cons, List.length_nil]
    omega
  rw [hpath, hsrc] at hcut
  exact congrArg (fun path => some (Resolving.mk path (front ++ [dirMarker]).length false)) hcut

theorem resolveStep_other {c : UInt8} (hc : c ≠ dirMarker)
    (hone : ¬ [dot, dirMarker] <+: c :: rest) (htwo : ¬ [dot, dot, dirMarker] <+: c :: rest) :
    resolveStep (standing front (c :: rest) separator) =
      some (standing (front ++ [c]) rest false) := by
  unfold resolveStep standing
  simp only [getElem?_standing, if_neg hc, List.drop_left]
  rw [if_neg fun h => hone h.2, if_neg fun h => htwo h.2.1]
  simp only [List.length_append, List.length_singleton, List.append_assoc, List.singleton_append]

/-- A name is passed, when it does not end in a dot or nothing follows it. -/
theorem leads_name (hname : dirMarker ∉ name) (hrest : rest = [] ∨ name.getLast? ≠ some dot)
    (hnonempty : name ≠ []) :
    Leads (standing front (name ++ rest) separator) (standing (front ++ name) rest false) := by
  induction name generalizing front separator with
  | nil => exact absurd rfl hnonempty
  | cons c name ih =>
    have hc : c ≠ dirMarker := fun h => hname (by simp [h])
    have hname' : dirMarker ∉ name := fun h => hname (List.mem_cons_of_mem _ h)
    have hone : ¬ [dot, dirMarker] <+: c :: (name ++ rest) := by
      intro h
      obtain ⟨hdot, h⟩ := List.cons_prefix_cons.mp h
      cases name with
      | nil =>
        rcases hrest with hnil | hlast
        · rw [hnil] at h
          exact absurd (List.prefix_nil.mp h) nofun
        · exact hlast (congrArg some hdot.symm)
      | cons d name =>
        exact hname' (by simp [(List.cons_prefix_cons.mp h).1])
    have htwo : ¬ [dot, dot, dirMarker] <+: c :: (name ++ rest) := by
      intro h
      obtain ⟨hfirst, h⟩ := List.cons_prefix_cons.mp h
      cases name with
      | nil =>
        rcases hrest with hnil | hlast
        · rw [hnil] at h
          exact absurd (List.prefix_nil.mp h) nofun
        · exact hlast (congrArg some hfirst.symm)
      | cons d name =>
        obtain ⟨hdot, h⟩ := List.cons_prefix_cons.mp h
        cases name with
        | nil =>
          rcases hrest with hnil | hlast
          · rw [hnil] at h
            exact absurd (List.prefix_nil.mp h) nofun
          · exact hlast (congrArg some hdot.symm)
        | cons e name => exact hname' (by simp [(List.cons_prefix_cons.mp h).1])
    have hstep := @resolveStep_other front (name ++ rest) separator c hc hone htwo
    refine .head hstep ?_
    cases name with
    | nil => exact .refl
    | cons d name =>
      have hlast : rest = [] ∨ (d :: name).getLast? ≠ some dot := by
        rwa [List.getLast?_cons_cons] at hrest
      have hmore := @ih (front ++ [c]) false hname' hlast nofun
      rwa [List.append_assoc, List.singleton_append] at hmore

end Rounds

/-! ## The normal form -/

/-- One component of a path, after those that have been kept. -/
def keepComponent (kept : List Text) (component : Text) : List Text :=
  if component = [] ∨ component = [dot] then kept
  else if component = [dot, dot] then kept.dropLast
  else kept ++ [component]

/-- The components that have been kept, each behind a separator, or the root. -/
def joinComponents (kept : List Text) : Text :=
  if kept = [] then [dirMarker] else kept.flatMap fun component => dirMarker :: component

/-- What is meant by a path: its components, without the empty ones and the dots. -/
def normalForm (path : Text) : Text :=
  joinComponents ((path.splitOn dirMarker).foldl keepComponent [])

/-- No dot stands where the loop takes it for something else.  `depth` is the number of
components that have been kept, and `separator` says that the last round has passed one. -/
def DotsApart : Bool → Nat → List Text → Prop
  | _, _, [] => True
  | _, depth, [component] =>
    if component = [] ∨ component = [dot] then True
    else if component = [dot, dot] then depth = 0
    else component.getLast? ≠ some dot
  | separator, depth, component :: next :: components =>
    if component = [] then separator = true ∧ DotsApart true depth (next :: components)
    else if component = [dot] then DotsApart false depth (next :: components)
    else if component = [dot, dot] then
      2 ≤ depth ∧ DotsApart false (depth - 1) (next :: components)
    else component.getLast? ≠ some dot ∧ DotsApart true (depth + 1) (next :: components)

instance decidableDotsApart : ∀ (separator : Bool) (depth : Nat) (components : List Text),
    Decidable (DotsApart separator depth components)
  | _, _, [] => isTrue trivial
  | _, depth, [component] =>
    inferInstanceAs (Decidable (if component = [] ∨ component = [dot] then True
      else if component = [dot, dot] then depth = 0 else component.getLast? ≠ some dot))
  | separator, depth, component :: next :: components =>
    have : Decidable (DotsApart true depth (next :: components)) :=
      decidableDotsApart true depth (next :: components)
    have : Decidable (DotsApart false depth (next :: components)) :=
      decidableDotsApart false depth (next :: components)
    have : Decidable (DotsApart false (depth - 1) (next :: components)) :=
      decidableDotsApart false (depth - 1) (next :: components)
    have : Decidable (DotsApart true (depth + 1) (next :: components)) :=
      decidableDotsApart true (depth + 1) (next :: components)
    inferInstanceAs (Decidable
      (if component = [] then separator = true ∧ DotsApart true depth (next :: components)
      else if component = [dot] then DotsApart false depth (next :: components)
      else if component = [dot, dot] then
        2 ≤ depth ∧ DotsApart false (depth - 1) (next :: components)
      else component.getLast? ≠ some dot ∧ DotsApart true (depth + 1) (next :: components)))

/-- The condition on a path: no name ends in a dot, no separators are repeated behind a `.`
or `..`, each `..` that is followed by a separator has two names left in front of it, and the
path does not end in a `..` unless nothing is left in front of it. -/
def Regular (path : Text) : Prop := DotsApart true 0 ((path.drop 1).splitOn dirMarker)

instance (path : Text) : Decidable (Regular path) :=
  decidableDotsApart true 0 ((path.drop 1).splitOn dirMarker)

/-- A component that is neither empty nor ends in a dot. -/
structure IsName (component : Text) : Prop where
  whole : dirMarker ∉ component
  nonempty : component ≠ []
  undotted : component.getLast? ≠ some dot

theorem IsName.keep {component : Text} (h : IsName component) (kept : List Text) :
    keepComponent kept component = kept ++ [component] := by
  have hdot : component ≠ [dot] := by
    rintro rfl
    exact h.undotted rfl
  have hdots : component ≠ [dot, dot] := by
    rintro rfl
    exact h.undotted rfl
  unfold keepComponent
  rw [if_neg (by simp [h.nonempty, hdot]), if_neg hdots]

/-- The kept components, each in front of a separator. -/
def opened (kept : List Text) : Text :=
  dirMarker :: kept.flatMap fun component => component ++ [dirMarker]

theorem opened_append (kept : List Text) (component : Text) :
    opened (kept ++ [component]) = opened kept ++ component ++ [dirMarker] := by
  unfold opened
  simp

theorem opened_eq (kept : List Text) :
    opened kept = (kept.flatMap fun component => dirMarker :: component) ++ [dirMarker] := by
  induction kept using List.reverseRecOn with
  | nil => rfl
  | append_singleton kept component ih =>
    rw [opened_append, ih]
    simp

theorem joinComponents_append (kept : List Text) (component : Text) :
    joinComponents (kept ++ [component]) = opened kept ++ component := by
  unfold joinComponents
  rw [if_neg (by simp), opened_eq]
  simp

/-! ## The end of the string -/

/-- What the loop has left of the kept components alone. -/
theorem dropSeparator_opened (kept : List Text) :
    dropSeparator (opened kept) (opened kept).length = joinComponents kept := by
  have hlen : (opened kept).length =
      (kept.flatMap fun component => dirMarker :: component).length + 1 := by
    rw [opened_eq, List.length_append, List.length_singleton]
  have hat : (opened kept)[(opened kept).length - 1]? = some dirMarker := by
    rw [hlen, Nat.add_sub_cancel, opened_eq]
    exact getElem?_standing dirMarker
  unfold dropSeparator joinComponents
  rcases eq_or_ne kept [] with rfl | hne
  · rfl
  · have hpos : (kept.flatMap fun component => dirMarker :: component).length ≠ 0 := by
      obtain ⟨component, kept', rfl⟩ := List.exists_cons_of_ne_nil hne
      simp
    rw [if_pos ⟨hat, by omega⟩, if_neg hne, hlen, Nat.add_sub_cancel, opened_eq, List.take_left]

theorem getElem?_opened (kept : List Text) (rest : Text) :
    (opened kept ++ rest)[(opened kept).length - 1]? = some dirMarker := by
  rw [opened_eq, List.length_append, List.length_singleton, Nat.add_sub_cancel, List.append_assoc]
  exact getElem?_standing dirMarker

theorem length_opened_pos (kept : List Text) : 0 < (opened kept).length := Nat.succ_pos _

theorem resolveEnd_opened (kept : List Text) (separator : Bool) :
    resolveEnd (standing (opened kept) [] separator) = some (joinComponents kept) := by
  have hpos := length_opened_pos kept
  have hat : (opened kept ++ [])[(opened kept).length - 1]? = some dirMarker :=
    getElem?_opened kept []
  have hstragglers : stragglers (opened kept ++ []) (opened kept).length =
      (opened kept, (opened kept).length) := by
    unfold stragglers
    rw [hat, if_neg (by decide), List.append_nil]
  unfold resolveEnd standing
  simp only
  rw [if_neg (by omega), hstragglers, dropSeparator_opened]

theorem resolveEnd_dot (kept : List Text) :
    resolveEnd (standing (opened kept ++ [dot]) [] false) = some (joinComponents kept) := by
  have hpos := length_opened_pos kept
  have hat : (opened kept ++ [dot])[(opened kept).length - 1]? = some dirMarker :=
    getElem?_opened kept [dot]
  have hdot : (opened kept ++ [dot])[(opened kept).length]? = some dot := getElem?_standing dot
  have hne : ¬ some dirMarker = some dot := by decide
  have hstragglers : stragglers (opened kept ++ [dot] ++ []) (opened kept ++ [dot]).length =
      (opened kept, (opened kept).length) := by
    unfold stragglers
    rw [List.append_nil, List.length_append, List.length_singleton, Nat.add_sub_cancel, hdot,
      if_pos rfl, Nat.add_sub_add_right, hat, if_neg (fun h => hne h.2.1),
      if_pos ⟨by omega, hne⟩, List.take_left]
  unfold resolveEnd standing
  simp only
  rw [if_neg (by simp), hstragglers, dropSeparator_opened]

/-- And so are two, which leaves what was in front of them. -/
theorem resolveEnd_dots (kept : List Text) :
    resolveEnd (standing (opened kept ++ [dot, dot]) [] false) = some (joinComponents kept) := by
  have hpos := length_opened_pos kept
  have hfirst : (opened kept ++ [dot, dot])[(opened kept).length]? = some dot :=
    getElem?_standing dot
  have hsecond : (opened kept ++ [dot, dot])[(opened kept).length + 1]? = some dot := by
    have hat := @getElem?_standing (opened kept ++ [dot]) [] dot
    rwa [List.length_append, List.append_assoc] at hat
  have hlen : (opened kept ++ [dot, dot]).length = (opened kept).length + 2 := List.length_append
  have hstragglers : stragglers (opened kept ++ [dot, dot] ++ []) (opened kept ++ [dot, dot]).length =
      (opened kept, (opened kept).length) := by
    have hback : (opened kept).length + 2 - 1 = (opened kept).length + 1 := rfl
    unfold stragglers
    rw [List.append_nil, hlen, hback, hsecond, if_pos rfl, Nat.add_sub_cancel, hfirst,
      if_pos ⟨by omega, rfl, by omega⟩, List.take_left]
  unfold resolveEnd standing
  simp only
  rw [if_neg (by omega), hstragglers, dropSeparator_opened]

theorem resolveEnd_name (kept : List Text) {name : Text} (hname : IsName name) :
    resolveEnd (standing (opened kept ++ name) [] false) =
      some (joinComponents (kept ++ [name])) := by
  obtain ⟨front, c, rfl⟩ := (List.eq_nil_or_concat' name).resolve_left hname.nonempty
  have hc : c ≠ dirMarker := fun h => hname.whole (by simp [h])
  have hdot : c ≠ dot := by
    rintro rfl
    exact hname.undotted (by simp)
  have hlen : (opened kept ++ (front ++ [c])).length - 1 = (opened kept ++ front).length := by
    simp only [List.length_append, List.length_singleton]
    omega
  have hat : (opened kept ++ (front ++ [c]))[(opened kept ++ front).length]? = some c := by
    rw [← List.append_assoc]
    exact getElem?_standing c
  have hstragglers : stragglers (opened kept ++ (front ++ [c]) ++ [])
      (opened kept ++ (front ++ [c])).length =
      (opened kept ++ (front ++ [c]), (opened kept ++ (front ++ [c])).length) := by
    unfold stragglers
    rw [List.append_nil, hlen, hat, if_neg fun h => hdot (Option.some.inj h)]
  have hkeep : dropSeparator (opened kept ++ (front ++ [c]))
      (opened kept ++ (front ++ [c])).length = opened kept ++ (front ++ [c]) := by
    unfold dropSeparator
    rw [hlen, hat, if_neg fun h => hc (Option.some.inj h.1)]
  unfold resolveEnd standing
  simp only
  rw [if_neg (by simp), hstragglers, hkeep, joinComponents_append]

/-! ## All components -/

/-- Behind the loop and the end of the string the kept components are left. -/
def Resolves (s : Resolving) (kept : List Text) : Prop :=
  (∃ t, Leads s t ∧ resolveStep t = none ∧ resolveEnd t = some (joinComponents kept)) ∧
    ∀ component ∈ kept, IsName component

theorem Resolves.of_leads {s t : Resolving} {kept : List Text} (hst : Leads s t)
    (h : Resolves t kept) : Resolves s kept := by
  obtain ⟨⟨u, htu, hend, hresult⟩, hnames⟩ := h
  exact ⟨⟨u, hst.trans htu, hend, hresult⟩, hnames⟩

theorem resolves_last {component : Text} {kept : List Text} {separator : Bool}
    (hwhole : dirMarker ∉ component) (hkept : ∀ k ∈ kept, IsName k)
    (hapart : DotsApart separator kept.length [component]) :
    Resolves (standing (opened kept) component separator) (keepComponent kept component) := by
  have hdots : dirMarker ∉ [dot, dot] := by decide
  have hdot : dirMarker ∉ [dot] := by decide
  have hrest : component ++ [] = component := List.append_nil component
  unfold DotsApart at hapart
  by_cases hempty : component = []
  · rw [hempty]
    exact ⟨⟨_, .refl, resolveStep_end, resolveEnd_opened kept separator⟩, hkept⟩
  by_cases hone : component = [dot]
  · rw [hone]
    exact ⟨⟨_, @leads_name _ [] _ _ hdot (.inl rfl) nofun, resolveStep_end,
      resolveEnd_dot kept⟩, hkept⟩
  rw [if_neg (by simp [hempty, hone])] at hapart
  by_cases htwo : component = [dot, dot]
  · rw [if_pos htwo] at hapart
    obtain rfl := List.length_eq_zero_iff.mp hapart
    rw [htwo]
    exact ⟨⟨_, @leads_name _ [] _ _ hdots (.inl rfl) nofun, resolveStep_end,
      resolveEnd_dots []⟩, hkept⟩
  · rw [if_neg htwo] at hapart
    have hname : IsName component := ⟨hwhole, hempty, hapart⟩
    have hleads := @leads_name (opened kept) [] component separator hwhole (.inl rfl) hempty
    rw [hrest] at hleads
    rw [hname.keep]
    refine ⟨⟨_, hleads, resolveStep_end, resolveEnd_name kept hname⟩, fun k hk => ?_⟩
    rcases List.mem_append.mp hk with hk | hk
    · exact hkept k hk
    · rw [List.mem_singleton.mp hk]
      exact hname

theorem leads_dotdotslash {kept : List Text} {rest : Text} {separator : Bool}
    (hkept : ∀ k ∈ kept, IsName k) (hdepth : 2 ≤ kept.length) :
    Leads (standing (opened kept) ([dot, dot] ++ [dirMarker] ++ rest) separator)
      (standing (opened kept.dropLast) rest false) := by
  obtain ⟨front, name, rfl⟩ := (List.eq_nil_or_concat' kept).resolve_left
    (List.ne_nil_of_length_pos (by omega))
  have hname : IsName name := hkept name (by simp)
  have hfront : 1 ≤ (front.flatMap fun component => dirMarker :: component).length := by
    rw [List.length_append, List.length_singleton] at hdepth
    obtain ⟨component, front', rfl⟩ := List.exists_cons_of_length_pos
      (show 0 < front.length by omega)
    simp
  have hstep := @resolveStep_dotdotslash _ rest name separator hname.whole hname.nonempty hfront
  rw [← opened_eq, ← opened_append] at hstep
  rw [List.dropLast_concat]
  exact .single hstep

theorem resolves_components : ∀ {components kept : List Text} {separator : Bool},
    components ≠ [] → (∀ c ∈ components, dirMarker ∉ c) → (∀ k ∈ kept, IsName k) →
      DotsApart separator kept.length components →
        Resolves (standing (opened kept) ([dirMarker].intercalate components) separator)
          (components.foldl keepComponent kept) := by
  intro components
  induction components with
  | nil => exact fun h => absurd rfl h
  | cons component components ih =>
    intro kept separator _ hwhole hkept hapart
    have hcomponent : dirMarker ∉ component := hwhole component List.mem_cons_self
    cases components with
    | nil =>
      rw [List.intercalate_singleton]
      exact resolves_last hcomponent hkept hapart
    | cons next components =>
      have hmore := fun c hc => hwhole c (List.mem_cons_of_mem _ hc)
      rw [List.intercalate_cons_cons, List.foldl_cons]
      unfold DotsApart at hapart
      by_cases hempty : component = []
      · rw [if_pos hempty] at hapart
        obtain ⟨rfl, hapart⟩ := hapart
        have hkeep : keepComponent kept [] = kept := if_pos (.inl rfl)
        rw [hempty, hkeep]
        refine .of_leads (.single ?_) (ih nofun hmore hkept hapart)
        rw [opened_eq]
        exact resolveStep_repeated
      rw [if_neg hempty] at hapart
      by_cases hone : component = [dot]
      · rw [if_pos hone] at hapart
        rw [hone]
        exact .of_leads (.single resolveStep_dotslash) (ih nofun hmore hkept hapart)
      rw [if_neg hone] at hapart
      by_cases htwo : component = [dot, dot]
      · rw [if_pos htwo] at hapart
        obtain ⟨hdepth, hapart⟩ := hapart
        rw [htwo]
        refine .of_leads (leads_dotdotslash hkept hdepth) (ih nofun hmore ?_ ?_)
        · exact fun k hk => hkept k (List.mem_of_mem_dropLast hk)
        · rwa [List.length_dropLast]
      · rw [if_neg htwo] at hapart
        obtain ⟨hlast, hapart⟩ := hapart
        have hname : IsName component := ⟨hcomponent, hempty, hlast⟩
        rw [hname.keep, List.append_assoc]
        have hleads : Leads (standing (opened kept)
            (component ++ ([dirMarker] ++ [dirMarker].intercalate (next :: components)))
            separator)
            (standing (opened (kept ++ [component]))
              ([dirMarker].intercalate (next :: components)) true) := by
          rw [opened_append]
          exact (leads_name hcomponent (.inr hlast) hempty).tail resolveStep_separator
        refine .of_leads hleads (ih nofun hmore (fun k hk => ?_) ?_)
        · rcases List.mem_append.mp hk with hk | hk
          · exact hkept k hk
          · rw [List.mem_singleton.mp hk]
            exact hname
        · rwa [List.length_append, List.length_singleton]

/-! ## Paths -/

theorem not_mem_of_mem_splitOn {path component : Text} (h : component ∈ path.splitOn dirMarker) :
    dirMarker ∉ component := by
  induction path generalizing component with
  | nil =>
    rw [List.splitOn_nil, List.mem_singleton] at h
    rw [h]
    exact List.not_mem_nil
  | cons c path ih =>
    rw [List.splitOn_cons_eq_if_modifyHead] at h
    split at h
    · rcases List.mem_cons.mp h with rfl | h
      · exact List.not_mem_nil
      · exact ih h
    · rename_i hc
      have hne : c ≠ dirMarker := by simpa using hc
      obtain ⟨first, more, hsplit⟩ := List.exists_cons_of_ne_nil
        (List.splitOn_ne_nil dirMarker path)
      rw [hsplit] at h ih
      rcases List.mem_cons.mp h with rfl | h
      · intro hmem
        rcases List.mem_cons.mp hmem with heq | hmem
        · exact hne heq.symm
        · exact ih List.mem_cons_self hmem
      · exact ih (List.mem_cons_of_mem _ h)

theorem eq_cons_drop_one {path : Text} (habs : isRelative path = false) :
    path = dirMarker :: path.drop 1 := by
  cases path with
  | nil => exact absurd habs nofun
  | cons c path =>
    have hc : c = dirMarker := by simpa [isRelative] using habs
    rw [hc]
    rfl

theorem normalForm_eq {path : Text} (habs : isRelative path = false) :
    normalForm path =
      joinComponents (((path.drop 1).splitOn dirMarker).foldl keepComponent []) := by
  have hsplit : path.splitOn dirMarker = [] :: (path.drop 1).splitOn dirMarker := by
    have hpath := eq_cons_drop_one habs
    generalize path.drop 1 = more at hpath ⊢
    rw [hpath, List.splitOn_cons_eq_if_modifyHead, if_pos (by decide)]
  unfold normalForm
  rw [hsplit, List.foldl_cons]
  rfl

theorem resolvesTo_of_regular {path : Text} (habs : isRelative path = false)
    (hregular : Regular path) (cwd : Text) :
    ResolvesTo cwd path (normalForm path) ∧
      ∀ k ∈ ((path.drop 1).splitOn dirMarker).foldl keepComponent [], IsName k := by
  obtain ⟨⟨s, hleads, hend, hresult⟩, hnames⟩ :=
    @resolves_components _ [] _ (List.splitOn_ne_nil dirMarker (path.drop 1))
      (fun _ => not_mem_of_mem_splitOn) (fun _ hk => absurd hk List.not_mem_nil) hregular
  refine ⟨?_, hnames⟩
  have hfirst : resolveStep ⟨path, 0, false⟩ = some (standing [dirMarker] (path.drop 1) true) := by
    have hstep := @resolveStep_separator [] (path.drop 1)
    unfold standing at hstep
    rw [List.nil_append, ← eq_cons_drop_one habs] at hstep
    exact hstep
  rw [List.intercalate_splitOn] at hleads
  have hall : Leads ⟨path, 0, false⟩ s := Relation.ReflTransGen.head hfirst hleads
  obtain ⟨fuel, hloop⟩ := hall.resolveLoop hend
  refine ⟨fuel, ?_⟩
  unfold resolvePath fullPath
  rw [habs, if_neg Bool.false_ne_true, hloop, normalForm_eq habs]
  exact hresult

theorem dotsApart_names : ∀ {names : List Text} {depth : Nat},
    (∀ name ∈ names, IsName name) → DotsApart true depth names := by
  intro names
  induction names with
  | nil => exact fun _ => trivial
  | cons name names ih =>
    intro depth hnames
    have hname := hnames name List.mem_cons_self
    have hone : name ≠ [dot] := fun h => hname.undotted (by rw [h]; rfl)
    have htwo : name ≠ [dot, dot] := fun h => hname.undotted (by rw [h]; rfl)
    cases names with
    | nil =>
      unfold DotsApart
      rw [if_neg (by simp [hname.nonempty, hone]), if_neg htwo]
      exact hname.undotted
    | cons next names =>
      unfold DotsApart
      rw [if_neg hname.nonempty, if_neg hone, if_neg htwo]
      exact ⟨hname.undotted, ih fun k hk => hnames k (List.mem_cons_of_mem _ hk)⟩

theorem foldl_keepComponent_names {names : List Text} (hnames : ∀ name ∈ names, IsName name) :
    ∀ kept, names.foldl keepComponent kept = kept ++ names := by
  induction names with
  | nil => exact fun kept => (List.append_nil kept).symm
  | cons name names ih =>
    intro kept
    rw [List.foldl_cons, (hnames name List.mem_cons_self).keep,
      ih fun k hk => hnames k (List.mem_cons_of_mem _ hk), List.append_assoc]
    rfl

theorem splitOn_joinComponents {kept : List Text} (hne : kept ≠ [])
    (hnames : ∀ name ∈ kept, IsName name) :
    ((joinComponents kept).drop 1).splitOn dirMarker = kept := by
  have hjoin : ∀ {names : List Text}, names ≠ [] →
      names.flatMap (fun component => dirMarker :: component) =
        dirMarker :: [dirMarker].intercalate names := by
    intro names
    induction names with
    | nil => exact fun h => absurd rfl h
    | cons name names ih =>
      intro _
      cases names with
      | nil => simp
      | cons next names =>
        rw [List.flatMap_cons, ih nofun, List.intercalate_cons_cons]
        simp
  unfold joinComponents
  rw [if_neg hne, hjoin hne, List.drop_one, List.tail_cons]
  exact List.splitOn_intercalate dirMarker (fun name hname => (hnames name hname).whole) hne

/-- A normal form is absolute, regular and its own normal form. -/
theorem regular_joinComponents {kept : List Text} (hnames : ∀ name ∈ kept, IsName name) :
    isRelative (joinComponents kept) = false ∧ Regular (joinComponents kept) ∧
      normalForm (joinComponents kept) = joinComponents kept := by
  have habs : isRelative (joinComponents kept) = false := by
    unfold isRelative joinComponents
    split
    · rfl
    · obtain ⟨name, more, rfl⟩ := List.exists_cons_of_ne_nil ‹_›
      rfl
  refine ⟨habs, ?_⟩
  rcases eq_or_ne kept [] with rfl | hne
  · exact ⟨trivial, rfl⟩
  · rw [normalForm_eq habs]
    unfold Regular
    rw [splitOn_joinComponents hne hnames, foldl_keepComponent_names hnames, List.nil_append]
    exact ⟨dotsApart_names hnames, rfl⟩

/-- In front of the root there is nothing: the loop stays where it is. -/
theorem resolveLoop_root (rest : Text) : ∀ (fuel : Nat) (separator : Bool),
    resolveLoop fuel (standing [dirMarker] ([dot, dot, dirMarker] ++ rest) separator) = none := by
  have hstay : ∀ separator,
      resolveStep (standing [dirMarker] ([dot, dot, dirMarker] ++ rest) separator) =
        some (standing [dirMarker] ([dot, dot, dirMarker] ++ rest) false) := by
    intro separator
    have hone : ¬ [dot, dirMarker] <+: dot :: dot :: dirMarker :: rest := by
      intro h
      have hsecond := (List.cons_prefix_cons.mp (List.cons_prefix_cons.mp h).2).1
      exact absurd hsecond (by decide)
    have htwo : [dot, dot, dirMarker] <+: dot :: dot :: dirMarker :: rest :=
      List.prefix_append [dot, dot, dirMarker] rest
    unfold resolveStep standing
    simp only [List.cons_append, List.nil_append, List.length_singleton, List.getElem?_cons_succ,
      List.getElem?_cons_zero, List.drop_succ_cons, List.drop_zero]
    rw [if_neg (by decide), if_neg fun h => hone h.2, if_pos ⟨trivial, htwo, by omega⟩,
      if_neg (by omega)]
  intro fuel
  induction fuel with
  | zero => exact fun _ => rfl
  | succ fuel ih =>
    intro separator
    rw [resolveLoop, hstay]
    exact ih false

end FreeAmp.Base
