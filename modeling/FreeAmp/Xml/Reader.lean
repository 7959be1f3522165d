/-
  Xml/Reader.lean --- an object that parses one document after the other.

  A class that is derived from `Parse` keeps its members from one document to the next.  What
  holds of every document that is read in a good state holds in a run of such documents.
-/
import FreeAmp.Lib.Transition
import FreeAmp.Xml.ParseNames

namespace FreeAmp.Xml

open FreeAmp.Base FreeAmp.Lib

/-- The calls that a parse has made. -/
def eventsOf (r : Option (Except BufferFault (Error × Parsing))) : List Event :=
  r.elim [] fun r => r.toOption.elim [] fun r => r.2.events

/-- A class that is derived from `Parse`: what the calls for a document do, and return in the
end, and what it has appended to its list.  `none`: a null pointer has been dereferenced. -/
structure Reader (σ ι : Type) where
  read : σ → List Event → Option (σ × Error)
  list : σ → List ι

/-- A document, as it is read; the parser has some number of rounds, after which it has to have
returned. -/
structure Document where
  source : Source
  rounds : Nat

/-- An object, and the last document, if it has been parsed without an error: its calls, and
what they have appended. -/
structure Session (σ ι : Type) where
  object : σ
  parsed : Option (List Event × List ι)
  /-- a null pointer has been dereferenced -/
  null : Bool
  deriving DecidableEq

namespace Reader

variable {σ ι : Type} (R : Reader σ ι)

/-- What the last of the calls so far returns; behind a null pointer there is no other. -/
def answer (s : σ) (calls : List Event) : Error := (R.read s calls).elim .unknownErr Prod.snd

/-- A document is parsed. -/
def next (s : Session σ ι) (d : Document) : Option (Session σ ι) :=
  if s.null then none
  else
    match doParse (R.answer s.object) d.rounds d.source parsing with
    | some (.ok (eRet, p)) =>
      match R.read s.object p.events with
      | none => some { s with null := true }
      | some (object, _) => some { s with
          object := object
          parsed := if eRet = .noErr then
            some (p.events, (R.list object).drop (R.list s.object).length) else none }
    | _ => none

/-- The document is good for the object. -/
def Proper (good : σ → List Event → Prop) (s : Session σ ι) (d : Document) : Prop :=
  ∀ eRet p, doParse (R.answer s.object) d.rounds d.source parsing = some (.ok (eRet, p)) →
    good s.object p.events

/-- No null pointer has been dereferenced, and a document that has been parsed has appended
what it says. -/
structure Right (said : List Event → List ι) (s : Session σ ι) : Prop where
  null : s.null = false
  parsed : ∀ x, s.parsed = some x → x.2 = said x.1

variable {R} {good : σ → List Event → Prop} {said : List Event → List ι}

theorem Right.step {s s' : Session σ ι} {d : Document} (h : Right said s)
    (hread : ∀ object calls, (∀ e ∈ calls, e.NoSlash) → good object calls →
      ∃ object' err, R.read object calls = some (object', err) ∧
        R.list object' = R.list object ++ said calls)
    (hproper : R.Proper good s d) (hstep : R.next s d = some s') : Right said s' := by
  unfold next at hstep
  rw [h.null] at hstep
  split at hstep
  · cases hstep
  · split at hstep
    · rename_i eRet p hparse
      obtain ⟨object, err, hdone, hlist⟩ := hread s.object p.events
        (noSlash_doParse d.rounds noSlash_parsing hparse).events (hproper eRet p hparse)
      rw [hdone] at hstep
      rw [← Option.some.inj hstep]
      refine ⟨rfl, fun x hx => ?_⟩
      dsimp only at hx
      split at hx
      · rw [← Option.some.inj hx]
        dsimp only
        rw [hlist, List.drop_left]
      · cases hx
    · cases hstep

/-- What holds of every good document holds in every run of good documents. -/
theorem right_of_run
    (hread : ∀ object calls, (∀ e ∈ calls, e.NoSlash) → good object calls →
      ∃ object' err, R.read object calls = some (object', err) ∧
        R.list object' = R.list object ++ said calls)
    {object : σ} {ds : List Document} {s : Session σ ι}
    (h : Run (Guarded (R.Proper good) (Steps R.next)) ⟨object, none, false⟩ ds s) :
    Right said s :=
  h.invariant (fun _ _ _ hs hstep => hs.step hread hstep.1 hstep.2)
    ⟨rfl, fun x hx => by cases hx⟩

end Reader

end FreeAmp.Xml
