/-
  Base/MusicCatalogLookup.lean --- the lookup threads of the music catalog.

  `AcceptEvent` puts a pair of URL and GUID into `m_MBRequests` for each signature that has
  been generated, and starts a thread unless `m_MBLookupThreadActive` says that there is
  one.  The thread sets the flag when it has started, not before, and clears it some time
  after it has found the queue empty.  A pair that comes in between is left to a thread
  that no longer looks, or is given a second thread.

  What `DoMBLookup` does with a pair is left out, and so is `m_killMBThread`.
-/
import FreeAmp.Base.FileUrl
import FreeAmp.Lib.Transition

namespace FreeAmp.Base

open FreeAmp.Lib

/-- Where a lookup thread is. -/
inductive LookupPlace where
  /-- it has been created, and has not set the flag -/
  | starting
  /-- before the section that reads the size -/
  | sizing
  /-- before `if (m_pendingMBLookups <= 0)` -/
  | testing
  /-- before the section that takes the first pair -/
  | taking
  /-- `DoMBLookup(lookup.first, lookup.second)` -/
  | looking (lookup : Text × Text)
  /-- behind the loop -/
  | reporting
  /-- before the flag is cleared -/
  | leaving
  deriving DecidableEq, Repr

/-- The fields of `MusicCatalog` that the lookups work on, and the lookup threads. -/
structure LookupCatalog where
  sigs : List Text
  requests : List (Text × Text)
  pendingMBLookups : Nat
  lookupThreadActive : Bool
  threads : List LookupPlace
  /-- the messages that signaturing has completed -/
  messages : Nat
  /-- the first pair of an empty queue has been read -/
  outOfRange : Bool
  /-- all that has been put into the queue -/
  queued : List (Text × Text)
  /-- all that has been passed to `DoMBLookup` -/
  lookups : List (Text × Text)
  deriving DecidableEq, Repr

/-- What happens. -/
inductive LookupAction where
  /-- `INFO_AudioSignatureGenerated` -/
  | audioSignatureGenerated (path guid : Text)
  /-- a step of a lookup thread -/
  | thread (k : Nat)
  deriving DecidableEq, Repr

/-- The action is a step of a thread. -/
def LookupAction.ofThread : LookupAction → Prop
  | .thread _ => True
  | .audioSignatureGenerated _ _ => False

instance (a : LookupAction) : Decidable a.ofThread := by
  cases a <;> unfold LookupAction.ofThread <;> infer_instance

namespace LookupPlace

/-- The thread has set the flag. -/
def hasStarted : LookupPlace → Bool
  | .starting => false
  | _ => true

/-- The pair that the thread has taken and not yet looked up. -/
def held : LookupPlace → List (Text × Text)
  | .looking lookup => [lookup]
  | _ => []

/-- The steps that are left to the thread when the queue is empty. -/
def rank : LookupPlace → Nat
  | .starting => 5
  | .sizing => 4
  | .testing => 3
  | .taking => 2
  | .looking _ => 5
  | .reporting => 2
  | .leaving => 1

end LookupPlace

namespace LookupCatalog

/-- The constructor. -/
def init (sigs : List Text) : LookupCatalog where
  sigs := sigs
  requests := []
  pendingMBLookups := 0
  lookupThreadActive := false
  threads := []
  messages := 0
  outOfRange := false
  queued := []
  lookups := []

/-- The thread `k` goes on at `place`. -/
def goto (s : LookupCatalog) (k : Nat) (place : LookupPlace) : LookupCatalog :=
  { s with threads := s.threads.set k place }

/-- `AcceptEvent` of an `INFO_AudioSignatureGenerated`. -/
def audioSignatureGenerated (s : LookupCatalog) (path guid : Text) : Option LookupCatalog :=
  match (filePathToURL path (path.length + 20)).result with
  | .ok url =>
    let s := { s with
      sigs := (s.sigs.erase path).erase url
      requests := s.requests ++ [(url, guid)]
      queued := s.queued ++ [(url, guid)] }
    some (if s.lookupThreadActive then s else { s with threads := s.threads ++ [.starting] })
  | .error _ => none

/-- `MBLookupThread`, one step of the thread `k`. -/
def threadStep (s : LookupCatalog) (k : Nat) : Option LookupCatalog :=
  match s.threads[k]? with
  | none => none
  | some .starting => some ({ s with lookupThreadActive := true }.goto k .sizing)
  | some .sizing => some ({ s with pendingMBLookups := s.requests.length }.goto k .testing)
  | some .testing => some (s.goto k (if s.pendingMBLookups = 0 then .reporting else .taking))
  | some .taking =>
    match s.requests with
    | [] => some { s with outOfRange := true }
    | lookup :: requests => some ({ s with requests := requests }.goto k (.looking lookup))
  | some (.looking lookup) => some ({ s with lookups := s.lookups ++ [lookup] }.goto k .sizing)
  | some .reporting =>
    let messages := if s.pendingMBLookups = 0 ∧ s.sigs = [] then s.messages + 1 else s.messages
    some ({ s with messages := messages }.goto k .leaving)
  | some .leaving =>
    some { s with lookupThreadActive := false, threads := s.threads.eraseIdx k }

/-- What follows an action; nothing once the queue has been read out of range. -/
def next (s : LookupCatalog) (a : LookupAction) : Option LookupCatalog :=
  if s.outOfRange then none
  else
    match a with
    | .audioSignatureGenerated path guid => s.audioSignatureGenerated path guid
    | .thread k => s.threadStep k

theorem audioSignatureGenerated_eq (s : LookupCatalog) (path guid : Text) :
    s.audioSignatureGenerated path guid = some { s with
      sigs := (s.sigs.erase path).erase (protocol ++ path)
      requests := s.requests ++ [(protocol ++ path, guid)]
      queued := s.queued ++ [(protocol ++ path, guid)]
      threads := if s.lookupThreadActive then s.threads else s.threads ++ [.starting] } := by
  have hlength : path.length + protocol.length + 1 ≤ path.length + 20 := by
    rw [protocol_length]
    omega
  unfold audioSignatureGenerated
  rw [filePathToURL_ok hlength]
  cases s with
  | mk sigs requests pendingMBLookups active threads messages outOfRange queued lookups =>
    cases active with
    | true => rfl
    | false => rfl

/-! ## The invariant -/

/-- What the queue is like for the thread at a place. -/
def Suits (s : LookupCatalog) : LookupPlace → Prop
  | .starting => s.requests ≠ []
  | .testing => s.pendingMBLookups = 0 ↔ s.requests = []
  | .taking => s.requests ≠ []
  | .reporting => s.requests = []
  | .leaving => s.requests = []
  | _ => True

/-- The thread at a place is going to look at the queue again, and has set the flag. -/
def Awake (s : LookupCatalog) : LookupPlace → Prop
  | .starting => False
  | .testing => s.pendingMBLookups ≠ 0
  | .reporting => False
  | .leaving => False
  | _ => True

instance (s : LookupCatalog) (place : LookupPlace) : Decidable (s.Awake place) := by
  cases place <;> unfold Awake <;> infer_instance

/-- An event comes when there is no lookup thread, or when the thread there is has set the flag
and has not found the queue empty. -/
def Arrives (s : LookupCatalog) : LookupAction → Prop
  | .audioSignatureGenerated _ _ => ∀ place ∈ s.threads, s.Awake place
  | .thread _ => True

instance (s : LookupCatalog) (a : LookupAction) : Decidable (s.Arrives a) := by
  cases a <;> unfold Arrives <;> infer_instance

/-- There is one lookup thread at a place. -/
structure Working (s : LookupCatalog) (place : LookupPlace) : Prop where
  inRange : s.outOfRange = false
  threads : s.threads = [place]
  active : s.lookupThreadActive = place.hasStarted
  queued : s.queued = s.lookups ++ place.held ++ s.requests
  suits : s.Suits place

/-- There is no lookup thread, and nothing to look up. -/
structure Resting (s : LookupCatalog) : Prop where
  inRange : s.outOfRange = false
  threads : s.threads = []
  active : s.lookupThreadActive = false
  requests : s.requests = []
  queued : s.queued = s.lookups

/-- The invariant. -/
def Tended (s : LookupCatalog) : Prop := s.Resting ∨ ∃ place, s.Working place

variable {s t : LookupCatalog} {place : LookupPlace} {k : Nat}

theorem Tended.inRange (h : s.Tended) : s.outOfRange = false := by
  rcases h with h | ⟨_, h⟩
  · exact h.inRange
  · exact h.inRange

theorem Tended.event (h : s.Tended) {path guid : Text}
    (harrives : s.Arrives (.audioSignatureGenerated path guid))
    (hst : s.audioSignatureGenerated path guid = some t) : t.Tended := by
  rw [audioSignatureGenerated_eq] at hst
  obtain rfl := Option.some.inj hst
  rcases h with h | ⟨place, h⟩
  · -- a thread is started
    refine .inr ⟨.starting, h.inRange, ?_, h.active, ?_, ?_⟩
    · simp only [h.threads, h.active, Bool.false_eq_true, if_false, List.nil_append]
    · simp only [h.queued, h.requests, LookupPlace.held, List.append_nil, List.nil_append]
    · exact List.append_ne_nil_of_right_ne_nil _ nofun
  · have hawake : s.Awake place := harrives place (by rw [h.threads]; exact List.mem_singleton_self _)
    have hstarted : place.hasStarted = true := by
      cases place with
      | starting => exact hawake.elim
      | _ => rfl
    have hactive : s.lookupThreadActive = true := h.active.trans hstarted
    refine .inr ⟨place, h.inRange, ?_, h.active, ?_, ?_⟩
    · simp only [h.threads, hactive, if_true]
    · simp only [h.queued, List.append_assoc]
    · have hne : s.requests ++ [(protocol ++ path, guid)] ≠ [] :=
        List.append_ne_nil_of_right_ne_nil _ nofun
      cases place with
      | starting => exact hawake.elim
      | sizing => trivial
      | testing => exact iff_of_false hawake hne
      | taking => exact hne
      | looking lookup => trivial
      | reporting => exact hawake.elim
      | leaving => exact hawake.elim

/-- The steps that are left to the threads, with four for each pair in the queue. -/
def work (s : LookupCatalog) : Nat :=
  4 * s.requests.length + (s.threads.map LookupPlace.rank).sum

theorem Working.threadStep (h : s.Working place) (hst : s.threadStep k = some t) :
    t.Tended ∧ t.queued = s.queued ∧ t.work < s.work := by
  have hk : s.threads[k]? = some place := by
    unfold LookupCatalog.threadStep at hst
    rw [h.threads] at hst ⊢
    cases k with
    | zero => rfl
    | succ k => exact absurd hst nofun
  have hzero : k = 0 := by
    have hlt := (List.getElem?_eq_some_iff.mp hk).1
    rw [h.threads, List.length_singleton] at hlt
    omega
  obtain rfl := hzero
  have hset : ∀ next, s.threads.set 0 next = [next] := fun next => by rw [h.threads]; rfl
  have hqueued := h.queued
  have hsuits := h.suits
  unfold LookupCatalog.threadStep at hst
  rw [hk] at hst
  unfold work
  rw [h.threads]
  cases place with
  | starting =>
    obtain rfl := Option.some.inj hst
    refine ⟨.inr ⟨.sizing, h.inRange, hset _, rfl, hqueued, trivial⟩, rfl, ?_⟩
    simp [goto, hset, LookupPlace.rank]
  | sizing =>
    obtain rfl := Option.some.inj hst
    refine ⟨.inr ⟨.testing, h.inRange, hset _, h.active, hqueued, List.length_eq_zero_iff⟩, rfl, ?_⟩
    simp [goto, hset, LookupPlace.rank]
  | testing =>
    obtain rfl := Option.some.inj hst
    by_cases hempty : s.pendingMBLookups = 0
    · rw [if_pos hempty]
      refine ⟨.inr ⟨.reporting, h.inRange, hset _, h.active, hqueued, hsuits.mp hempty⟩, rfl, ?_⟩
      simp [goto, hset, LookupPlace.rank]
    · rw [if_neg hempty]
      refine ⟨.inr ⟨.taking, h.inRange, hset _, h.active, hqueued, mt hsuits.mpr hempty⟩, rfl, ?_⟩
      simp [goto, hset, LookupPlace.rank]
  | taking =>
    obtain ⟨lookup, requests, hrequests⟩ := List.exists_cons_of_ne_nil hsuits
    simp only [hrequests] at hst
    obtain rfl := Option.some.inj hst
    refine ⟨.inr ⟨.looking lookup, h.inRange, hset _, h.active, ?_, trivial⟩, rfl, ?_⟩
    · simp only [goto, hqueued, hrequests, LookupPlace.held, List.append_nil, List.append_assoc,
        List.singleton_append]
    · simp only [goto, hset, hrequests, LookupPlace.rank, List.length_cons, List.map_cons,
        List.map_nil, List.sum_cons, List.sum_nil]
      omega
  | looking lookup =>
    obtain rfl := Option.some.inj hst
    refine ⟨.inr ⟨.sizing, h.inRange, hset _, h.active, ?_, trivial⟩, rfl, ?_⟩
    · simp only [goto, hqueued, LookupPlace.held, List.append_nil]
    · simp [goto, hset, LookupPlace.rank]
  | reporting =>
    obtain rfl := Option.some.inj hst
    refine ⟨.inr ⟨.leaving, h.inRange, hset _, h.active, hqueued, hsuits⟩, rfl, ?_⟩
    simp [goto, hset, LookupPlace.rank]
  | leaving =>
    obtain rfl := Option.some.inj hst
    have hrequests : s.requests = [] := hsuits
    refine ⟨.inl ⟨h.inRange, ?_, rfl, hsuits, ?_⟩, rfl, ?_⟩
    · simp only [h.threads, List.eraseIdx_cons_zero]
    · simp only [hqueued, hrequests, LookupPlace.held, List.append_nil]
    · simp [h.threads, LookupPlace.rank]

theorem Tended.threadStep (h : s.Tended) (hst : s.threadStep k = some t) :
    t.Tended ∧ t.queued = s.queued ∧ t.work < s.work := by
  rcases h with h | ⟨place, h⟩
  · unfold LookupCatalog.threadStep at hst
    rw [h.threads] at hst
    exact absurd hst nofun
  · exact h.threadStep hst

theorem Tended.next (h : s.Tended) {a : LookupAction} (harrives : s.Arrives a)
    (hst : s.next a = some t) : t.Tended := by
  unfold LookupCatalog.next at hst
  rw [h.inRange, if_neg Bool.false_ne_true] at hst
  cases a with
  | audioSignatureGenerated path guid => exact h.event harrives hst
  | thread k => exact (h.threadStep hst).1

theorem Tended.of_run {sigs : List Text} {acts : List LookupAction}
    (hrun : Run (Guarded Arrives (Steps LookupCatalog.next)) (init sigs) acts s) : s.Tended :=
  hrun.invariant (fun _ _ _ h hst => h.next hst.1 hst.2) (.inl ⟨rfl, rfl, rfl, rfl, rfl⟩)

/-! ## What is left to do -/

theorem Tended.goes_on (h : s.Tended) (hne : s.threads ≠ []) :
    ∃ t, s.next (.thread 0) = some t := by
  rcases h with h | ⟨place, h⟩
  · exact absurd h.threads hne
  · have hk : s.threads[0]? = some place := by
      rw [h.threads]
      rfl
    unfold LookupCatalog.next
    rw [h.inRange, if_neg Bool.false_ne_true]
    show ∃ t, s.threadStep 0 = some t
    unfold LookupCatalog.threadStep
    rw [hk]
    cases place with
    | taking =>
      obtain ⟨lookup, requests, hrequests⟩ := List.exists_cons_of_ne_nil h.suits
      rw [hrequests]
      exact ⟨_, rfl⟩
    | _ => exact ⟨_, rfl⟩

/-- When no event comes any more, the threads come to an end. -/
theorem Tended.drains (h : s.Tended) {acts : List LookupAction}
    (hrun : Run (Steps LookupCatalog.next) s acts t) (hacts : ∀ a ∈ acts, a.ofThread) :
    t.Tended ∧ t.queued = s.queued ∧ acts.length + t.work ≤ s.work := by
  induction hrun with
  | refl s => exact ⟨h, rfl, Nat.le_of_eq (Nat.zero_add _)⟩
  | @cons s u v a as first rest ih =>
    have hthread := hacts a List.mem_cons_self
    unfold Steps LookupCatalog.next at first
    rw [h.inRange, if_neg Bool.false_ne_true] at first
    cases a with
    | audioSignatureGenerated path guid => exact hthread.elim
    | thread k =>
      obtain ⟨hu, hqueued, hless⟩ := h.threadStep first
      obtain ⟨hv, hqueued', hsteps⟩ := ih hu fun a ha => hacts a (List.mem_cons_of_mem _ ha)
      refine ⟨hv, hqueued'.trans hqueued, ?_⟩
      rw [List.length_cons]
      omega

/-- The pairs are looked up: the queue has not been read out of range; each pair that has been
queued has been passed to `DoMBLookup` once, is held by a thread or waits in the queue, in this
order; while one waits there is a thread; and the threads by themselves come to an end, where
each pair has been passed once. -/
structure LookedUp (s : LookupCatalog) : Prop where
  inRange : s.outOfRange = false
  once : s.queued = s.lookups ++ s.threads.flatMap LookupPlace.held ++ s.requests
  attended : s.requests ≠ [] → s.threads ≠ []
  finishes : ∀ acts t, Run (Steps next) s acts t → (∀ a ∈ acts, a.ofThread) →
    acts.length ≤ s.work ∧ (t.threads ≠ [] → ∃ u, t.next (.thread 0) = some u) ∧
      (t.threads = [] → t.lookups = s.queued)

/-- In a run whose events come when there is no lookup thread, or one that has set the flag and
not found the queue empty, every pair is looked up. -/
theorem lookedUp_of_run {sigs : List Text} {acts : List LookupAction}
    (hrun : Run (Guarded Arrives (Steps next)) (init sigs) acts s) : s.LookedUp := by
  have h : s.Tended := Tended.of_run hrun
  refine ⟨h.inRange, ?_, ?_, ?_⟩
  · rcases h with h | ⟨place, h⟩
    · rw [h.queued, h.threads, h.requests, List.flatMap_nil, List.append_nil, List.append_nil]
    · rw [h.queued, h.threads, List.flatMap_singleton]
  · intro hne
    rcases h with h | ⟨place, h⟩
    · exact absurd h.requests hne
    · rw [h.threads]
      exact nofun
  · intro acts t hmore hacts
    obtain ⟨ht, hqueued, hsteps⟩ := h.drains hmore hacts
    refine ⟨by omega, ht.goes_on, fun hnone => ?_⟩
    rcases ht with ht | ⟨place, ht⟩
    · exact ht.queued.symm.trans hqueued
    · rw [ht.threads] at hnone
      exact absurd hnone nofun

/-- A signature, and a second one while the thread looks up the first. -/
def twoSignatures : List LookupAction :=
  [.audioSignatureGenerated [1] [7], .thread 0, .thread 0, .thread 0, .thread 0,
    .audioSignatureGenerated [2] [8], .thread 0]

theorem twoSignatures_run : ∃ s,
    Run (Guarded Arrives (Steps next)) (init []) twoSignatures s ∧ s.requests.length = 1 ∧
      s.lookups.length = 1 :=
  ⟨_, Run.of_guarded_exec rfl, rfl, rfl⟩

theorem lookedUp_of_run_two : ∃ s,
    Run (Guarded Arrives (Steps next)) (init []) twoSignatures s ∧ s.requests.length = 1 ∧
      s.lookups.length = 1 ∧ s.LookedUp := by
  obtain ⟨s, hrun, hrequests, hlookups⟩ := twoSignatures_run
  exact ⟨s, hrun, hrequests, hlookups, lookedUp_of_run hrun⟩

/-- Two signatures before the first thread has set the flag: there are two threads, and the
second one takes the first pair of the empty queue. -/
def twoThreads : List LookupAction :=
  [.audioSignatureGenerated [1] [7], .audioSignatureGenerated [2] [8], .thread 0, .thread 0,
    .thread 0, .thread 0, .thread 0, .thread 0, .thread 0, .thread 1, .thread 1, .thread 1,
    .thread 0, .thread 1]

/-- A second signature after the thread has found the queue empty: the thread ends, and the pair
stays in the queue. -/
def tooLate : List LookupAction :=
  [.audioSignatureGenerated [1] [7], .thread 0, .thread 0, .thread 0, .thread 0, .thread 0,
    .thread 0, .thread 0, .audioSignatureGenerated [2] [8], .thread 0, .thread 0]

theorem lookups_lost :
    (∃ s, Run (Steps next) (init []) twoThreads s ∧ ¬ s.LookedUp) ∧
      ∃ s, Run (Steps next) (init []) tooLate s ∧ ¬ s.LookedUp := by
  have htwo : ∃ s, Run (Steps next) (init []) twoThreads s ∧ s.outOfRange = true :=
    ⟨_, Run.of_exec rfl, rfl⟩
  have hlate : ∃ s, Run (Steps next) (init []) tooLate s ∧ s.requests ≠ [] ∧ s.threads = [] :=
    ⟨_, Run.of_exec rfl, nofun, rfl⟩
  obtain ⟨s, hrun, hout⟩ := htwo
  obtain ⟨t, hrun', hne, hnone⟩ := hlate
  refine ⟨⟨s, hrun, fun h => ?_⟩, t, hrun', fun h => h.attended hne hnone⟩
  rw [h.inRange] at hout
  exact absurd hout nofun

end LookupCatalog

end FreeAmp.Base
