/-
  Aps/Interface.lean --- the calls that change the profiles of an `APSInterface`, from
  `base/aps/apsinterface.cpp` and `base/aps/aps.h`.
-/
import FreeAmp.Aps.Profiles

namespace FreeAmp.Aps

open FreeAmp.Base FreeAmp.Lib

/-! ## What comes from outside -/

/-- A string that fits into the buffer of `LoadProfileMap`. -/
structure StoredText where
  text : Text
  storable : Profiles.Storable text
  deriving DecidableEq

structure ProfileName extends StoredText where
  ne_nil : text ≠ []
  deriving DecidableEq

/-- What the server makes of a `GetGUID`: it returns -1, or 0 with a GUID, or 0 without any
bytes, which leaves the string as it was. -/
inductive GuidAnswer where
  | refused
  | silent
  | guid (strGUID : StoredText)
  deriving DecidableEq

/-- `m_pYpClient->GetGUID(strGUID, 0)`: the string behind it when 0 is returned. -/
def GuidAnswer.getGUID (strGUID : Text) : GuidAnswer → Option Text
  | .refused => none
  | .silent => some strGUID
  | .guid g => some g.text

inductive ProfileCall where
  /-- `CreateProfile`, with the answers to both `GetGUID` -/
  | create (name : ProfileName) (first second : GuidAnswer)
  | change (name : Text)
  | delete (name : Text)
  /-- `TurnOn` and `TurnOff` -/
  | turn (on : Bool)
  | destroy
  deriving DecidableEq

/-! ## The calls -/

/-- An `APSInterface`, its `profiles.txt`, and a record of what was last written there. -/
structure APSInterface where
  profiles : Profiles
  file : Option Text
  written : Option Profiles
  deriving DecidableEq

namespace APSInterface

open Profiles

/-- A new one, without a file. -/
def start : APSInterface := ⟨.fresh, none, none⟩

/-- `WriteProfileMap(savedProfiles.c_str())` -/
def save (s : APSInterface) : APSInterface :=
  { s with file := some s.profiles.writeProfileMap, written := some s.profiles }

def changeProfile (s : APSInterface) (name : Text) : APSInterface :=
  match s.profiles.changeProfile name with
  | some p => { s with profiles := p }.save
  | none => s

/-- The map and the collection ID after the two `GetGUID` of `CreateProfile`. -/
def createdProfiles (p : Profiles) (name : Text) (first second : GuidAnswer) : Profiles :=
  let strGUID := first.getGUID []
  let p : Profiles :=
    match strGUID with
    | some g => { p with profileMap := p.profileMap.insert name g }
    | none => p
  if p.collectionID = [] then
    { p with collectionID := (second.getGUID (strGUID.getD [])).getD [] }
  else p

def createProfile (s : APSInterface) (name : Text) (first second : GuidAnswer) : APSInterface :=
  if name ∈ s.profiles.profileMap.keys then s
  else
    { s with profiles := createdProfiles s.profiles name first second }.changeProfile name

def deleteProfile (s : APSInterface) (name : Text) : APSInterface :=
  { s with profiles :=
    { s.profiles with
      profileMap := s.profiles.profileMap.erase name,
      currentProfile :=
        if s.profiles.currentProfile = name then [] else s.profiles.currentProfile } }.save

def call (s : APSInterface) : ProfileCall → APSInterface
  | .create name first second => s.createProfile name.text first second
  | .change name => s.changeProfile name
  | .delete name => s.deleteProfile name
  | .turn on => { s with profiles := { s.profiles with relatableOn := on } }
  | .destroy => s.save

/-- The calls one after the other. -/
def run (calls : List ProfileCall) : APSInterface := calls.foldl call start

/-! ## What every state keeps -/

theorem storable_nil : Storable [] := by decide

theorem storable_getGUID {a : GuidAnswer} {strGUID g : Text} (h : Storable strGUID)
    (hg : a.getGUID strGUID = some g) : Storable g := by
  cases a with
  | refused => exact absurd hg nofun
  | silent =>
    obtain rfl := Option.some.inj hg
    exact h
  | guid answer =>
    obtain rfl := Option.some.inj hg
    exact answer.storable

theorem kept_fresh : Kept fresh := ⟨nofun, nofun, storable_nil, .inl rfl, storable_nil⟩

theorem kept_insert {p : Profiles} (h : Kept p) (name : ProfileName) {g : Text}
    (hg : Storable g) : Kept { p with profileMap := p.profileMap.insert name.text g } := by
  refine ⟨?_, ?_, h.current, ?_, h.collection⟩
  · intro i hi
    rcases SortedMap.mem_insertEntry hi with rfl | hi
    · exact name.ne_nil
    · exact h.names i hi
  · intro i hi
    rcases SortedMap.mem_insertEntry hi with rfl | hi
    · exact ⟨name.storable, hg⟩
    · exact h.entries i hi
  · exact h.known.imp_right fun hmem => SortedMap.mem_keys_insert hmem _ _

theorem kept_collection {p : Profiles} (h : Kept p) {g : Text} (hg : Storable g) :
    Kept { p with collectionID := g } :=
  ⟨h.names, h.entries, h.current, h.known, hg⟩

theorem kept_created {p : Profiles} (h : Kept p) (name : ProfileName)
    (first second : GuidAnswer) : Kept (createdProfiles p name.text first second) := by
  unfold createdProfiles
  cases hfirst : first.getGUID [] with
  | none =>
    simp only
    split
    · apply kept_collection h
      cases hsecond : second.getGUID ((none : Option Text).getD []) with
      | none => exact storable_nil
      | some g => exact storable_getGUID storable_nil hsecond
    · exact h
  | some g =>
    have hg := storable_getGUID storable_nil hfirst
    simp only
    split
    · apply kept_collection (kept_insert h name hg)
      cases hsecond : second.getGUID ((some g).getD []) with
      | none => exact storable_nil
      | some g' => exact storable_getGUID hg hsecond
    · exact kept_insert h name hg

theorem kept_change {p p' : Profiles} {name : Text} (h : Kept p)
    (hchange : p.changeProfile name = some p') : Kept p' := by
  unfold Profiles.changeProfile at hchange
  split at hchange
  · rename_i hmem
    obtain rfl := Option.some.inj hchange
    obtain ⟨i, hi, rfl⟩ := List.mem_map.mp hmem
    exact ⟨h.names, h.entries, (h.entries i hi).1, .inr hmem, h.collection⟩
  · exact absurd hchange nofun

theorem kept_delete {p : Profiles} (h : Kept p) (name : Text) :
    Kept { p with
      profileMap := p.profileMap.erase name,
      currentProfile := if p.currentProfile = name then [] else p.currentProfile } := by
  refine ⟨fun i hi => h.names i (List.mem_of_mem_filter hi),
    fun i hi => h.entries i (List.mem_of_mem_filter hi), ?_, ?_, h.collection⟩
  · simp only
    split
    · exact storable_nil
    · exact h.current
  · simp only
    split
    · exact .inl rfl
    · rename_i hne
      exact h.known.imp_right fun hmem => SortedMap.mem_keys_erase hmem hne

/-- The profiles are kept, and `profiles.txt` is what was last written, with the map and the
current profile as they are. -/
structure Saved (s : APSInterface) : Prop where
  kept : Kept s.profiles
  written : ∀ w ∈ s.written, Kept w ∧ s.file = some w.writeProfileMap ∧
    w.profileMap = s.profiles.profileMap ∧ w.currentProfile = s.profiles.currentProfile

theorem saved_save {s : APSInterface} (h : Kept s.profiles) : Saved s.save := by
  refine ⟨h, ?_⟩
  intro w hw
  obtain rfl := Option.some.inj hw
  exact ⟨h, rfl, rfl, rfl⟩

theorem saved_change {s : APSInterface} (h : Saved s) (name : Text) :
    Saved (s.changeProfile name) := by
  unfold changeProfile
  cases hchange : s.profiles.changeProfile name with
  | none => exact h
  | some p => exact saved_save (kept_change h.kept hchange)

/-- A `CreateProfile` that gets no GUID for the profile changes the collection ID at most. -/
theorem created_refused {p : Profiles} {name : Text} {first second : GuidAnswer}
    (h : first.getGUID [] = none) :
    (createdProfiles p name first second).profileMap = p.profileMap ∧
      (createdProfiles p name first second).currentProfile = p.currentProfile := by
  unfold createdProfiles
  simp only [h]
  split <;> exact ⟨rfl, rfl⟩

theorem created_granted {p : Profiles} {name g : Text} {first second : GuidAnswer}
    (h : first.getGUID [] = some g) :
    name ∈ (createdProfiles p name first second).profileMap.keys := by
  have hmap : (createdProfiles p name first second).profileMap = p.profileMap.insert name g := by
    unfold createdProfiles
    simp only [h]
    split <;> rfl
  rw [hmap]
  exact SortedMap.mem_keys_insert_self _ _ _

theorem saved_create {s : APSInterface} (h : Saved s) (name : ProfileName)
    (first second : GuidAnswer) : Saved (s.createProfile name.text first second) := by
  unfold createProfile
  split
  · exact h
  · rename_i hnew
    have hkept := kept_created h.kept name first second
    unfold changeProfile Profiles.changeProfile
    cases hfirst : first.getGUID [] with
    | none =>
      obtain ⟨hmap, hcurrent⟩ := @created_refused s.profiles name.text first second hfirst
      simp only [hmap, hnew, if_false]
      refine ⟨hkept, ?_⟩
      intro w hw
      obtain ⟨hw, hfile, hwmap, hwcurrent⟩ := h.written w hw
      exact ⟨hw, hfile, hwmap.trans hmap.symm, hwcurrent.trans hcurrent.symm⟩
    | some g =>
      have hmem := @created_granted s.profiles name.text g first second hfirst
      simp only [hmem, if_true]
      exact saved_save (kept_change hkept (if_pos hmem))

theorem saved_call {s : APSInterface} (h : Saved s) (c : ProfileCall) : Saved (s.call c) := by
  cases c with
  | create name first second => exact saved_create h name first second
  | change name => exact saved_change h name
  | delete name => exact saved_save (kept_delete h.kept name)
  | turn on =>
    exact ⟨⟨h.kept.names, h.kept.entries, h.kept.current, h.kept.known, h.kept.collection⟩,
      h.written⟩
  | destroy => exact saved_save h.kept

theorem saved_run (calls : List ProfileCall) : Saved (run calls) := by
  have hall : ∀ (calls : List ProfileCall) (s : APSInterface), Saved s →
      Saved (calls.foldl call s) := by
    intro calls
    induction calls with
    | nil => intro s h; exact h
    | cons c calls ih => intro s h; exact ih (s.call c) (saved_call h c)
  exact hall calls start ⟨kept_fresh, nofun⟩

/-! ## The file -/

/-- A new `APSInterface` that loads the file has the profiles, the current profile, the
collection ID and the flag that were last written, and no profile has changed since. -/
def FileComesBack (s : APSInterface) : Prop :=
  ∀ w ∈ s.written, ComesBack w s.file ∧ w.profileMap = s.profiles.profileMap ∧
    w.currentProfile = s.profiles.currentProfile

/-- After any calls the file comes back exactly when what was written to it is restorable. -/
theorem file_comesBack_iff (calls : List ProfileCall) :
    FileComesBack (run calls) ↔ ∀ w ∈ (run calls).written, Restorable w := by
  have hsaved := saved_run calls
  constructor
  · intro hback w hw
    obtain ⟨hkept, hfile, -⟩ := hsaved.written w hw
    have hw' := (hback w hw).1
    rw [hfile] at hw'
    exact (comesBack_iff hkept).mp hw'
  · intro hgood w hw
    obtain ⟨hkept, hfile, hmap, hcurrent⟩ := hsaved.written w hw
    refine ⟨?_, hmap, hcurrent⟩
    rw [hfile]
    exact (comesBack_iff hkept).mpr (hgood w hw)

/-- A profile whose GUID the server did not send makes the others unreadable. -/
theorem silent_answer_loses_profiles :
    ¬ FileComesBack (run
      [.create ⟨⟨bytes "a", by decide⟩, by decide⟩ (.guid ⟨bytes "g", by decide⟩) .refused,
        .create ⟨⟨bytes "b", by decide⟩, by decide⟩ .silent .refused]) := by
  intro h
  have hkept := (saved_run
    [.create ⟨⟨bytes "a", by decide⟩, by decide⟩ (.guid ⟨bytes "g", by decide⟩) .refused,
      .create ⟨⟨bytes "b", by decide⟩, by decide⟩ .silent .refused]).written _ rfl
  have hback := (h _ rfl).1
  rw [hkept.2.1] at hback
  have hguids := ((comesBack_iff hkept.1).mp hback).guids
  -- the entry of `b` has no GUID
  have hmem : (bytes "b", []) ∈ (run
      [.create ⟨⟨bytes "a", by decide⟩, by decide⟩ (.guid ⟨bytes "g", by decide⟩) .refused,
        .create ⟨⟨bytes "b", by decide⟩, by decide⟩ .silent .refused]).profiles.profileMap.entries := by
    decide
  rw [← hkept.2.2.1] at hmem
  exact hguids _ hmem rfl

end APSInterface

end FreeAmp.Aps
