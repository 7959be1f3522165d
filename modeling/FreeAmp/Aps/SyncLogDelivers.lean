/-
  Aps/SyncLogDelivers.lean --- what becomes of the events that are logged.

      Sound          what every state keeps, when the GUIDs that are written are words
      run_delivers   no event is lost, altered or sent twice
-/
import FreeAmp.Aps.SyncLog

namespace FreeAmp.Aps.SyncLog

open FreeAmp.Base FreeAmp.Lib

namespace Logger

variable {φ : Type}

/-- Every profile has a file of its own, which can be opened and is not `profiles.txt`. -/
structure OwnFiles (disk : Disk φ) (profiles : Profiles) : Prop where
  file : ∀ name ∈ profiles.profileMap.keys, ∃ p, disk.place name = some p
  txt : ∀ name ∈ profiles.profileMap.keys, disk.place name ≠ disk.place (bytes "profiles.txt")
  apart : ∀ name ∈ profiles.profileMap.keys, ∀ name' ∈ profiles.profileMap.keys,
    disk.place name = disk.place name' → name = name'

/-! ## What every state keeps -/

/-- What is in the log file of a profile is what of its events has not been sent. -/
structure Sound (disk : Disk φ) (profileMap : SortedMap Text Text) (s : Logger φ) : Prop where
  map : s.profiles.profileMap = profileMap
  current : s.profiles.currentProfile = [] ∨ s.profiles.currentProfile ∈ profileMap.keys
  stream : ∀ name ∈ s.logFile, name = s.profiles.currentProfile
  profile : ∀ l ∈ s.logged, l.1 ∈ profileMap.keys
  guid : ∀ r ∈ s.accepted, profileMap.find r.profile = some r.strUID
  file : ∀ name ∈ profileMap.keys, ∀ p, disk.place name = some p → ∃ left,
    (∀ e ∈ left, Readable e) ∧ s.files p = left.flatMap EventRecord.line ∧
      s.loggedUnder name = s.sentUnder name ++ left

variable {disk : Disk φ} {profiles : Profiles} {s : Logger φ}

theorem Sound.delivers (hown : OwnFiles disk profiles) (h : Sound disk profiles.profileMap s) :
    Delivers disk s := by
  refine ⟨h.map ▸ h.profile, fun name hname => ?_, h.map ▸ h.guid⟩
  rw [h.map] at hname
  obtain ⟨p, hplace⟩ := hown.file name hname
  obtain ⟨left, hreadable, hfile, honce⟩ := h.file name hname p hplace
  unfold readable
  rw [hplace]
  simp only
  rw [hfile, readLog_lines hreadable]
  exact honce

theorem sound_start (disk : Disk φ)
    (hcurrent : profiles.currentProfile = [] ∨ profiles.currentProfile ∈ profiles.profileMap.keys) :
    Sound disk profiles.profileMap (start profiles) :=
  { map := rfl
    current := hcurrent
    stream := nofun
    profile := fun _ hl => absurd hl List.not_mem_nil
    guid := fun _ hr => absurd hr List.not_mem_nil
    file := fun _ _ _ _ => ⟨[], fun _ he => absurd he List.not_mem_nil, rfl, rfl⟩ }

/-! ## Files -/

section Put

variable [DecidableEq φ] (s : Logger φ) {name : Text} (contents : Text → Text)

theorem put_of_place {p : φ} (h : disk.place name = some p) :
    put disk s name contents =
      { s with files := Function.update s.files p (contents (s.files p)) } := by
  unfold put
  rw [h]

@[simp] theorem profiles_put : (put disk s name contents).profiles = s.profiles := by
  unfold put
  split <;> rfl

@[simp] theorem logFile_put : (put disk s name contents).logFile = s.logFile := by
  unfold put
  split <;> rfl

@[simp] theorem logged_put : (put disk s name contents).logged = s.logged := by
  unfold put
  split <;> rfl

@[simp] theorem accepted_put : (put disk s name contents).accepted = s.accepted := by
  unfold put
  split <;> rfl

theorem files_put_of_ne {p : φ} (h : disk.place name ≠ some p) :
    (put disk s name contents).files p = s.files p := by
  unfold put
  split
  · rfl
  · rename_i p' hplace
    exact Function.update_of_ne (fun heq : p = p' => h (by rw [heq]; exact hplace)) _ _

end Put

/-! ## The calls -/

variable [DecidableEq φ]

/-- `WriteToLog` adds the event to the file of its profile. -/
theorem Sound.writeToLog (hown : OwnFiles disk profiles) (h : Sound disk profiles.profileMap s)
    {strGUID : Text} (hguid : s.profiles.currentProfile = [] ∨ IStream.IsWord strGUID)
    (nEventType currenttime : Int32) :
    Sound disk profiles.profileMap (s.writeToLog disk strGUID nEventType currenttime) := by
  unfold Logger.writeToLog
  split
  · exact h
  · rename_i hne
    have hword := hguid.resolve_left hne
    have hcurrent := h.current.resolve_left hne
    have hname : s.logFile.getD s.profiles.currentProfile = s.profiles.currentProfile := by
      cases hfile : s.logFile with
      | none => rfl
      | some name => exact h.stream name hfile
    obtain ⟨p, hplace⟩ := hown.file _ hcurrent
    simp only [hname]
    rw [put_of_place _ _ hplace]
    refine ⟨h.map, h.current, ?_, ?_, h.guid, ?_⟩
    · intro name hmem
      exact (Option.some.inj hmem).symm
    · intro l hl
      rcases List.mem_append.mp hl with hl | hl
      · exact h.profile l hl
      · rw [List.mem_singleton.mp hl]
        exact hcurrent
    · intro name hmem p' hplace'
      obtain ⟨left, hreadable, hfile, honce⟩ := h.file name hmem p' hplace'
      by_cases heq : name = s.profiles.currentProfile
      · subst heq
        obtain rfl := Option.some.inj (hplace.symm.trans hplace')
        refine ⟨left ++ [⟨currenttime.toInt, strGUID, nEventType.toInt⟩], ?_, ?_, ?_⟩
        · intro e he
          rcases List.mem_append.mp he with he | he
          · exact hreadable e he
          · rw [List.mem_singleton.mp he]
            exact ⟨hword, ⟨currenttime.le_toInt, Int.le_of_lt_add_one currenttime.toInt_lt⟩,
              nEventType.le_toInt, Int.le_of_lt_add_one nEventType.toInt_lt⟩
        · simp [hfile]
        · unfold loggedUnder sentUnder at honce ⊢
          simp only [List.filter_append, List.map_append, honce, List.append_assoc]
          simp
      · have hpne : p' ≠ p := fun hp =>
          heq (hown.apart name hmem _ hcurrent (by rw [hplace', hplace, hp]))
        refine ⟨left, hreadable, ?_, ?_⟩
        · rw [← hfile]
          exact Function.update_of_ne hpne _ _
        · show loggedUnder _ name = s.sentUnder name ++ left
          rw [← honce]
          unfold loggedUnder
          rw [List.filter_append, List.filter_cons_of_neg (by simpa using Ne.symm heq)]
          simp

theorem Sound.changeProfile (hown : OwnFiles disk profiles) (h : Sound disk profiles.profileMap s)
    (name : Text) : Sound disk profiles.profileMap (s.changeProfile disk name) := by
  unfold Logger.changeProfile
  cases hchange : s.profiles.changeProfile name with
  | none => exact h
  | some profiles' =>
    unfold Profiles.changeProfile at hchange
    split at hchange
    swap
    · exact absurd hchange nofun
    rename_i hmem
    rw [h.map] at hmem
    obtain rfl := Option.some.inj hchange
    refine ⟨?_, ?_, ?_, ?_, ?_, ?_⟩
    · rw [profiles_put]
      exact h.map
    · rw [profiles_put]
      exact .inr hmem
    · rw [profiles_put, logFile_put]
      intro name' hname'
      exact (Option.some.inj hname').symm
    · rw [logged_put]
      exact h.profile
    · rw [accepted_put]
      exact h.guid
    · intro name' hname' p hplace
      obtain ⟨left, hreadable, hfile, honce⟩ := h.file name' hname' p hplace
      refine ⟨left, hreadable, ?_, ?_⟩
      · rw [files_put_of_ne, ← hfile]
        exact fun htxt => hown.txt name' hname' (hplace.trans htxt.symm)
      · unfold loggedUnder sentUnder at honce ⊢
        rw [logged_put, accepted_put]
        exact honce

/-- `SyncLog` sends what is in the file, and empties it if the server accepts. -/
theorem Sound.syncLog (hown : OwnFiles disk profiles) (h : Sound disk profiles.profileMap s)
    (accepts : Bool) : Sound disk profiles.profileMap (s.syncLog disk accepts) := by
  unfold Logger.syncLog
  split
  swap
  · exact h
  rename_i hon
  have hcurrent := h.current.resolve_left hon.2
  obtain ⟨p, hplace⟩ := hown.file _ hcurrent
  obtain ⟨g, hg⟩ : ∃ g, profiles.profileMap.find s.profiles.currentProfile = some g :=
    SortedMap.find_of_mem_keys hcurrent
  obtain ⟨left, hreadable, hfile, honce⟩ := h.file _ hcurrent p hplace
  have hlog : s.readable disk s.profiles.currentProfile = left := by
    unfold readable
    rw [hplace]
    simp only
    rw [hfile, readLog_lines hreadable]
  have hclosed : Sound disk profiles.profileMap { s with logFile := none } :=
    ⟨h.map, h.current, nofun, h.profile, h.guid, h.file⟩
  have hguid : guidOf { s with logFile := none } s.profiles.currentProfile =
      (g, { s with logFile := none }) := by
    unfold guidOf
    rw [h.map, hg]
  simp only [hlog, hguid]
  apply Sound.changeProfile hown
  split
  swap
  · exact hclosed
  split
  swap
  · exact hclosed
  rw [put_of_place _ _ hplace]
  refine ⟨h.map, h.current, nofun, h.profile, ?_, ?_⟩
  · intro r hr
    rcases List.mem_append.mp hr with hr | hr
    · exact h.guid r hr
    · rw [List.mem_singleton.mp hr]
      exact hg
  · intro name hmem p' hplace'
    by_cases heq : name = s.profiles.currentProfile
    · subst heq
      obtain rfl := Option.some.inj (hplace.symm.trans hplace')
      refine ⟨[], fun e he => absurd he List.not_mem_nil, Function.update_self _ _ _, ?_⟩
      show s.loggedUnder _ = sentUnder _ _ ++ []
      rw [honce]
      unfold sentUnder
      simp only [List.filter_append, List.flatMap_append]
      simp
    · obtain ⟨left', hreadable', hfile', honce'⟩ := h.file name hmem p' hplace'
      have hpne : p' ≠ p := fun hp =>
        heq (hown.apart name hmem _ hcurrent (by rw [hplace', hplace, hp]))
      refine ⟨left', hreadable', ?_, ?_⟩
      · rw [← hfile']
        exact Function.update_of_ne hpne _ _
      · show s.loggedUnder _ = sentUnder _ _ ++ left'
        rw [honce']
        unfold sentUnder
        rw [List.filter_append, List.filter_cons_of_neg (by simpa using Ne.symm heq)]
        simp

/-- Under a profile only words are logged as GUIDs. -/
def CallOk (s : Logger φ) : LogCall → Prop
  | .writeToLog strGUID _ _ => s.profiles.currentProfile = [] ∨ IStream.IsWord strGUID
  | .changeProfile _ => True
  | .syncLog _ => True

/-- Every call of a run is so. -/
def RunOk (disk : Disk φ) (s : Logger φ) : List LogCall → Prop
  | [] => True
  | c :: calls => CallOk s c ∧ RunOk disk (s.call disk c) calls

theorem Sound.call (hown : OwnFiles disk profiles) (h : Sound disk profiles.profileMap s)
    {c : LogCall} (hok : CallOk s c) : Sound disk profiles.profileMap (s.call disk c) := by
  cases c with
  | writeToLog strGUID nEventType currenttime => exact h.writeToLog hown hok _ _
  | changeProfile name => exact h.changeProfile hown name
  | syncLog accepts => exact h.syncLog hown accepts

theorem Sound.run (hown : OwnFiles disk profiles) (h : Sound disk profiles.profileMap s)
    {calls : List LogCall} (hok : RunOk disk s calls) :
    Sound disk profiles.profileMap (s.run disk calls) := by
  induction calls generalizing s with
  | nil => exact h
  | cons c calls ih => exact ih (h.call hown hok.1) hok.2

theorem RunOk.take {calls : List LogCall} (h : RunOk disk s calls) (k : Nat) :
    RunOk disk s (calls.take k) := by
  induction calls generalizing s k with
  | nil =>
    rw [List.take_nil]
    trivial
  | cons c calls ih =>
    cases k with
    | zero => trivial
    | succ k => exact ⟨h.1, ih h.2 k⟩

/-- In a run in which only words are logged as GUIDs, every event that has been logged is in
the file of its profile or has been sent once. -/
theorem run_delivers (disk : Disk φ) (profiles : Profiles) (calls : List LogCall)
    (hcurrent : profiles.currentProfile = [] ∨ profiles.currentProfile ∈ profiles.profileMap.keys)
    (hown : OwnFiles disk profiles) (hok : RunOk disk (start profiles) calls) (k : Nat) :
    Delivers disk ((start profiles).run disk (calls.take k)) :=
  ((sound_start disk hcurrent).run hown (hok.take k)).delivers hown

/-! A disk with a file for every name, and an interface with one profile. -/

def plainDisk : Disk Text := ⟨some, 0⟩

def oneProfile : Profiles :=
  ⟨SortedMap.empty.insert (bytes "p") (bytes "G"), bytes "p", [], true⟩

theorem ownFiles_plainDisk : OwnFiles plainDisk oneProfile :=
  { file := fun name _ => ⟨name, rfl⟩
    txt := by
      intro name hmem heq
      have hp : oneProfile.profileMap.keys = [bytes "p"] := rfl
      rw [hp, List.mem_singleton] at hmem
      subst hmem
      exact absurd (Option.some.inj heq) (by decide)
    apart := fun _ _ _ _ => Option.some.inj }

/-- Three events, which the server accepts. -/
def threeEvents : List LogCall :=
  [.writeToLog (bytes "a") 1 1, .writeToLog (bytes "b") 2 2, .writeToLog (bytes "c") 1 3,
    .syncLog true]

theorem run_delivers_three :
    Delivers plainDisk ((start oneProfile).run plainDisk (threeEvents.take 4)) :=
  run_delivers plainDisk oneProfile threeEvents (.inr (by decide)) ownFiles_plainDisk
    ⟨.inr (by decide), .inr (by decide), .inr (by decide), trivial, trivial⟩ 4

/-- An event without a GUID takes the next one with it. -/
theorem run_loses :
    ∃ (disk : Disk Text) (profiles : Profiles) (calls : List LogCall),
      (profiles.currentProfile = [] ∨ profiles.currentProfile ∈ profiles.profileMap.keys) ∧
        OwnFiles disk profiles ∧ ¬ Delivers disk ((start profiles).run disk calls) := by
  refine ⟨plainDisk, oneProfile,
    [.writeToLog (bytes "a") 1 1, .writeToLog (bytes "b") 1 2, .writeToLog [] 1 3,
      .writeToLog (bytes "c") 1 4, .syncLog true], .inr (by decide), ownFiles_plainDisk, ?_⟩
  intro h
  have honce := h.once (bytes "p") (by decide)
  exact absurd honce (by decide)

end Logger

end FreeAmp.Aps.SyncLog
