/-
  Ui/ThemeZipUnpack.lean --- what a round of `DecompressGZ` does.

  `Copied` says what the copying of a file's data leaves, `Unpacked` and `Passed` what a round
  does that another follows, and `Failed` what is there when one returns an error.  `Run` is
  the loop, by what comes of its rounds.
-/
import FreeAmp.Ui.ThemeZip

namespace FreeAmp.Ui

open FreeAmp.Base FreeAmp.Lib

variable {sys : System} {archive dest path r : Text} {u u' : Unpacking}

/-! ## Reading -/

theorem gzread_add (archive : Text) (pos m n : Nat) :
    gzread archive pos (m + n) = gzread archive pos m ++ gzread archive (pos + m) n := by
  unfold gzread
  rw [List.take_add, List.drop_drop]

theorem gzread_length (archive : Text) (pos n : Nat) :
    (gzread archive pos n).length = min n (archive.length - pos) := by
  unfold gzread
  rw [List.length_take, List.length_drop]

/-! ## Copying -/

/-- What copying `size` bytes to a file that holds `old` leaves. -/
structure Copied (sys : System) (archive path : Text) (size : Nat) (u : Unpacking) (old : Text)
    (c : Error × Unpacking) : Prop where
  created : c.2.created = u.created
  headers : c.2.headers = u.headers
  written : c.2.written = u.written
  oneDirectory : c.2.oneDirectory = u.oneDirectory
  others : ∀ p, p ≠ path → c.2.files p = u.files p
  there : ∃ contents, c.2.files path = some contents
  forward : u.pos ≤ c.2.pos
  done : c.1 = .noErr → c.2.pos = u.pos + size ∧
    c.2.files path = some (old ++ gzread archive u.pos size) ∧
      (gzread archive u.pos size).length = size
  goes : (∀ n, sys.short n = none) → u.pos + size ≤ archive.length → c.1 = .noErr

theorem fwrite_file (sys : System) (u : Unpacking) (path block : Text) :
    ∃ put : Text, ((u.fwrite sys path block).2 = block.length → put = block) ∧
      (u.fwrite sys path block).1.files path = some ((u.files path).getD [] ++ put) := by
  unfold Unpacking.fwrite Unpacking.setFile
  cases sys.short u.writes with
  | none => exact ⟨block, fun _ => rfl, if_pos rfl⟩
  | some n =>
    refine ⟨block.take n, fun hfull => List.take_of_length_le ?_, if_pos rfl⟩
    have hmin : (block.take n).length = block.length := hfull
    rw [List.length_take] at hmin
    omega

theorem fwrite_others (sys : System) (u : Unpacking) (block : Text) {p : Text} (h : p ≠ path) :
    (u.fwrite sys path block).1.files p = u.files p := by
  unfold Unpacking.fwrite Unpacking.setFile
  exact if_neg h

theorem fwrite_full (u : Unpacking) (block : Text) (h : ∀ n, sys.short n = none) :
    (u.fwrite sys path block).2 = block.length := by
  unfold Unpacking.fwrite
  rw [h]

theorem copyData_copied (size : Nat) : ∀ {u : Unpacking} {old : Text}, u.files path = some old →
    Copied sys archive path size u old (copyData sys archive path size u) := by
  induction size using Nat.strongRecOn with
  | ind size ih =>
    intro u old hold
    rw [copyData]
    split
    · rename_i hzero
      subst hzero
      have hread : gzread archive u.pos 0 = [] := List.take_zero
      refine ⟨rfl, rfl, rfl, rfl, fun p _ => rfl, ⟨old, hold⟩, Nat.le_refl _, fun _ => ?_,
        fun _ _ => rfl⟩
      rw [hread, List.append_nil]
      exact ⟨rfl, hold, rfl⟩
    · rename_i hsize
      generalize hblock : gzread archive u.pos (min size bufferSize) = block
      have hbuffer : 0 < bufferSize := by decide
      have hlen := gzread_length archive u.pos (min size bufferSize)
      rw [hblock] at hlen
      dsimp only
      split
      · rename_i hshort
        refine ⟨rfl, rfl, rfl, rfl, fun p _ => rfl, ⟨old, hold⟩, Nat.le_add_right _ _,
          fun h => absurd h nofun, fun _ hroom => absurd ?_ hshort⟩
        omega
      · rename_i hfull
        rw [ne_eq, not_not] at hfull
        -- the block is in the file, or the write is reported
        generalize hu₁ : ({ u with pos := u.pos + block.length } : Unpacking) = u₁
        have hold₁ : u₁.files path = some old := by
          rw [← hu₁]
          exact hold
        obtain ⟨put, hput, hfile⟩ := fwrite_file sys u₁ path block
        have hothers : ∀ p, p ≠ path → (u₁.fwrite sys path block).1.files p = u₁.files p :=
          fun p hp => fwrite_others sys u₁ block hp
        rw [hold₁, Option.getD_some] at hfile
        split
        · rename_i hwrite
          subst hu₁
          refine ⟨rfl, rfl, rfl, rfl, hothers, ⟨_, hfile⟩, Nat.le_add_right _ _,
            fun h => absurd h nofun, fun hnone _ => absurd ?_ hwrite⟩
          rw [fwrite_full _ block hnone]
          exact hfull
        · rename_i hwrite
          rw [ne_eq, not_not, ← hfull] at hwrite
          rw [hput hwrite] at hfile
          have hrest := ih (size - min size bufferSize) (by omega) hfile
          subst hu₁
          have hsplit : gzread archive u.pos size = block ++
              gzread archive (u.pos + block.length) (size - min size bufferSize) := by
            rw [hfull, ← hblock, ← gzread_add]
            congr 1
            omega
          refine ⟨hrest.created, hrest.headers, hrest.written, hrest.oneDirectory,
            fun p hp => (hrest.others p hp).trans (hothers p hp), hrest.there,
            Nat.le_trans (Nat.le_add_right _ _) hrest.forward, fun hok => ?_,
            fun hnone hroom => hrest.goes hnone ?_⟩
          · obtain ⟨hpos, hcontents, hlength⟩ := hrest.done hok
            have hpos' : (copyData sys archive path (size - min size bufferSize)
                (Unpacking.fwrite sys { u with pos := u.pos + block.length } path block).1).2.pos =
                  u.pos + block.length + (size - min size bufferSize) := hpos
            refine ⟨by rw [hpos', hfull]; omega, ?_, ?_⟩
            · rw [hcontents, hsplit, List.append_assoc]
              rfl
            · have hlength' : (gzread archive (u.pos + block.length)
                  (size - min size bufferSize)).length = size - min size bufferSize := hlength
              rw [hsplit, List.length_append, hlength', hfull]
              omega
          · show u.pos + block.length + (size - min size bufferSize) ≤ archive.length
            omega

/-! ## A round -/

/-- `typeflag == REGTYPE || typeflag == AREGTYPE` -/
def IsFile (r : Text) : Prop := typeflagOf r = regType ∨ typeflagOf r = aregType

instance (r : Text) : Decidable (IsFile r) := inferInstanceAs (Decidable (_ ∨ _))

/-- What of a file is there when it has been closed. -/
def flushed (sys : System) (n : Nat) (contents : Text) : Text :=
  match sys.flush n with
  | none => contents
  | some k => contents.take k

/-- The data of a file record at a position. -/
def dataOf (archive : Text) (pos : Nat) (r : Text) : Text :=
  gzread archive (pos + recordSize) (sizeOf r).toNat

/-- A file record is unpacked. -/
structure Unpacked (sys : System) (archive dest r : Text) (u u' : Unpacking) : Prop where
  isFile : IsFile r
  opens : sys.opens (unpackPath dest r) = true
  full : (dataOf archive u.pos r).length = (sizeOf r).toNat
  pos : u'.pos = u.pos + recordSize + (sizeOf r).toNat + (padding (sizeOf r)).toNat
  oneDirectory : u'.oneDirectory = u.oneDirectory
  created : u'.created = u.created ++ [unpackPath dest r]
  headers : u'.headers = u.headers ++ [u.pos]
  written : u'.written = u.written ++
    [(unpackPath dest r, flushed sys u.created.length (dataOf archive u.pos r))]
  others : ∀ p, p ≠ unpackPath dest r → u'.files p = u.files p
  file : u'.files (unpackPath dest r) =
    some (flushed sys u.created.length (dataOf archive u.pos r))

/-- A directory record is passed over. -/
structure Passed (r : Text) (u u' : Unpacking) : Prop where
  isDirectory : typeflagOf r = dirType
  first : u.oneDirectory = false
  state : u' = { u with
    pos := u.pos + recordSize, headers := u.headers ++ [u.pos], oneDirectory := true }

/-- The states that `DecompressGZ` cleans up from: a file it has created is there. -/
structure Failed (sys : System) (u v : Unpacking) : Prop where
  created : v.created = u.created ∨ ∃ path, sys.opens path = true ∧ v.created = u.created ++ [path]
  kept : ∀ p, (∃ contents, u.files p = some contents) → ∃ contents, v.files p = some contents
  last : ∀ p ∈ v.created, p ∉ u.created → ∃ contents, v.files p = some contents
  others : ∀ p ∉ v.created, v.files p = u.files p

theorem fclose_files (sys : System) (u : Unpacking) (path p : Text) :
    (u.fclose sys path).files p =
      if p = path then (u.files path).map (flushed sys (u.created.length - 1)) else u.files p := by
  unfold Unpacking.fclose flushed
  cases sys.flush (u.created.length - 1) with
  | none =>
    dsimp only
    split
    · rename_i hp
      rw [hp, Option.map_id']
    · rfl
  | some n => rfl

theorem fclose_frame (sys : System) (u : Unpacking) (path : Text) :
    u.fclose sys path = { u with files := (u.fclose sys path).files } := by
  unfold Unpacking.fclose
  cases sys.flush (u.created.length - 1) <;> rfl

/-- Nothing keeps a file record from being unpacked. -/
structure Clear (sys : System) (archive dest r : Text) (u : Unpacking) : Prop where
  opens : sys.opens (unpackPath dest r) = true
  writes : ∀ n, sys.short n = none
  room : u.pos + recordSize + (sizeOf r).toNat ≤ archive.length

/-- A file that has been created and closed again, its data copied or not. -/
structure Closed (sys : System) (archive dest r : Text) (u : Unpacking) (err : Error)
    (v : Unpacking) : Prop where
  created : v.created = u.created ++ [unpackPath dest r]
  headers : v.headers = u.headers ++ [u.pos]
  written : v.written = u.written
  oneDirectory : v.oneDirectory = u.oneDirectory
  others : ∀ p, p ≠ unpackPath dest r → v.files p = u.files p
  there : ∃ contents, v.files (unpackPath dest r) = some contents
  done : err = .noErr → v.pos = u.pos + recordSize + (sizeOf r).toNat ∧
    v.files (unpackPath dest r) = some (flushed sys u.created.length (dataOf archive u.pos r)) ∧
      (dataOf archive u.pos r).length = (sizeOf r).toNat
  goes : (∀ n, sys.short n = none) → u.pos + recordSize + (sizeOf r).toNat ≤ archive.length →
    err = .noErr

theorem closed_fclose (sys : System) (archive dest : Text) (u₀ : Unpacking)
    (hu : u = { u₀ with pos := u₀.pos + recordSize, headers := u₀.headers ++ [u₀.pos] })
    {c : Error × Unpacking} (hcopied : Copied sys archive (unpackPath dest r) (sizeOf r).toNat
      (u.create (unpackPath dest r)) [] c) :
    Closed sys archive dest r u₀ c.1 (c.2.fclose sys (unpackPath dest r)) := by
  have hcreated : c.2.created = u₀.created ++ [unpackPath dest r] := by
    rw [hcopied.created]
    subst hu
    rfl
  have hindex : c.2.created.length - 1 = u₀.created.length := by
    rw [hcreated, List.length_append]
    rfl
  have hclose := fclose_files sys c.2 (unpackPath dest r)
  have hframe := fclose_frame sys c.2 (unpackPath dest r)
  rw [hindex] at hclose
  have hthere : ∀ {contents}, c.2.files (unpackPath dest r) = some contents →
      (c.2.fclose sys (unpackPath dest r)).files (unpackPath dest r) =
        some (flushed sys u₀.created.length contents) := by
    intro contents hcontents
    rw [hclose, if_pos rfl, hcontents]
    rfl
  refine ⟨?_, ?_, ?_, ?_, fun p hp => ?_, ?_, fun hok => ?_, fun hnone hroom => ?_⟩
  · rw [hframe]
    exact hcreated
  · rw [hframe]
    refine hcopied.headers.trans ?_
    subst hu
    rfl
  · rw [hframe]
    refine hcopied.written.trans ?_
    subst hu
    rfl
  · rw [hframe]
    refine hcopied.oneDirectory.trans ?_
    subst hu
    rfl
  · have hsame : (u.create (unpackPath dest r)).files p = u.files p := if_neg hp
    rw [hclose, if_neg hp, hcopied.others p hp, hsame]
    subst hu
    rfl
  · obtain ⟨contents, hcontents⟩ := hcopied.there
    exact ⟨_, hthere hcontents⟩
  · obtain ⟨hpos, hdata, hfull⟩ := hcopied.done hok
    have hdataOf : gzread archive (u.create (unpackPath dest r)).pos (sizeOf r).toNat =
        dataOf archive u₀.pos r := by
      subst hu
      rfl
    rw [hdataOf, List.nil_append] at hdata
    rw [hdataOf] at hfull
    refine ⟨?_, hthere hdata, hfull⟩
    rw [hframe]
    refine hpos.trans ?_
    subst hu
    rfl
  · refine hcopied.goes hnone ?_
    subst hu
    exact hroom

section Closing

variable {u₀ v : Unpacking} {err : Error}

theorem Closed.unpacked (h : Closed sys archive dest r u₀ .noErr v) (hfile : IsFile r)
    (hopens : sys.opens (unpackPath dest r) = true) :
    Unpacked sys archive dest r u₀ { v with
      pos := v.pos + (padding (sizeOf r)).toNat
      written := v.written ++ [(unpackPath dest r, (v.files (unpackPath dest r)).getD [])] } := by
  obtain ⟨hpos, hthere, hfull⟩ := h.done rfl
  refine ⟨hfile, hopens, hfull, ?_, h.oneDirectory, h.created, h.headers, ?_, h.others, hthere⟩
  · show v.pos + _ = _
    rw [hpos]
  · show v.written ++ [(_, (v.files _).getD [])] = _
    rw [hthere, h.written]
    rfl

theorem Closed.failed (h : Closed sys archive dest r u₀ err v)
    (hopens : sys.opens (unpackPath dest r) = true) : Failed sys u₀ v := by
  refine ⟨.inr ⟨_, hopens, h.created⟩, fun p hp => ?_, fun p hp hnot => ?_, fun p hp => ?_⟩
  · by_cases hpath : p = unpackPath dest r
    · rw [hpath]
      exact h.there
    · rw [h.others p hpath]
      exact hp
  · rw [h.created, List.mem_append] at hp
    rw [List.mem_singleton.mp (hp.resolve_left hnot)]
    exact h.there
  · refine h.others p fun hpath => hp ?_
    rw [h.created, hpath]
    exact List.mem_append_right _ (List.mem_singleton.mpr rfl)

end Closing

theorem unpackFile_cases (sys : System) (archive dest : Text) (u₀ : Unpacking) (hfile : IsFile r)
    (hu : u = { u₀ with pos := u₀.pos + recordSize, headers := u₀.headers ++ [u₀.pos] }) :
    (∃ u', unpackFile sys archive dest r u = .ok u' ∧ Unpacked sys archive dest r u₀ u') ∨
      ∃ err v, unpackFile sys archive dest r u = .error (err, v.cleanup) ∧ err ≠ .noErr ∧
        Failed sys u₀ v ∧ ¬ Clear sys archive dest r u₀ := by
  unfold unpackFile
  dsimp only
  cases hopens : sys.opens (unpackPath dest r) with
  | false =>
    refine .inr ⟨.fileNotFound, u, rfl, nofun, ?_, fun hclear => ?_⟩
    · subst hu
      exact ⟨.inl rfl, fun p h => h, fun p hp hnot => absurd hp hnot, fun p _ => rfl⟩
    · rw [hclear.opens] at hopens
      cases hopens
  | true =>
    have hcreate : (u.create (unpackPath dest r)).files (unpackPath dest r) = some [] := if_pos rfl
    have hclosed := closed_fclose sys archive dest u₀ hu
      (copyData_copied (sizeOf r).toNat hcreate)
    generalize copyData sys archive (unpackPath dest r) (sizeOf r).toNat
      (u.create (unpackPath dest r)) = c at hclosed
    simp only [Bool.not_true, Bool.false_eq_true, if_false]
    by_cases hok : c.1 = .noErr
    · rw [hok] at hclosed
      exact .inl ⟨_, if_neg (not_not.mpr hok), hclosed.unpacked hfile hopens⟩
    · refine .inr ⟨c.1, c.2.fclose sys (unpackPath dest r), if_pos hok, hok,
        hclosed.failed hopens, fun hclear => hok (hclosed.goes hclear.writes hclear.room)⟩

/-- What comes of a round. -/
inductive RoundCases (sys : System) (archive dest : Text) (u : Unpacking) :
    Except (Error × Unpacking) Unpacking → Prop where
  /-- a file is unpacked -/
  | unpacked {r : Text} {u' : Unpacking} : checkHeader archive u.pos = .record r →
      Unpacked sys archive dest r u u' → RoundCases sys archive dest u (.ok u')
  /-- a directory is passed over -/
  | passed {r : Text} {u' : Unpacking} : checkHeader archive u.pos = .record r →
      Passed r u u' → RoundCases sys archive dest u (.ok u')
  /-- the end marker is found -/
  | last : checkHeader archive u.pos = .last → RoundCases sys archive dest u
      (.error (.noErr, { u with pos := u.pos + recordSize, headers := u.headers ++ [u.pos] }))
  /-- something is wrong -/
  | failed {err : Error} {v : Unpacking} : err ≠ .noErr → Failed sys u v →
      (∀ r, checkHeader archive u.pos = .record r → IsFile r → ¬ Clear sys archive dest r u) →
      checkHeader archive u.pos ≠ .last →
      RoundCases sys archive dest u (.error (err, v.cleanup))

theorem decompressRound_cases (sys : System) (archive dest : Text) (u : Unpacking) :
    RoundCases sys archive dest u (decompressRound sys archive dest u) := by
  have hsame : Failed sys u { u with pos := u.pos + recordSize, headers := u.headers ++ [u.pos] } :=
    ⟨.inl rfl, fun p h => h, fun p hp hnot => absurd hp hnot, fun p _ => rfl⟩
  unfold decompressRound
  dsimp only
  cases hheader : checkHeader archive u.pos with
  | short =>
    refine .failed nofun hsame (fun r hr => ?_) (by rw [hheader]; nofun)
    rw [hheader] at hr
    cases hr
  | last => exact .last hheader
  | bad =>
    refine .failed nofun hsame (fun r hr => ?_) (by rw [hheader]; nofun)
    rw [hheader] at hr
    cases hr
  | record r =>
    have hlast : checkHeader archive u.pos ≠ .last := by
      rw [hheader]
      nofun
    have hrecord : ∀ r', checkHeader archive u.pos = .record r' → r' = r := by
      intro r' hr'
      rw [hheader] at hr'
      cases hr'
      rfl
    dsimp only
    split
    · rename_i hfile
      rcases unpackFile_cases sys archive dest u hfile rfl with
        ⟨u', hok, hunpacked⟩ | ⟨err, v, herror, herr, hfailed, hclear⟩
      · rw [hok]
        exact .unpacked hheader hunpacked
      · rw [herror]
        refine .failed herr hfailed (fun r' hr' _ => ?_) hlast
        rw [hrecord r' hr']
        exact hclear
    · rename_i hfile
      split
      · rename_i hdir
        exact .passed hheader ⟨hdir.1, hdir.2, rfl⟩
      · refine .failed nofun hsame (fun r' hr' hr'File => ?_) hlast
        rw [hrecord r' hr'] at hr'File
        exact absurd hr'File hfile

/-! ## The loop -/

/-- A run of the loop, by what comes of its rounds. -/
inductive Run (sys : System) (archive dest : Text) : Unpacking → Error → Unpacking → Prop where
  | unpacked {r : Text} {u u' v : Unpacking} {err : Error} :
      checkHeader archive u.pos = .record r → Unpacked sys archive dest r u u' →
      Run sys archive dest u' err v → Run sys archive dest u err v
  | passed {r : Text} {u u' v : Unpacking} {err : Error} :
      checkHeader archive u.pos = .record r → Passed r u u' →
      Run sys archive dest u' err v → Run sys archive dest u err v
  | last {u : Unpacking} : checkHeader archive u.pos = .last → Run sys archive dest u .noErr
      { u with pos := u.pos + recordSize, headers := u.headers ++ [u.pos] }
  | failed {u v : Unpacking} {err : Error} : err ≠ .noErr → Failed sys u v →
      Run sys archive dest u err v.cleanup

theorem decompressLoop_run {err : Error} {v : Unpacking} : ∀ (fuel : Nat) {u : Unpacking},
    decompressLoop sys archive dest fuel u = some (err, v) → Run sys archive dest u err v := by
  intro fuel
  induction fuel with
  | zero => exact fun h => absurd h nofun
  | succ fuel ih =>
    intro u h
    have hcases := decompressRound_cases sys archive dest u
    rw [decompressLoop] at h
    generalize decompressRound sys archive dest u = round at h hcases
    cases hcases with
    | unpacked hrecord hunpacked => exact .unpacked hrecord hunpacked (ih h)
    | passed hrecord hpassed => exact .passed hrecord hpassed (ih h)
    | last hlast =>
      cases h
      exact .last hlast
    | failed herr hfailed =>
      cases h
      exact .failed herr hfailed

theorem checkHeader_room {pos : Nat} (h : checkHeader archive pos ≠ .short) :
    pos + recordSize ≤ archive.length := by
  unfold checkHeader at h
  dsimp only at h
  have hlen := gzread_length archive pos recordSize
  by_contra hroom
  refine h (if_pos fun hfull => ?_)
  have hsize : recordSize = 512 := by rfl
  omega

end FreeAmp.Ui
