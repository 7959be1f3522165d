/-
  Ui/ThemeZipCleanup.lean --- what `DecompressGZ` leaves when it returns.

  `fileRecords` are the files an archive asks for, and `opened` those of them that are
  created before something fails; both are made from what the call is given, and a run
  creates those files and no others (`decompressLoop_created`).  Cleaning up stops at the
  second of two files of one name, so that what was created behind it stays.
-/
import FreeAmp.Ui.ThemeZipName

namespace FreeAmp.Ui

open FreeAmp.Base FreeAmp.Lib

variable {sys : System} {archive dest path r : Text} {u u' v : Unpacking}

/-! ## The files of an archive -/

/-- A file that an archive asks for: where it is unpacked to, its size, and what the archive
has of its data. -/
structure FileRecord where
  path : Text
  size : Nat
  data : Text

/-- The files from a position on, up to a record that is not read as a header of a file or as
that of the one directory. -/
def fileRecords (archive dest : Text) : Nat → Nat → Bool → List FileRecord
  | 0, _, _ => []
  | fuel + 1, pos, oneDirectory =>
    match checkHeader archive pos with
    | .record r =>
      if IsFile r then
        ⟨unpackPath dest r, (sizeOf r).toNat, dataOf archive pos r⟩ ::
          fileRecords archive dest fuel (nextOf pos r) oneDirectory
      else if typeflagOf r = dirType ∧ oneDirectory = false then
        fileRecords archive dest fuel (pos + recordSize) true
      else []
    | _ => []

/-- How many writes a file of so many bytes takes. -/
def blocks (size : Nat) : Nat := (size + (bufferSize - 1)) / bufferSize

/-- The `n`-th write, of so many bytes, is in full. -/
def writeAll (sys : System) (size n : Nat) : Bool :=
  match sys.short n with
  | none => true
  | some k => decide (size ≤ k)

/-- The writes of a file of so many bytes, from the `n`-th on, are all in full. -/
def writesAll (sys : System) (size n : Nat) : Bool :=
  (List.range (blocks size)).all fun i =>
    writeAll sys (min (size - i * bufferSize) bufferSize) (n + i)

/-- The files that are opened, if `n` writes came before them. -/
def opened (sys : System) : List FileRecord → Nat → List Text
  | [], _ => []
  | f :: records, n =>
    if sys.opens f.path then
      f.path :: if f.data.length = f.size ∧ writesAll sys f.size n = true then
        opened sys records (n + blocks f.size) else []
    else []

/-- A name that is there already is followed by no other that is new. -/
def NoneLeft (paths : List Text) : Prop :=
  ∀ before path after, paths = before ++ path :: after → path ∈ before → ∀ p ∈ after, p ∈ before

/-! ## Cleaning up -/

/-- A name that is there already, or among the `seen`, is followed by no other that is new. -/
def NoneLeftAfter (seen paths : List Text) : Prop :=
  ∀ before path after, paths = before ++ path :: after → path ∈ seen ++ before →
    ∀ p ∈ after, p ∈ seen ++ before

theorem noneLeftAfter_seen {seen paths : List Text} (h : path ∈ seen) :
    NoneLeftAfter seen (path :: paths) ↔ ∀ p ∈ paths, p ∈ seen := by
  constructor
  · intro hnone p hp
    have hseen := hnone [] path paths rfl (List.mem_append_left [] h) p hp
    rwa [List.append_nil] at hseen
  · intro hall before path' after hsplit hpath' p hp
    refine List.mem_append_left before ?_
    cases before with
    | nil =>
      cases hsplit
      exact hall p hp
    | cons q before =>
      cases hsplit
      exact hall p (List.mem_append_right before (List.mem_cons_of_mem path' hp))

theorem noneLeftAfter_new {seen paths : List Text} (h : path ∉ seen) :
    NoneLeftAfter seen (path :: paths) ↔ NoneLeftAfter (seen ++ [path]) paths := by
  constructor
  · intro hnone before path' after hsplit
    rw [List.append_assoc, List.singleton_append]
    exact hnone (path :: before) path' after (congrArg (path :: ·) hsplit)
  · intro hnone before path' after hsplit hpath'
    cases before with
    | nil =>
      cases hsplit
      rw [List.append_nil] at hpath'
      exact absurd hpath' h
    | cons q before =>
      cases hsplit
      have hrest := hnone before path' after rfl
      rw [List.append_assoc, List.singleton_append] at hrest
      exact hrest hpath'

theorem unlinkAll_none {p : Text} : ∀ (paths : List Text) {files : Text → Option Text},
    files p = none → unlinkAll paths files p = none := by
  intro paths
  induction paths with
  | nil => exact fun h => h
  | cons path paths ih =>
    intro files h
    rw [unlinkAll]
    cases files path with
    | none => exact h
    | some contents =>
      refine ih ?_
      rw [h, ite_self]

theorem unlinkAll_iff : ∀ (paths seen : List Text) {files : Text → Option Text},
    (∀ p ∈ seen, files p = none) →
    (∀ p ∈ paths, p ∉ seen → ∃ contents, files p = some contents) →
    ((∀ p ∈ paths, unlinkAll paths files p = none) ↔ NoneLeftAfter seen paths) := by
  intro paths
  induction paths with
  | nil =>
    intro seen files _ _
    refine iff_of_true (fun p hp => absurd hp List.not_mem_nil) ?_
    intro before path after hsplit
    exact absurd hsplit.symm (List.append_ne_nil_of_right_ne_nil _ (List.cons_ne_nil _ _))
  | cons path paths ih =>
    intro seen files hseen hthere
    rw [unlinkAll]
    by_cases hpath : path ∈ seen
    · -- the file is gone already, and nothing else is unlinked
      rw [hseen path hpath, noneLeftAfter_seen hpath]
      constructor
      · intro hnone p hp
        by_contra hnot
        obtain ⟨contents, hcontents⟩ := hthere p (List.mem_cons_of_mem path hp) hnot
        have hgone : files p = none := hnone p (List.mem_cons_of_mem path hp)
        rw [hcontents] at hgone
        cases hgone
      · intro hall p hp
        rcases List.mem_cons.mp hp with rfl | hp
        · exact hseen p hpath
        · exact hseen p (hall p hp)
    · obtain ⟨contents, hcontents⟩ := hthere path List.mem_cons_self hpath
      rw [hcontents, noneLeftAfter_new hpath]
      dsimp only
      have hgone : (fun p => if p = path then none else files p) path = none := if_pos rfl
      rw [← @ih (seen ++ [path]) fun p => if p = path then none else files p]
      · constructor
        · exact fun hall p hp => hall p (List.mem_cons_of_mem path hp)
        · intro hall p hp
          rcases List.mem_cons.mp hp with rfl | hp
          · exact unlinkAll_none paths hgone
          · exact hall p hp
      · intro p hp
        rcases List.mem_append.mp hp with hp | hp
        · show (if p = path then none else files p) = none
          rw [hseen p hp, ite_self]
        · rw [List.mem_singleton.mp hp]
          exact hgone
      · intro p hp hnot
        have hother : p ≠ path := fun heq =>
          hnot (List.mem_append_right seen (List.mem_singleton.mpr heq))
        have hold : p ∉ seen := fun hin => hnot (List.mem_append_left [path] hin)
        obtain ⟨contents', hcontents'⟩ := hthere p (List.mem_cons_of_mem path hp) hold
        exact ⟨contents', (if_neg hother).trans hcontents'⟩

/-- Of files that are there, all are unlinked exactly if no new name follows a repeated one. -/
theorem cleanup_iff (h : ∀ p ∈ v.created, ∃ contents, v.files p = some contents) :
    (∀ p ∈ v.cleanup.created, v.cleanup.files p = none) ↔ NoneLeft v.created := by
  have hiff := @unlinkAll_iff v.created [] v.files (fun p hp => absurd hp List.not_mem_nil)
    fun p hp _ => h p hp
  exact hiff

/-! ## What is created -/

theorem writesAll_iff (size n : Nat) : writesAll sys size n = true ↔ ∀ i < blocks size,
    writeAll sys (min (size - i * bufferSize) bufferSize) (n + i) = true := by
  unfold writesAll
  rw [List.all_eq_true]
  simp only [List.mem_range]

theorem blocks_zero : blocks 0 = 0 := by decide

theorem blocks_pos {size : Nat} (h : size ≠ 0) :
    blocks size = blocks (size - min size bufferSize) + 1 := by
  unfold blocks bufferSize
  omega

/-- The writes of a file are its first and the ones behind. -/
theorem writesAll_pos {size : Nat} (n : Nat) (h : size ≠ 0) : writesAll sys size n = true ↔
    writeAll sys (min size bufferSize) n = true ∧
      writesAll sys (size - min size bufferSize) (n + 1) = true := by
  have hrest : ∀ i, size - (i + 1) * bufferSize = size - min size bufferSize - i * bufferSize := by
    intro i
    unfold bufferSize
    omega
  rw [writesAll_iff, writesAll_iff, blocks_pos h]
  constructor
  · intro hall
    refine ⟨?_, fun i hi => ?_⟩
    · have hfirst := hall 0 (Nat.succ_pos _)
      rwa [Nat.zero_mul, Nat.sub_zero, Nat.add_zero] at hfirst
    · have hnext := hall (i + 1) (Nat.succ_lt_succ hi)
      rwa [hrest, ← Nat.add_assoc, Nat.add_right_comm] at hnext
  · rintro ⟨hfirst, hall⟩ i hi
    cases i with
    | zero => rwa [Nat.zero_mul, Nat.sub_zero, Nat.add_zero]
    | succ i =>
      rw [hrest, ← Nat.add_assoc, Nat.add_right_comm]
      exact hall i (Nat.lt_of_succ_lt_succ hi)

theorem fwrite_full_iff (u : Unpacking) (path block : Text) :
    (u.fwrite sys path block).2 = block.length ↔ writeAll sys block.length u.writes = true := by
  unfold Unpacking.fwrite writeAll
  cases sys.short u.writes with
  | none => exact iff_of_true rfl rfl
  | some k =>
    dsimp only
    rw [List.length_take, decide_eq_true_eq]
    omega

/-- When a file is copied in full, and how many writes that takes. -/
theorem copyData_ok_iff (size : Nat) : ∀ {u : Unpacking},
    ((copyData sys archive path size u).1 = .noErr ↔
      (gzread archive u.pos size).length = size ∧ writesAll sys size u.writes = true) ∧
      ((copyData sys archive path size u).1 = .noErr →
        (copyData sys archive path size u).2.writes = u.writes + blocks size) := by
  induction size using Nat.strongRecOn with
  | ind size ih =>
    intro u
    rw [copyData]
    split
    · rename_i hzero
      subst hzero
      refine ⟨iff_of_true rfl ⟨rfl, ?_⟩, fun _ => ?_⟩
      · rw [writesAll_iff, blocks_zero]
        exact fun i hi => absurd hi (Nat.not_lt_zero i)
      · rw [blocks_zero]
        rfl
    · rename_i hsize
      have hsum : size = min size bufferSize + (size - min size bufferSize) := by omega
      have hread : (gzread archive u.pos size).length =
          (gzread archive u.pos (min size bufferSize)).length +
            (gzread archive (u.pos + min size bufferSize)
              (size - min size bufferSize)).length := by
        rw [← List.length_append, ← gzread_add, ← hsum]
      have hless := gzread_length archive (u.pos + min size bufferSize)
        (size - min size bufferSize)
      generalize hblock : gzread archive u.pos (min size bufferSize) = block at hread
      dsimp only
      split
      · rename_i hshort
        have hlen := gzread_length archive u.pos (min size bufferSize)
        rw [hblock] at hlen
        refine ⟨iff_of_false (fun hok => by cases hok) fun hfull => ?_, fun hok => by cases hok⟩
        omega
      · rename_i hfull
        rw [ne_eq, not_not] at hfull
        have hwrite := @fwrite_full_iff sys
          { u with pos := u.pos + block.length } path block
        rw [hfull] at hwrite
        rw [writesAll_pos u.writes hsize]
        split
        · rename_i hnot
          refine ⟨iff_of_false (fun hok => by cases hok) fun hall => hnot ?_,
            fun hok => by cases hok⟩
          rw [hfull]
          exact hwrite.mpr hall.2.1
        · rename_i hall
          rw [ne_eq, not_not, hfull] at hall
          have hbuffer : 0 < bufferSize := by decide
          obtain ⟨hok, hwrites⟩ := @ih (size - min size bufferSize) (by omega)
            (Unpacking.fwrite sys { u with pos := u.pos + block.length } path block).1
          have hpos : (Unpacking.fwrite sys
              { u with pos := u.pos + block.length } path block).1.pos =
                u.pos + min size bufferSize := by
            rw [← hfull]
            rfl
          have hcount : (Unpacking.fwrite sys
              { u with pos := u.pos + block.length } path block).1.writes = u.writes + 1 := by
            rfl
          rw [hpos, hcount] at hok
          rw [hcount] at hwrites
          refine ⟨hok.trans ?_, fun hdone => ?_⟩
          · rw [hread]
            constructor
            · rintro ⟨hlen, hrest⟩
              exact ⟨by omega, hwrite.mp hall, hrest⟩
            · rintro ⟨hlen, -, hrest⟩
              exact ⟨by omega, hrest⟩
          · rw [hwrites hdone, blocks_pos hsize]
            omega

/-- A file is created if it can be, and unpacked if its data are there and can be written. -/
theorem unpackFile_opened (archive : Text) (u : Unpacking)
    (hopens : sys.opens (unpackPath dest r) = true) :
    ((gzread archive u.pos (sizeOf r).toNat).length = (sizeOf r).toNat ∧
        writesAll sys (sizeOf r).toNat u.writes = true →
      ∃ u', unpackFile sys archive dest r u = .ok u' ∧
        u'.writes = u.writes + blocks (sizeOf r).toNat) ∧
    (¬ ((gzread archive u.pos (sizeOf r).toNat).length = (sizeOf r).toNat ∧
        writesAll sys (sizeOf r).toNat u.writes = true) →
      ∃ err v, unpackFile sys archive dest r u = .error (err, v) ∧
        v.created = u.created ++ [unpackPath dest r]) := by
  have hcreate : (u.create (unpackPath dest r)).files (unpackPath dest r) = some [] := if_pos rfl
  have hcopied : Copied sys archive (unpackPath dest r) (sizeOf r).toNat
      (u.create (unpackPath dest r)) [] _ := copyData_copied (sizeOf r).toNat hcreate
  obtain ⟨hok, hwrites⟩ := @copyData_ok_iff sys archive (unpackPath dest r) (sizeOf r).toNat
    (u.create (unpackPath dest r))
  have hpos : (u.create (unpackPath dest r)).pos = u.pos := by rfl
  have hcount : (u.create (unpackPath dest r)).writes = u.writes := by rfl
  rw [hpos, hcount] at hok
  rw [hcount] at hwrites
  rw [← hok]
  unfold unpackFile
  dsimp only
  rw [hopens, if_neg (by decide)]
  generalize copyData sys archive (unpackPath dest r) (sizeOf r).toNat
    (u.create (unpackPath dest r)) = c at hcopied hwrites
  have hframe := fclose_frame sys c.2 (unpackPath dest r)
  constructor
  · intro hdone
    rw [if_neg (not_not.mpr hdone)]
    refine ⟨_, rfl, ?_⟩
    show (c.2.fclose sys (unpackPath dest r)).writes = _
    rw [hframe]
    exact hwrites hdone
  · intro hdone
    rw [if_pos hdone]
    refine ⟨_, _, rfl, ?_⟩
    show (c.2.fclose sys (unpackPath dest r)).created = _
    rw [hframe]
    exact hcopied.created

/-- The files that will have been created when the loop is left. -/
def toOpen (sys : System) (archive dest : Text) (fuel : Nat) (u : Unpacking) : List Text :=
  u.created ++ opened sys (fileRecords archive dest fuel u.pos u.oneDirectory) u.writes

theorem fileRecords_file (fuel : Nat) (hheader : checkHeader archive u.pos = .record r)
    (hfile : IsFile r) : fileRecords archive dest (fuel + 1) u.pos u.oneDirectory =
      ⟨unpackPath dest r, (sizeOf r).toNat, dataOf archive u.pos r⟩ ::
        fileRecords archive dest fuel (nextOf u.pos r) u.oneDirectory := by
  rw [fileRecords, hheader]
  exact if_pos hfile

/-- Unpacking a file leaves what will have been created as it is. -/
theorem unpackFile_toOpen (fuel : Nat) (hheader : checkHeader archive u.pos = .record r)
    (hfile : IsFile r) :
    match unpackFile sys archive dest r
        { u with pos := u.pos + recordSize, headers := u.headers ++ [u.pos] } with
    | .ok u' => toOpen sys archive dest fuel u' = toOpen sys archive dest (fuel + 1) u
    | .error result => result.2.created = toOpen sys archive dest (fuel + 1) u := by
  have hcases := unpackFile_cases sys archive dest u hfile rfl
  generalize hu₁ : ({ u with
    pos := u.pos + recordSize, headers := u.headers ++ [u.pos] } : Unpacking) = u₁ at hcases ⊢
  have hcreated₁ : u₁.created = u.created := by rw [← hu₁]
  have hwrites₁ : u₁.writes = u.writes := by rw [← hu₁]
  have hdata : gzread archive u₁.pos (sizeOf r).toNat = dataOf archive u.pos r := by
    rw [← hu₁]
    rfl
  unfold toOpen
  rw [fileRecords_file fuel hheader hfile, opened]
  dsimp only
  cases hopens : sys.opens (unpackPath dest r) with
  | false =>
    have herror : unpackFile sys archive dest r u₁ = .error (.fileNotFound, u₁.cleanup) := by
      unfold unpackFile
      dsimp only
      rw [hopens]
      rfl
    rw [herror]
    show u₁.created = _
    rw [hcreated₁, if_neg Bool.false_ne_true, List.append_nil]
  | true =>
    obtain ⟨hunpacks, hfails⟩ := unpackFile_opened archive u₁ hopens
    rw [hdata, hwrites₁] at hunpacks hfails
    rw [hcreated₁] at hfails
    rw [if_pos rfl]
    by_cases hall : (dataOf archive u.pos r).length = (sizeOf r).toNat ∧
        writesAll sys (sizeOf r).toNat u.writes = true
    · obtain ⟨u', hok, hwrites'⟩ := hunpacks hall
      rw [hok] at hcases ⊢
      rw [if_pos hall, ← hwrites']
      rcases hcases with ⟨u₂, heq, hunpacked⟩ | ⟨err, v, heq, -⟩
      · cases heq
        show u'.created ++ _ = _
        rw [hunpacked.created, hunpacked.oneDirectory, hunpacked.pos, List.append_assoc,
          List.singleton_append]
        rfl
      · cases heq
    · obtain ⟨err, v, herror, hcreated⟩ := hfails hall
      rw [herror, if_neg hall]
      exact hcreated

/-- A round leaves what will have been created as it is. -/
theorem decompressRound_toOpen (fuel : Nat) (u : Unpacking) :
    match decompressRound sys archive dest u with
    | .ok u' => toOpen sys archive dest fuel u' = toOpen sys archive dest (fuel + 1) u
    | .error result => result.2.created = toOpen sys archive dest (fuel + 1) u := by
  have hnone : fileRecords archive dest (fuel + 1) u.pos u.oneDirectory = [] →
      u.created = toOpen sys archive dest (fuel + 1) u := by
    intro hrecords
    unfold toOpen
    rw [hrecords, opened, List.append_nil]
  unfold decompressRound
  dsimp only
  cases hheader : checkHeader archive u.pos with
  | short | last | bad =>
    refine hnone ?_
    rw [fileRecords, hheader]
  | record r =>
    dsimp only
    by_cases hfile : IsFile r
    · rw [if_pos (show typeflagOf r = regType ∨ typeflagOf r = aregType from hfile)]
      exact unpackFile_toOpen fuel hheader hfile
    · rw [if_neg (show ¬ (typeflagOf r = regType ∨ typeflagOf r = aregType) from hfile)]
      by_cases hdir : typeflagOf r = dirType ∧ u.oneDirectory = false
      · rw [if_pos hdir]
        unfold toOpen
        rw [fileRecords, hheader]
        dsimp only
        rw [if_neg hfile, if_pos hdir]
      · rw [if_neg hdir]
        refine hnone ?_
        rw [fileRecords, hheader]
        dsimp only
        rw [if_neg hfile, if_neg hdir]

/-- A run creates the files that are opened, and no others. -/
theorem decompressLoop_created {err : Error} : ∀ (fuel : Nat) {u : Unpacking},
    decompressLoop sys archive dest fuel u = some (err, v) →
      v.created = toOpen sys archive dest fuel u := by
  intro fuel
  induction fuel with
  | zero => exact fun h => absurd h nofun
  | succ fuel ih =>
    intro u h
    have hround := @decompressRound_toOpen sys archive dest fuel u
    rw [decompressLoop] at h
    split at h
    · rename_i r herror
      rw [herror] at hround
      cases h
      exact hround
    · rename_i u' hok
      rw [hok] at hround
      rw [ih h]
      exact hround

/-- What a run that fails cleans up from: every file it has created is there. -/
theorem Run.failed_there {err : Error} (h : Run sys archive dest u err v) (herr : err ≠ .noErr)
    (hthere : ∀ p ∈ u.created, ∃ contents, u.files p = some contents) :
    ∃ w : Unpacking, v = w.cleanup ∧ ∀ p ∈ w.created, ∃ contents, w.files p = some contents := by
  induction h with
  | @unpacked r u u' v err hrecord hunpacked _ ih =>
    refine ih herr fun p hp => ?_
    by_cases hpath : p = unpackPath dest r
    · rw [hpath]
      exact ⟨_, hunpacked.file⟩
    · rw [hunpacked.created, List.mem_append] at hp
      rw [hunpacked.others p hpath]
      exact hthere p (hp.resolve_right fun hone => hpath (List.mem_singleton.mp hone))
  | passed hrecord hpassed _ ih =>
    refine ih herr fun p hp => ?_
    rw [hpassed.state] at hp ⊢
    exact hthere p hp
  | last hlast => exact absurd rfl herr
  | @failed u w err _ hfailed =>
    refine ⟨w, rfl, fun p hp => ?_⟩
    by_cases hold : p ∈ u.created
    · exact hfailed.kept p (hthere p hold)
    · exact hfailed.last p hp hold

/-! ## What is written -/

/-- The files as they are when they have been closed, if the first is the `n`-th of all. -/
def closed (sys : System) (records : List FileRecord) (n : Nat) : List (Text × Text) :=
  records.mapIdx fun i f => (f.path, flushed sys (n + i) f.data)

theorem closed_cons (f : FileRecord) (records : List FileRecord) (n : Nat) :
    closed sys (f :: records) n = (f.path, flushed sys n f.data) :: closed sys records (n + 1) := by
  unfold closed
  rw [List.mapIdx_cons]
  simp only [Nat.add_zero, Nat.add_assoc, Nat.add_comm 1]

/-- A run that succeeds has written all the files of the archive, as far as they were flushed. -/
theorem decompressLoop_written : ∀ (fuel : Nat) {u : Unpacking},
    decompressLoop sys archive dest fuel u = some (.noErr, v) →
      v.written = u.written ++
        closed sys (fileRecords archive dest fuel u.pos u.oneDirectory) u.created.length ∧
      ∀ f ∈ fileRecords archive dest fuel u.pos u.oneDirectory, f.data.length = f.size := by
  intro fuel
  induction fuel with
  | zero => exact fun h => absurd h nofun
  | succ fuel ih =>
    intro u h
    have hcases := decompressRound_cases sys archive dest u
    rw [decompressLoop] at h
    generalize decompressRound sys archive dest u = round at h hcases
    rw [fileRecords]
    cases hcases with
    | unpacked hrecord hunpacked =>
      obtain ⟨hwritten, hfull⟩ := ih h
      rw [hunpacked.written, hunpacked.created, hunpacked.pos, hunpacked.oneDirectory,
        List.length_append, List.length_singleton, List.append_assoc,
        List.singleton_append] at hwritten
      rw [hunpacked.pos, hunpacked.oneDirectory] at hfull
      rw [hrecord]
      dsimp only
      rw [if_pos hunpacked.isFile, closed_cons]
      refine ⟨hwritten, fun f hf => ?_⟩
      rcases List.mem_cons.mp hf with rfl | hf
      · exact hunpacked.full
      · exact hfull f hf
    | @passed r u' hrecord hpassed =>
      have hfile : ¬ IsFile r := fun hfile => dirType_of_isFile hfile hpassed.isDirectory
      have hrest := ih h
      rw [hpassed.state] at hrest
      rw [hrecord]
      dsimp only
      rw [if_neg hfile, if_pos ⟨hpassed.isDirectory, hpassed.first⟩]
      exact hrest
    | last hlast =>
      cases h
      rw [hlast]
      exact ⟨(List.append_nil _).symm, fun f hf => absurd hf List.not_mem_nil⟩
    | failed herr =>
      cases h
      exact absurd rfl herr

theorem flushed_eq_iff (n : Nat) (contents : Text) :
    flushed sys n contents = contents ↔ ∀ k, sys.flush n = some k → contents.length ≤ k := by
  unfold flushed
  cases sys.flush n with
  | none => exact iff_of_true rfl nofun
  | some k =>
    dsimp only
    rw [List.take_eq_self_iff]
    simp

/-- Nothing is lost when the files are closed. -/
def FlushesAll (sys : System) (records : List FileRecord) : Prop :=
  ∀ i f, records[i]? = some f → ∀ k, sys.flush i = some k → f.data.length ≤ k

theorem closed_eq_iff (records : List FileRecord) :
    closed sys records 0 = records.map (fun f => (f.path, f.data)) ↔ FlushesAll sys records := by
  have hat : ∀ i : Nat, (closed sys records 0)[i]? =
      (records.map fun f => (f.path, f.data))[i]? ↔
        ∀ f, records[i]? = some f → ∀ k, sys.flush i = some k → f.data.length ≤ k := by
    intro i
    unfold closed
    rw [List.getElem?_mapIdx, List.getElem?_map]
    cases records[i]? with
    | none => exact iff_of_true rfl nofun
    | some f =>
      simp [flushed_eq_iff]
  rw [List.ext_getElem?_iff]
  exact forall_congr' hat

/-! ## What a call leaves -/

/-- No file that was created is left. -/
def NothingLeft (u : Unpacking) : Prop := ∀ p ∈ u.created, u.files p = none

/-- Every file has been written in full. -/
def AllWritten (records : List FileRecord) (u : Unpacking) : Prop :=
  u.written = records.map (fun f => (f.path, f.data)) ∧ ∀ f ∈ records, f.data.length = f.size

/-- A call that returns an error leaves nothing exactly if no new name follows a repeated one
among the files that are opened, and one that returns none has written all the files exactly
if nothing was lost when they were closed. -/
theorem decompressGZ_leaves {files : Text → Option Text} {fuel : Nat} {err : Error}
    (h : decompressGZ sys archive dest files fuel = some (err, u)) :
    (err ≠ .noErr → (NothingLeft u ↔
      NoneLeft (opened sys (fileRecords archive dest fuel 0 false) 0))) ∧
    (err = .noErr → (AllWritten (fileRecords archive dest fuel 0 false) u ↔
      FlushesAll sys (fileRecords archive dest fuel 0 false))) := by
  constructor
  · intro herr
    have hcreated := decompressLoop_created fuel h
    obtain ⟨w, hw, hthere⟩ := (decompressLoop_run fuel h).failed_there herr
      fun p hp => absurd hp List.not_mem_nil
    rw [hw] at hcreated ⊢
    have hopened : w.created = opened sys (fileRecords archive dest fuel 0 false) 0 := hcreated
    rw [← hopened]
    exact cleanup_iff hthere
  · intro herr
    rw [herr] at h
    obtain ⟨hwritten, hfull⟩ := decompressLoop_written fuel h
    unfold AllWritten
    rw [hwritten]
    exact (and_iff_left hfull).trans (closed_eq_iff _)

theorem decompressGZ_leaves_plain :
    let archive := [plainSource].flatMap (Source.packed clock) ++
      (List.replicate recordSize 0 ++ [])
    ∃ fuel u, decompressGZ workingSystem archive (bytes "/t") (fun _ => none) fuel =
        some (.noErr, u) ∧
      ((Error.noErr ≠ .noErr → (NothingLeft u ↔
        NoneLeft (opened workingSystem (fileRecords archive (bytes "/t") fuel 0 false) 0))) ∧
      (Error.noErr = .noErr → (AllWritten (fileRecords archive (bytes "/t") fuel 0 false) u ↔
        FlushesAll workingSystem (fileRecords archive (bytes "/t") fuel 0 false)))) := by
  intro archive
  have hpackable : ∀ f ∈ [plainSource], Packable clock f := by
    simp [plainSource_packable]
  have hsum : 0 ≤ recordSum (plainSource.blank clock) := by decide +kernel
  have hsums : ∀ f ∈ [plainSource], 0 ≤ recordSum (f.blank clock) := by
    simp [hsum]
  obtain ⟨fuel, u, hrun⟩ := packed_accepted hpackable (List.nodup_singleton _) hsums (bytes "/t")
  exact ⟨fuel, u, hrun, decompressGZ_leaves hrun⟩

theorem checkHeader_short {pos : Nat} (h : archive.length < pos + recordSize) :
    checkHeader archive pos = .short := by
  have hlen := gzread_length archive pos recordSize
  have hsize : recordSize = 512 := by rfl
  unfold checkHeader
  dsimp only
  exact if_pos (by omega)

/-- A file `b` of one byte. -/
def otherSource : Source := ⟨bytes "/b", [1]⟩

theorem otherSource_packable : Packable clock otherSource :=
  ⟨by decide, by decide, by decide, by decide, by decide⟩

/-- Files `a`, `a` and `b`, and no end marker: `b` is left. -/
theorem new_name_left :
    let archive := [plainSource, plainSource, otherSource].flatMap (Source.packed clock)
    ∃ fuel u, decompressGZ workingSystem archive (bytes "/t") (fun _ => none) fuel =
        some (.readFile, u) ∧ ¬ NothingLeft u := by
  intro archive
  have hpackable : ∀ f ∈ [plainSource, plainSource, otherSource], Packable clock f := by
    simp [plainSource_packable, otherSource_packable]
  have hplain : 0 ≤ recordSum (plainSource.blank clock) := by decide +kernel
  have hother : 0 ≤ recordSum (otherSource.blank clock) := by decide +kernel
  have hsums : ∀ f ∈ [plainSource, plainSource, otherSource], 0 ≤ recordSum (f.blank clock) := by
    simp [hplain, hother]
  have hworks : Works workingSystem (bytes "/t") [plainSource, plainSource, otherSource] :=
    ⟨fun _ _ => rfl, fun _ => rfl, fun _ => rfl⟩
  obtain ⟨u', hpos', hcreated', -, -, hloop'⟩ := run_files (u := unpacking fun _ => none) _ [] []
    hworks hpackable hsums rfl
  have hshort : checkHeader archive u'.pos = .short :=
    checkHeader_short (by rw [hpos', List.nil_append]; exact Nat.lt_add_of_pos_right (by decide))
  have hround : decompressRound workingSystem archive (bytes "/t") u' = .error (.readFile,
      Unpacking.cleanup { u' with
        pos := u'.pos + recordSize, headers := u'.headers ++ [u'.pos] }) := by
    unfold decompressRound
    rw [hshort]
  have hrun : decompressGZ workingSystem archive (bytes "/t") (fun _ => none) (3 + 1) =
      some (.readFile, Unpacking.cleanup { u' with
        pos := u'.pos + recordSize, headers := u'.headers ++ [u'.pos] }) := by
    have hloop := hloop' 1
    rw [List.nil_append, List.append_nil] at hloop
    refine hloop.trans ?_
    rw [decompressLoop, hround]
  refine ⟨3 + 1, _, hrun, fun hleft => ?_⟩
  obtain ⟨w, hw, hthere⟩ := (decompressLoop_run (3 + 1) hrun).failed_there (by decide)
    fun p hp => absurd hp List.not_mem_nil
  have hcreated : w.created = u'.created := (congrArg Unpacking.created hw).symm
  have hnone : NoneLeft w.created := (cleanup_iff hthere).mp (hw ▸ hleft)
  rw [hcreated, hcreated'] at hnone
  have hnew := hnone [bytes "/t/a"] (bytes "/t/a") [bytes "/t/b"] (by decide) (by decide)
    (bytes "/t/b") (by decide)
  exact absurd hnew (by decide)

end FreeAmp.Ui
