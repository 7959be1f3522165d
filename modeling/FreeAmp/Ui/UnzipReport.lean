/-
  Ui/UnzipReport.lean --- what `DecompressZip` says of the entries it has extracted.

  `zip_file_uncompress_all` returns minus the number of the entries that failed, and
  `DecompressZip` takes every number but 0 for success.  So it reports no error of an entry
  (`decompressZip_noErr`), and is right about the archives without one.
-/
import FreeAmp.Ui.Unzip

namespace FreeAmp.Ui

open FreeAmp.Base FreeAmp.Lib

/-! ## Entries -/

/-- What is assumed of `inflate`: a well-formed stream is decoded until there is no more room
or its end is found, and what stands behind it has no part in that.  `raw` gives the data of
the streams that are well-formed, and `pending` says what is left of the stream and the
data. -/
structure RawDeflate (z : Zlib) (raw : Text → Option Text)
    (pending : z.Stream → Text → Text → Prop) : Prop where
  start : ∀ s d, raw s = some d → pending z.start s d
  step : ∀ stream rest todo room, pending stream rest todo → 0 < room → ∀ more,
    let r := z.inflate stream (rest ++ more) room
    (r.status = zStreamEnd ∧ r.out = todo) ∨
      (r.status = zOk ∧ r.out.length = room ∧ r.used ≤ rest.length ∧
        ∃ todo', todo = r.out ++ todo' ∧ pending r.state (rest.drop r.used) todo')

section Report

variable {z : Zlib} {raw : Text → Option Text} {pending : z.Stream → Text → Text → Prop}
variable {sys : ZipSystem} {archive dest : Text} {h : ZipCDR} {records : List ZipCDR}

/-- The contents of an entry: none if its header is not one, if its data are missing or cut
off, if its method is unknown, or if its data are no stream. -/
def contentsOf (raw : Text → Option Text) (sys : ZipSystem) (archive : Text) (h : ZipCDR) :
    Option Text :=
  if 2147483648 ≤ h.place then none
  else
    match readLocalHeader sys archive h.place with
    | none => none
    | some pos =>
      let data := gzread archive pos h.csize
      if h.csize = 0 ∨ data.length ≠ h.csize then none
      else if h.method = 8 then raw data
      else if h.method = 0 then some data
      else none

/-- The file that an entry should become. -/
def wanted (raw : Text → Option Text) (sys : ZipSystem) (archive dest : Text) (h : ZipCDR) :
    Option (Text × Text) :=
  match h.filename, contentsOf raw sys archive h with
  | some filename, some contents => some (unzipPath dest filename 3, contents)
  | _, _ => none

/-- Every entry has been extracted completely, with the right contents. -/
def AllExtracted (raw : Text → Option Text) (sys : ZipSystem) (archive dest : Text)
    (records : List ZipCDR) (s : Unzipping) : Prop :=
  s.closed.map some = records.map (wanted raw sys archive dest)

/-- `DecompressZip` returns, and `kError_NoErr` if and only if every entry has been
extracted. -/
def Reports (z : Zlib) (raw : Text → Option Text) (sys : ZipSystem) (archive dest : Text)
    (records : List ZipCDR) : Prop :=
  ∃ fuel s err, decompressZip z sys archive dest records fuel = .ok (s, some err) ∧
    (err = .noErr ↔ AllExtracted raw sys archive dest records s)

/-- An entry that can be extracted. -/
structure Extractable (raw : Text → Option Text) (sys : ZipSystem) (archive dest : Text)
    (h : ZipCDR) : Prop where
  file : ∃ filename, h.filename = some filename ∧
    (unzipPath dest filename 3).length < fnameMax ∧ sys.opens (unzipPath dest filename 3) = true
  contents : ∃ contents, contentsOf raw sys archive h = some contents

/-! ## Inflating -/

theorem inflateLoop_pending (hz : RawDeflate z raw pending) (compr : Text) : ∀ (fuel : Nat)
    (more unCompr file : Text) {stream : z.Stream} {rest todo : Text}, pending stream rest todo →
      unCompr.length < inflateSize → todo.length < fuel →
      inflateLoop z compr fuel stream (rest ++ more) unCompr file =
        some (zOk, file ++ unCompr ++ todo) := by
  intro fuel
  induction fuel with
  | zero => exact fun _ _ _ _ _ _ _ _ h => absurd h (Nat.not_lt_zero _)
  | succ fuel ih =>
    intro more unCompr file stream rest todo hpending hroom hfuel
    have hpos : 0 < inflateSize - unCompr.length := Nat.sub_pos_of_lt hroom
    have hstep := hz.step stream rest todo _ hpending hpos more
    rw [inflateLoop]
    dsimp only at hstep ⊢
    generalize z.inflate stream (rest ++ more) (inflateSize - unCompr.length) = r at hstep ⊢
    rcases hstep with ⟨hstatus, hout⟩ | ⟨hstatus, hout, hused, todo', htodo, hnext⟩
    · rw [if_pos hstatus, hout, List.append_assoc]
    · have hend : ¬ r.status = zStreamEnd := by
        rw [hstatus]
        decide
      have hlen : todo.length = r.out.length + todo'.length := by
        rw [htodo, List.length_append]
      have hfull : ¬ (unCompr ++ r.out).length < inflateSize := by
        rw [List.length_append]
        omega
      rw [if_neg hend, if_neg (not_not.mpr hstatus), if_neg hfull,
        List.drop_append_of_le_length hused]
      -- the input that there is, or the same again
      have hempty : 0 < inflateSize := Nat.lt_of_le_of_lt (Nat.zero_le _) hroom
      have hrest : ∀ more', inflateLoop z compr fuel r.state (rest.drop r.used ++ more') []
          (file ++ (unCompr ++ r.out)) = some (zOk, file ++ unCompr ++ todo) := by
        intro more'
        have hloop := ih more' [] (file ++ (unCompr ++ r.out)) hnext hempty (by omega)
        rw [hloop, htodo]
        simp only [List.append_nil, List.append_assoc]
      split
      · rename_i hnone
        have hdrop := (List.append_eq_nil_iff.mp hnone).1
        have hagain := hrest compr
        rw [hdrop, List.nil_append] at hagain
        exact hagain
      · exact hrest more

theorem uncompressFile_contents (hz : RawDeflate z raw pending) {contents : Text} {fuel : Nat}
    (hcontents : contentsOf raw sys archive h = some contents) (hfuel : contents.length < fuel) :
    ∃ status, uncompressFile z sys archive h fuel = some (status, contents) := by
  unfold contentsOf at hcontents
  unfold uncompressFile
  split at hcontents
  · cases hcontents
  · rename_i hplace
    rw [if_neg hplace]
    cases hheader : readLocalHeader sys archive h.place with
    | none =>
      rw [hheader] at hcontents
      cases hcontents
    | some pos =>
      rw [hheader] at hcontents
      dsimp only at hcontents ⊢
      split at hcontents
      · cases hcontents
      · rename_i hdata
        rw [not_or, not_not] at hdata
        have hread : readData sys archive pos h.csize = gzread archive pos h.csize := by
          unfold readData
          dsimp only
          rw [hdata.2, Nat.sub_self, List.range_zero, List.map_nil, List.append_nil]
        rw [if_neg hdata.1, hread]
        split at hcontents
        · rename_i hmethod
          have hempty : ([] : Text).length < inflateSize := by decide
          have hloop := inflateLoop_pending hz (gzread archive pos h.csize) fuel [] [] []
            (hz.start _ _ hcontents) hempty hfuel
          rw [List.append_nil, List.nil_append, List.nil_append] at hloop
          rw [if_pos hmethod]
          unfold uncompressInflated
          rw [hloop]
          exact ⟨_, rfl⟩
        · rename_i hinflated
          split at hcontents
          · rename_i hmethod
            cases hcontents
            have hstored : (uncompressStored (gzread archive pos h.csize)).2 =
                gzread archive pos h.csize := by
              unfold uncompressStored
              split <;> rfl
            rw [if_neg hinflated, if_pos hmethod, Option.map_some, hstored]
            exact ⟨_, rfl⟩
          · cases hcontents

/-! ## The loop over the entries -/

/-- Entries that can be extracted are, if there is fuel for them. -/
theorem uncompressRecords_extractable (hz : RawDeflate z raw pending) {fuel : Nat} :
    ∀ (records : List ZipCDR) {s : Unzipping},
      (∀ h ∈ records, Extractable raw sys archive dest h) →
      (∀ h ∈ records, ∀ contents, contentsOf raw sys archive h = some contents →
        contents.length < fuel) →
      ∃ s', uncompressRecords z sys archive dest 3 fuel records s = .ok (s', true) ∧
        s'.closed.map some = s.closed.map some ++ records.map (wanted raw sys archive dest) := by
  intro records
  induction records with
  | nil => exact fun _ _ => ⟨_, rfl, (List.append_nil _).symm⟩
  | cons h records ih =>
    intro s hall hfuel
    obtain ⟨⟨filename, hname, hfits, hopens⟩, contents, hcontents⟩ := hall h List.mem_cons_self
    obtain ⟨status, hfile⟩ := uncompressFile_contents hz hcontents
      (hfuel h List.mem_cons_self contents hcontents)
    have hentry : ∃ s₁ : Unzipping,
        uncompressFileWithDir z sys archive dest 3 fuel h s = .ok (s₁, some status) ∧
          s₁.closed = s.closed ++ [(unzipPath dest filename 3, contents)] := by
      unfold uncompressFileWithDir makeDirs
      rw [hname]
      dsimp only
      rw [if_neg (Nat.not_le.mpr hfits), ok_bind, hopens, hfile]
      exact ⟨_, rfl, rfl⟩
    obtain ⟨s₁, hrun, hclosed⟩ := hentry
    have hwanted : wanted raw sys archive dest h =
        some (unzipPath dest filename 3, contents) := by
      unfold wanted
      rw [hname, hcontents]
    rw [uncompressRecords, hrun, ok_bind]
    dsimp only
    obtain ⟨s', hrest, hmap⟩ := @ih
      (if status = 0 then { s₁ with errorCount := s₁.errorCount + 1 } else s₁)
      (fun g hg => hall g (List.mem_cons_of_mem h hg))
      fun g hg => hfuel g (List.mem_cons_of_mem h hg)
    have hsame : (if status = 0 then { s₁ with errorCount := s₁.errorCount + 1 }
        else s₁).closed = s₁.closed := by
      split <;> rfl
    refine ⟨s', hrest, ?_⟩
    rw [hmap, hsame, hclosed, List.map_append, List.append_assoc,
      List.map_cons (l := records), hwanted]
    rfl

/-- An entry closes no file, or one that could be opened. -/
theorem uncompressFileWithDir_closed {fuel status : Nat} {s s' : Unzipping}
    (hrun : uncompressFileWithDir z sys archive dest 3 fuel h s = .ok (s', some status)) :
    s'.closed = s.closed ∨
      ∃ filename contents, h.filename = some filename ∧
        (unzipPath dest filename 3).length < fnameMax ∧
        sys.opens (unzipPath dest filename 3) = true ∧
        s'.closed = s.closed ++ [(unzipPath dest filename 3, contents)] := by
  unfold uncompressFileWithDir at hrun
  split at hrun
  · cases hrun
    exact .inl rfl
  · rename_i filename hname
    obtain ⟨made, hmade, hopened⟩ := bind_eq_ok.mp hrun
    have hfits : (unzipPath dest filename 3).length < fnameMax := by
      unfold makeDirs at hmade
      split at hmade
      · cases hmade
      · rename_i hfits
        exact Nat.not_le.mp hfits
    split at hopened
    · cases hopened
      exact .inl rfl
    · rename_i hopens
      rw [Bool.not_eq_true', Bool.not_eq_false] at hopens
      split at hopened
      · cases hopened
      · cases hopened
        exact .inr ⟨filename, _, hname, hfits, hopens, rfl⟩

/-- What is closed: if it is what is wanted, every entry can be extracted. -/
theorem uncompressRecords_closed {fuel : Nat} : ∀ (records : List ZipCDR) {s s' : Unzipping},
    uncompressRecords z sys archive dest 3 fuel records s = .ok (s', true) →
      ∃ closed : List (Text × Text), s'.closed = s.closed ++ closed ∧
        closed.length ≤ records.length ∧
        (closed.map some = records.map (wanted raw sys archive dest) →
          ∀ h ∈ records, Extractable raw sys archive dest h) := by
  intro records
  induction records with
  | nil =>
    intro s s' hrun
    cases hrun
    exact ⟨[], (List.append_nil _).symm, Nat.le_refl _, fun _ h hh => absurd hh List.not_mem_nil⟩
  | cons h records ih =>
    intro s s' hrun
    rw [uncompressRecords] at hrun
    obtain ⟨⟨s₁, status⟩, hentry, hrest⟩ := bind_eq_ok.mp hrun
    cases status with
    | none => cases hrest
    | some status =>
      dsimp only at hrest
      obtain ⟨closed, hclosed, hlen, hextract⟩ := ih hrest
      have hsame : (if status = 0 then { s₁ with errorCount := s₁.errorCount + 1 }
          else s₁).closed = s₁.closed := by
        split <;> rfl
      rw [hsame] at hclosed
      rcases uncompressFileWithDir_closed hentry with
        hnone | ⟨filename, contents, hname, hfits, hopens, hone⟩
      · -- an entry that is not opened leaves too few files
        refine ⟨closed, by rw [hclosed, hnone], Nat.le_succ_of_le hlen, fun hmap => ?_⟩
        have hcount := congrArg List.length hmap
        rw [List.length_map, List.length_map, List.length_cons] at hcount
        omega
      · refine ⟨(unzipPath dest filename 3, contents) :: closed, ?_, Nat.succ_le_succ hlen,
          fun hmap => ?_⟩
        · rw [hclosed, hone, List.append_assoc, List.singleton_append]
        · rw [List.map_cons, List.map_cons] at hmap
          obtain ⟨hwanted, hmore⟩ := List.cons.inj hmap
          intro g hg
          rcases List.mem_cons.mp hg with rfl | hg
          · refine ⟨⟨filename, hname, hfits, hopens⟩, ?_⟩
            unfold wanted at hwanted
            rw [hname] at hwanted
            cases hcontents : contentsOf raw sys archive g with
            | none =>
              rw [hcontents] at hwanted
              cases hwanted
            | some contents => exact ⟨contents, rfl⟩
          · exact hextract hmore g hg

/-! ## What is reported -/

/-- An archive that can be opened again is always reported as extracted. -/
theorem decompressZip_noErr {fuel : Nat} {s : Unzipping} {err : Error}
    (hreopens : sys.reopens = true)
    (hrun : decompressZip z sys archive dest records fuel = .ok (s, some err)) :
    err = .noErr ∧
      uncompressRecords z sys archive dest 3 fuel records ⟨[], [], [], 0⟩ = .ok (s, true) := by
  unfold decompressZip uncompressAll at hrun
  rw [hreopens] at hrun
  obtain ⟨r, hall, hlast⟩ := bind_eq_ok.mp hrun
  obtain ⟨r', hrecords, hstatus⟩ := bind_eq_ok.mp hall
  obtain ⟨s', fine⟩ := r'
  cases fine with
  | false =>
    cases hstatus
    cases hlast
  | true =>
    dsimp only at hstatus
    split at hstatus
    · rename_i h
      cases h
    · split at hstatus
      · rename_i hcount
        cases hstatus
        cases hlast
        refine ⟨if_neg ?_, hrecords⟩
        omega
      · cases hstatus
        cases hlast
        exact ⟨rfl, hrecords⟩

/-- So what it reports is right only if every entry can be extracted. -/
theorem extractable_of_reports (hreopens : sys.reopens = true)
    (hreports : Reports z raw sys archive dest records) :
    ∀ h ∈ records, Extractable raw sys archive dest h := by
  obtain ⟨fuel, s, err, hrun, hiff⟩ := hreports
  obtain ⟨hnone, hrecords⟩ := decompressZip_noErr hreopens hrun
  obtain ⟨closed, hclosed, -, hextract⟩ := @uncompressRecords_closed z raw sys archive dest fuel records _ s hrecords
  rw [List.nil_append] at hclosed
  refine hextract ?_
  rw [← hclosed]
  exact hiff.mp hnone

theorem exists_fuel (raw : Text → Option Text) (sys : ZipSystem) (archive : Text)
    (records : List ZipCDR) : ∃ fuel, ∀ h ∈ records, ∀ contents,
      contentsOf raw sys archive h = some contents → contents.length < fuel := by
  induction records with
  | nil => exact ⟨0, fun h hh => absurd hh List.not_mem_nil⟩
  | cons h records ih =>
    obtain ⟨fuel, hfuel⟩ := ih
    refine ⟨max fuel (((contentsOf raw sys archive h).getD []).length + 1), ?_⟩
    intro g hg contents hcontents
    rcases List.mem_cons.mp hg with rfl | hg
    · rw [hcontents, Option.getD_some]
      omega
    · have hless := hfuel g hg contents hcontents
      omega

end Report

/-! ## Two archives -/

/-- A zip archive of one entry: its name, its checksum, its size, its method and its data. -/
def zipArchive (name crc : Text) (size method : UInt8) (data : Text) : Text :=
  let byte (n : Nat) : UInt8 := UInt8.ofNat n
  bytes "PK" ++ [3, 4, 20, 0, 0, 0, method, 0, 0, 0, 0, 0] ++ crc ++
    [byte data.length, 0, 0, 0, size, 0, 0, 0, byte name.length, 0, 0, 0] ++ name ++ data ++
  bytes "PK" ++ [1, 2, 20, 0, 20, 0, 0, 0, method, 0, 0, 0, 0, 0] ++ crc ++
    [byte data.length, 0, 0, 0, size, 0, 0, 0, byte name.length, 0, 0, 0, 0, 0, 0, 0, 0, 0,
      0, 0, 0, 0, 0, 0, 0, 0] ++ name ++
  bytes "PK" ++ [5, 6, 0, 0, 0, 0, 1, 0, 1, 0, byte (46 + name.length), 0, 0, 0,
    byte (30 + name.length + data.length), 0, 0, 0, 0, 0]

/-- Its record in the central directory. -/
def zipRecord (name : Text) (method : UInt8) (data : Text) : ZipCDR :=
  ⟨some name, method.toNat, data.length, 0⟩

/-- The checksum of the byte `a`. -/
def crcOfA : Text := [0x43, 0xbe, 0xb7, 0xe8]

/-- A system with a directory `/t`. -/
def zipSystem : ZipSystem where
  cwd := []
  there := fun location => location == [] || location == [bytes "t"]
  allows := fun _ => true
  opens := fun path => path == bytes "/t/a"
  reopens := true
  stale := fun _ => 0
  cutSize := fun _ => 0

/-- The raw stream of the byte `a`. -/
def streamOfA : Text := [0x4b, 0x04, 0x00]

/-- A `zlib` that knows only that stream. -/
def zlibOfA : Zlib where
  Stream := Unit
  start := ()
  inflate := fun _ nextIn room =>
    if streamOfA.isPrefixOf nextIn = true ∧ 0 < room then ⟨zStreamEnd, 3, bytes "a", ()⟩
    else ⟨-3, 0, [], ()⟩

def rawOfA (s : Text) : Option Text := if s = streamOfA then some (bytes "a") else none

theorem zlibOfA_decodes :
    RawDeflate zlibOfA rawOfA fun _ rest todo => rest = streamOfA ∧ todo = bytes "a" where
  start := by
    intro s d hs
    unfold rawOfA at hs
    split at hs
    · rename_i hstream
      exact ⟨hstream, (Option.some.inj hs).symm⟩
    · cases hs
  step := by
    rintro stream rest todo room ⟨rfl, rfl⟩ hroom more
    have hfront : streamOfA.isPrefixOf (streamOfA ++ more) = true :=
      List.isPrefixOf_iff_prefix.mpr (List.prefix_append _ _)
    have hstep : zlibOfA.inflate stream (streamOfA ++ more) room =
        ⟨zStreamEnd, 3, bytes "a", ()⟩ := if_pos ⟨hfront, hroom⟩
    rw [hstep]
    exact .inl ⟨rfl, rfl⟩

end FreeAmp.Ui
