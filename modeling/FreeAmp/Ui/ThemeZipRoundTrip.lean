/-
  Ui/ThemeZipRoundTrip.lean --- unpacking what `CompressThemeZip` has packed.

  A file whose header has a checksum that is not negative comes back (`round_file`), and
  one whose header has a negative one stops the unpacking (`round_negative`).  So an
  archive is unpacked to the files it was made from exactly if no checksum in it is
  negative.
-/
import FreeAmp.Ui.ThemeZipHeader
import FreeAmp.Ui.ThemeZipUnpack

namespace FreeAmp.Ui

open FreeAmp.Base FreeAmp.Lib

/-! ## What is packed -/

/-- A file to pack: its path and its contents. -/
structure Source where
  path : Text
  contents : Text

namespace Source

/-- The base name of the path. -/
def name (f : Source) : Text := fileNameOf f.path

/-- The header of the file without its checksum. -/
def blank (time : Text → Nat) (f : Source) : Text :=
  blankHeader f.name f.contents.length (time f.path)

/-- What is packed of the file. -/
def packed (time : Text → Nat) (f : Source) : Text :=
  packedFile f.name f.contents (time f.path)

end Source

/-- The files that can be packed: a base name of 1 to 99 bytes, and a size that `int` holds. -/
structure Packable (time : Text → Nat) (f : Source) : Prop where
  nonempty : f.name ≠ []
  fits : Fits f.name f.contents.length (time f.path)

theorem packFiles_sources {files : Text → Option Text} {time : Text → Nat} :
    ∀ sources : List Source, (∀ f ∈ sources, files f.path = some f.contents ∧ Packable time f) →
      packFiles files time (sources.map Source.path) =
        .ok (.noErr, sources.flatMap (Source.packed time)) := by
  intro sources
  induction sources with
  | nil => exact fun _ => rfl
  | cons f sources ih =>
    intro h
    obtain ⟨hcontents, hpackable⟩ := h f List.mem_cons_self
    have hname : ¬ 100 ≤ (fileNameOf f.path).length := Nat.not_le.mpr hpackable.fits.nameFits
    rw [List.map_cons, packFiles, hcontents]
    dsimp only
    rw [if_neg hname, ih fun g hg => h g (List.mem_cons_of_mem f hg), List.flatMap_cons]
    rfl

/-! ## A packed file -/

section PackedFile

variable {time : Text → Nat} {f : Source}

theorem fileNameOf_name : fileNameOf f.name = f.name := by
  have hall : ∀ c ∈ f.path.reverse.takeWhile (· != 47), (c != 47) = true :=
    fun c hc => List.mem_takeWhile_imp (p := fun c => c != 47) hc
  unfold Source.name fileNameOf
  rw [List.reverse_reverse, List.takeWhile_eq_self_iff.mpr hall]

theorem typeflagOf_blank (h : Packable time f) : typeflagOf (f.blank time) = regType := by
  have hlen : (headerFront f.name f.contents.length (time f.path) ++
      List.replicate 8 (32 : UInt8)).length = 156 := by
    rw [List.length_append, headerFront_length h.fits, List.length_replicate]
  unfold typeflagOf Source.blank blankHeader
  rw [List.getD_eq_getElem?_getD, List.getElem?_append_right (Nat.le_of_eq hlen), hlen]
  rfl

theorem unpackPath_blank (h : Packable time f) (dest : Text) :
    unpackPath dest (f.blank time) = dest ++ [dirMarker] ++ f.name := by
  unfold unpackPath Source.blank blankHeader
  rw [List.append_assoc (headerFront _ _ _), nameOf_front h.fits, fileNameOf_name]

theorem sizeOf_blank (h : Packable time f) : sizeOf (f.blank time) = f.contents.length := by
  unfold Source.blank blankHeader
  rw [List.append_assoc, sizeOf_front h.fits]

theorem packed_eq (time : Text → Nat) (f : Source) : f.packed time =
    header f.name f.contents.length (time f.path) ++ (f.contents ++
      List.replicate (padding f.contents.length).toNat 0) := by
  unfold Source.packed packedFile
  rw [List.append_assoc]

theorem round_file {sys : System} {dest front : Text} {u : Unpacking} (rest : Text)
    (h : Packable time f) (h0 : 0 ≤ recordSum (f.blank time))
    (hopens : sys.opens (dest ++ [dirMarker] ++ f.name) = true)
    (hwrites : ∀ n, sys.short n = none) (hpos : u.pos = front.length) :
    ∃ u', decompressRound sys (front ++ (f.packed time ++ rest)) dest u = .ok u' ∧
      Unpacked sys (front ++ (f.packed time ++ rest)) dest (f.blank time) u u' ∧
      dataOf (front ++ (f.packed time ++ rest)) u.pos (f.blank time) = f.contents := by
  have harchive : front ++ (f.packed time ++ rest) =
      front ++ (header f.name f.contents.length (time f.path) ++
        (f.contents ++ (List.replicate (padding f.contents.length).toNat 0 ++ rest))) := by
    rw [packed_eq]
    simp only [List.append_assoc]
  have hheader : checkHeader (front ++ (f.packed time ++ rest)) u.pos = .record (f.blank time) := by
    rw [harchive, hpos]
    exact checkHeader_header h.fits h0 front _
  have hsize : (sizeOf (f.blank time)).toNat = f.contents.length := by
    rw [sizeOf_blank h]
    rfl
  have hfile : IsFile (f.blank time) := .inl (typeflagOf_blank h)
  have hlen : (front ++ header f.name f.contents.length (time f.path)).length =
      front.length + recordSize := by
    rw [List.length_append, header_length h.fits h0]
  have hdata : dataOf (front ++ (f.packed time ++ rest)) u.pos (f.blank time) = f.contents := by
    unfold dataOf
    rw [hsize, harchive, hpos, ← hlen, ← List.append_assoc]
    exact gzread_append rfl
  have hclear : Clear sys (front ++ (f.packed time ++ rest)) dest (f.blank time) u := by
    refine ⟨?_, hwrites, ?_⟩
    · rw [unpackPath_blank h]
      exact hopens
    · rw [harchive, hsize, hpos]
      simp only [List.length_append, header_length h.fits h0]
      omega
  have hcases := decompressRound_cases sys (front ++ (f.packed time ++ rest)) dest u
  generalize hround : decompressRound sys (front ++ (f.packed time ++ rest)) dest u = r at hcases
  cases hcases with
  | @unpacked r u' hr hunpacked =>
    rw [hheader] at hr
    cases hr
    exact ⟨u', rfl, hunpacked, hdata⟩
  | passed hr hpassed =>
    rw [hheader] at hr
    cases hr
    have hdir := hpassed.isDirectory
    rw [typeflagOf_blank h] at hdir
    exact absurd hdir (by decide)
  | last hlast =>
    rw [hheader] at hlast
    cases hlast
  | failed herr hfailed hnot hlast => exact absurd hclear (hnot _ hheader hfile)

end PackedFile

/-! ## The whole archive -/

/-- A system on which the files can be made, and nothing fails. -/
structure Works (sys : System) (dest : Text) (sources : List Source) : Prop where
  opens : ∀ f ∈ sources, sys.opens (dest ++ [dirMarker] ++ f.name) = true
  writes : ∀ n, sys.short n = none
  closes : ∀ n, sys.flush n = none

section Archive

variable {time : Text → Nat} {sys : System} {dest : Text}

theorem decompressLoop_add {archive : Text} {r : Error × Unpacking} : ∀ (fuel more : Nat)
    {u : Unpacking}, decompressLoop sys archive dest fuel u = some r →
      decompressLoop sys archive dest (fuel + more) u = some r := by
  intro fuel
  induction fuel with
  | zero => exact fun _ _ h => absurd h nofun
  | succ fuel ih =>
    intro more u h
    rw [Nat.succ_add, decompressLoop]
    rw [decompressLoop] at h
    cases hround : decompressRound sys archive dest u with
    | error r' =>
      rw [hround] at h
      exact h
    | ok u' =>
      rw [hround] at h
      exact ih more h

/-- The packed files at the front of what is left of an archive are unpacked; they come back
if their names are different. -/
theorem run_files : ∀ (good : List Source) (rest front : Text) {u : Unpacking},
    Works sys dest good → (∀ f ∈ good, Packable time f) →
    (∀ f ∈ good, 0 ≤ recordSum (f.blank time)) → u.pos = front.length →
    ∃ u', u'.pos = (front ++ good.flatMap (Source.packed time)).length ∧
      u'.created = u.created ++ good.map (fun f => dest ++ [dirMarker] ++ f.name) ∧
      ((good.map Source.name).Nodup →
        ∀ f ∈ good, u'.files (dest ++ [dirMarker] ++ f.name) = some f.contents) ∧
      (∀ p, (∀ f ∈ good, p ≠ dest ++ [dirMarker] ++ f.name) → u'.files p = u.files p) ∧
      ∀ fuel, decompressLoop sys (front ++ (good.flatMap (Source.packed time) ++ rest)) dest
          (good.length + fuel) u =
        decompressLoop sys (front ++ (good.flatMap (Source.packed time) ++ rest)) dest fuel u' := by
  intro good
  induction good with
  | nil =>
    intro rest front u _ _ _ hpos
    refine ⟨u, ?_, (List.append_nil _).symm, fun _ f hf => absurd hf List.not_mem_nil,
      fun p _ => rfl, fun fuel => ?_⟩
    · rw [List.flatMap_nil, List.append_nil]
      exact hpos
    · rw [List.length_nil, Nat.zero_add]
  | cons f good ih =>
    intro rest front u hworks hpackable hsums hpos
    have hmem : f ∈ f :: good := List.mem_cons_self
    have htail : ∀ g ∈ good, g ∈ f :: good := fun g hg => List.mem_cons_of_mem f hg
    have hpacked := hpackable f hmem
    have hpath := unpackPath_blank hpacked dest
    obtain ⟨u₁, hround, hunpacked, hdata⟩ := round_file
      (good.flatMap (Source.packed time) ++ rest) hpacked (hsums f hmem) (hworks.opens f hmem)
      hworks.writes hpos
    have hpos₁ : u₁.pos = (front ++ f.packed time).length := by
      have hsize : (sizeOf (f.blank time)).toNat = f.contents.length := by
        rw [sizeOf_blank hpacked]
        rfl
      rw [hunpacked.pos, hsize, sizeOf_blank hpacked, packed_eq, hpos]
      simp only [List.length_append, List.length_replicate,
        header_length hpacked.fits (hsums f hmem)]
      omega
    have hfile : u₁.files (dest ++ [dirMarker] ++ f.name) = some f.contents := by
      have hthere := hunpacked.file
      rw [hpath, hdata] at hthere
      unfold flushed at hthere
      rw [hworks.closes] at hthere
      exact hthere
    have harchive : front ++ ((f :: good).flatMap (Source.packed time) ++ rest) =
        front ++ f.packed time ++ (good.flatMap (Source.packed time) ++ rest) := by
      rw [List.flatMap_cons]
      simp only [List.append_assoc]
    obtain ⟨u', hpos', hcreated', hfiles', hothers', hloop'⟩ := ih rest
      (front ++ f.packed time)
      ⟨fun g hg => hworks.opens g (htail g hg), hworks.writes, hworks.closes⟩
      (fun g hg => hpackable g (htail g hg)) (fun g hg => hsums g (htail g hg)) hpos₁
    refine ⟨u', ?_, ?_, ?_, ?_, fun fuel => ?_⟩
    · rw [hpos', List.flatMap_cons, List.append_assoc]
    · rw [hcreated', hunpacked.created, hpath, List.append_assoc, List.map_cons,
        List.singleton_append]
    · intro hnames g hg
      rw [List.map_cons, List.nodup_cons] at hnames
      have hdistinct : ∀ g ∈ good,
          dest ++ [dirMarker] ++ f.name ≠ dest ++ [dirMarker] ++ g.name := by
        intro g hg heq
        refine hnames.1 (List.mem_map.mpr ⟨g, hg, ?_⟩)
        exact (List.append_cancel_left heq).symm
      rcases List.mem_cons.mp hg with rfl | hg
      · rw [hothers' _ hdistinct, hfile]
      · exact hfiles' hnames.2 g hg
    · intro p hp
      rw [hothers' p fun g hg => hp g (htail g hg)]
      refine hunpacked.others p ?_
      rw [hpath]
      exact hp f hmem
    · rw [harchive, ← hloop' fuel, List.length_cons, Nat.add_right_comm, decompressLoop]
      rw [List.append_assoc front, hround]

theorem checkHeader_end (front deleted : Text) :
    checkHeader (front ++ (List.replicate recordSize 0 ++ deleted)) front.length = .last := by
  have hlen : (List.replicate recordSize (0 : UInt8)).length = recordSize := List.length_replicate
  have hsum : recordSum (List.replicate recordSize 0) = 0 := by
    unfold recordSum
    rw [List.map_replicate, List.sum_replicate]
    exact Int.mul_zero _
  unfold checkHeader
  dsimp only
  rw [gzread_append hlen, if_neg (not_not.mpr hlen), if_pos hsum]

theorem decompressRound_end {archive : Text} {u : Unpacking}
    (h : checkHeader archive u.pos = .last) :
    decompressRound sys archive dest u = .error (.noErr,
      { u with pos := u.pos + recordSize, headers := u.headers ++ [u.pos] }) := by
  unfold decompressRound
  rw [h]

/-- A file whose checksum is negative is not unpacked: the call returns. -/
theorem round_negative (sys : System) (dest : Text) {f : Source} {front : Text} {u : Unpacking}
    (rest : Text) (h : Packable time f) (h0 : recordSum (f.blank time) < 0)
    (hpos : u.pos = front.length) :
    ∃ err v, decompressRound sys (front ++ (f.packed time ++ rest)) dest u = .error (err, v) ∧
      (err = .noErr → v.files = u.files) := by
  have harchive : front ++ (f.packed time ++ rest) =
      front ++ (header f.name f.contents.length (time f.path) ++
        (f.contents ++ (List.replicate (padding f.contents.length).toNat 0 ++ rest))) := by
    rw [packed_eq]
    simp only [List.append_assoc]
  have hheader := checkHeader_negative h.fits h0 front
    (f.contents ++ (List.replicate (padding f.contents.length).toNat 0 ++ rest))
  rw [← harchive, ← hpos] at hheader
  rcases hheader with hlast | hbad
  · exact ⟨.noErr, _, decompressRound_end hlast, fun _ => rfl⟩
  · unfold decompressRound
    rw [hbad]
    exact ⟨.noDataAvail, _, rfl, nofun⟩

theorem exists_first_negative {sources : List Source}
    (h : ¬ ∀ f ∈ sources, 0 ≤ recordSum (f.blank time)) :
    ∃ good f more, sources = good ++ f :: more ∧ (∀ g ∈ good, 0 ≤ recordSum (g.blank time)) ∧
      recordSum (f.blank time) < 0 := by
  induction sources with
  | nil => exact absurd (fun f hf => absurd hf List.not_mem_nil) h
  | cons f sources ih =>
    by_cases hf : 0 ≤ recordSum (f.blank time)
    · obtain ⟨good, g, more, hsplit, hgood, hg⟩ := ih fun hall => h fun g hg =>
        (List.mem_cons.mp hg).elim (fun heq => heq ▸ hf) (hall g)
      refine ⟨f :: good, g, more, by rw [hsplit, List.cons_append], fun g' hg' => ?_, hg⟩
      exact (List.mem_cons.mp hg').elim (fun heq => heq ▸ hf) (hgood g')
    · exact ⟨[], f, sources, rfl, fun g hg => absurd hg List.not_mem_nil, Int.not_le.mp hf⟩

/-- The files are in an archive: it is unpacked, without an error, to the files that were
packed and no others. -/
def ComesBack (sys : System) (archive dest : Text) (sources : List Source) : Prop :=
  ∀ before : Text → Option Text, (∀ name, before (dest ++ [dirMarker] ++ name) = none) →
    ∃ fuel u, decompressGZ sys archive dest before fuel = some (.noErr, u) ∧
      (∀ f ∈ sources, u.files (dest ++ [dirMarker] ++ f.name) = some f.contents) ∧
      ∀ p, (∀ f ∈ sources, p ≠ dest ++ [dirMarker] ++ f.name) → u.files p = before p

/-- An archive of packed files comes back exactly if none of the checksums is negative. -/
theorem comesBack_iff {deleted : Text} {sources : List Source}
    (hsources : ∀ f ∈ sources, Packable time f) (hnames : (sources.map Source.name).Nodup)
    (hworks : Works sys dest sources) :
    ComesBack sys (sources.flatMap (Source.packed time) ++
        (List.replicate recordSize 0 ++ deleted)) dest sources ↔
      ∀ f ∈ sources, 0 ≤ recordSum (f.blank time) := by
  constructor
  · intro hback
    by_contra hnot
    obtain ⟨good, f, more, rfl, hgood, hf⟩ := exists_first_negative hnot
    obtain ⟨fuel, u, hrun, hfiles, -⟩ := hback (fun _ => none) fun _ => rfl
    have hmem : f ∈ good ++ f :: more := List.mem_append_right good List.mem_cons_self
    have hin : ∀ g ∈ good, g ∈ good ++ f :: more := fun g hg => List.mem_append_left _ hg
    rw [List.map_append, List.map_cons] at hnames
    obtain ⟨u', hpos', -, -, hothers', hloop'⟩ := run_files (u := unpacking fun _ => none) good
      ((f :: more).flatMap (Source.packed time) ++ (List.replicate recordSize 0 ++ deleted)) []
      ⟨fun g hg => hworks.opens g (hin g hg), hworks.writes, hworks.closes⟩
      (fun g hg => hsources g (hin g hg)) hgood rfl
    rw [List.nil_append] at hloop'
    rw [List.nil_append] at hpos'
    obtain ⟨err, v, hround, hsame⟩ := round_negative sys dest
      (more.flatMap (Source.packed time) ++ (List.replicate recordSize 0 ++ deleted))
      (hsources f hmem) hf hpos'
    -- with enough fuel the run comes to this round
    have hmore := decompressLoop_add fuel (good.length + 1) hrun
    rw [Nat.add_left_comm, List.flatMap_append, List.append_assoc, hloop', decompressLoop,
      List.flatMap_cons, List.append_assoc (Source.packed time f), hround] at hmore
    cases hmore
    have hfile := hfiles f hmem
    rw [hsame rfl, hothers'] at hfile
    · cases hfile
    · intro g hg heq
      have hname : f.name = g.name := List.append_cancel_left heq
      refine (List.nodup_append.mp hnames).2.2 g.name (List.mem_map_of_mem hg) f.name
        List.mem_cons_self hname.symm
  · intro hsums before hfree
    obtain ⟨u', hpos', -, hfiles', hothers', hloop'⟩ := run_files (u := unpacking before) sources
      (List.replicate recordSize 0 ++ deleted) [] hworks hsources hsums rfl
    rw [List.nil_append] at hloop'
    rw [List.nil_append] at hpos'
    have hend := checkHeader_end (sources.flatMap (Source.packed time)) deleted
    rw [← hpos'] at hend
    refine ⟨sources.length + 1, { u' with
      pos := u'.pos + recordSize, headers := u'.headers ++ [u'.pos] }, ?_, hfiles' hnames, hothers'⟩
    unfold decompressGZ
    rw [hloop' 1, decompressLoop, decompressRound_end hend]

/-- A system on which everything can be made, and nothing fails. -/
def workingSystem : System := ⟨fun _ => true, fun _ => none, fun _ => none⟩

def clock : Text → Nat := fun _ => 974000000

/-- A file `a` of one byte. -/
def plainSource : Source := ⟨bytes "/a", [1]⟩

theorem plainSource_packable : Packable clock plainSource :=
  ⟨by decide, by decide, by decide, by decide, by decide⟩

/-- An empty file whose name has 99 bytes from 128 on. -/
def highSource : Source := ⟨dirMarker :: List.replicate 99 128, []⟩

theorem highSource_packable : Packable clock highSource :=
  ⟨by decide, by decide, by decide, by decide, by decide⟩

end Archive

end FreeAmp.Ui
