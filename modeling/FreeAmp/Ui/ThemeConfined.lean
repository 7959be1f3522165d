/-
  Ui/ThemeConfined.lean --- where a theme is unpacked to.

  Both kinds of archive are unpacked to files whose names have no separator in them, and so
  to files below the directory.  But an entry of a zip archive whose name ends in a separator
  keeps all of it, and `make_dirs` makes a directory of each part of it, wherever that is
  (`name_leads_out`).
-/
import FreeAmp.Ui.ThemeZipCleanup
import FreeAmp.Ui.UnzipReport

namespace FreeAmp.Ui

open FreeAmp.Base FreeAmp.Lib

/-! ## Names behind a directory -/

/-- Where a path leads from the working directory. -/
def locate (cwd : List Text) (path : Text) : List Text := resolve dirMarker 46 cwd path

/-- A directory to unpack to, on a system that has the directories on the way to it and does
not open a directory, or a path that ends in a separator, for writing. -/
structure Destination (cwd : List Text) (there : List Text → Bool) (opens : Text → Bool)
    (dest : Text) : Prop where
  nonempty : dest ≠ []
  onTheWay : ∀ q ∈ ancestors dirMarker dest ++ [dest], q ≠ [] → there (locate cwd q) = true
  above : there (locate cwd dest).dropLast = true
  noDirectory : ∀ path, opens path = true → there (locate cwd path) = false
  noSeparator : ∀ path, opens (path ++ [dirMarker]) = false

section Confined

variable {cwd : List Text} {there : List Text → Bool} {opens : Text → Bool} {dest : Text}

/-- A file whose name has no separator in it is below the directory. -/
theorem Destination.below_name (h : Destination cwd there opens dest) {name : Text}
    (hname : dirMarker ∉ name) (hopens : opens (dest ++ [dirMarker] ++ name) = true) :
    Below (locate cwd dest) (locate cwd (dest ++ [dirMarker] ++ name)) := by
  have hdest : there (locate cwd dest) = true :=
    h.onTheWay dest (List.mem_append_right _ (List.mem_singleton.mpr rfl)) h.nonempty
  have hfree := h.noDirectory _ hopens
  rw [List.append_assoc, List.singleton_append] at hfree ⊢
  unfold locate at hfree ⊢
  rw [resolve_name _ _ _ h.nonempty hname] at hfree ⊢
  rcases descend_cases 46 (resolve dirMarker 46 cwd dest) name with hbelow | hsame | habove
  · exact hbelow
  · rw [hsame] at hfree
    exact absurd (hfree.symm.trans hdest) Bool.false_ne_true
  · rw [habove] at hfree
    exact absurd (hfree.symm.trans h.above) Bool.false_ne_true

theorem fileNameOf_noMarker (name : Text) : dirMarker ∉ fileNameOf name := by
  intro hmem
  unfold fileNameOf at hmem
  have hmarker : (dirMarker != 47) = true :=
    List.mem_takeWhile_imp (p := fun c => c != 47) (List.mem_reverse.mp hmem)
  exact absurd hmarker (by decide)

/-! ## The `tar.gz` archive -/

theorem fileRecords_path (archive dest : Text) : ∀ (fuel pos : Nat) (oneDirectory : Bool),
    ∀ f ∈ fileRecords archive dest fuel pos oneDirectory, ∃ r, f.path = unpackPath dest r := by
  intro fuel
  induction fuel with
  | zero => exact fun _ _ f hf => absurd hf List.not_mem_nil
  | succ fuel ih =>
    intro pos oneDirectory f hf
    rw [fileRecords] at hf
    split at hf
    · rename_i r _
      split at hf
      · rcases List.mem_cons.mp hf with rfl | hf
        · exact ⟨r, rfl⟩
        · exact ih _ _ f hf
      · split at hf
        · exact ih _ _ f hf
        · exact absurd hf List.not_mem_nil
    · exact absurd hf List.not_mem_nil

theorem mem_opened {sys : System} {p : Text} : ∀ (records : List FileRecord) {n : Nat},
    p ∈ opened sys records n → sys.opens p = true ∧ ∃ f ∈ records, f.path = p := by
  intro records
  induction records with
  | nil => exact fun h => absurd h List.not_mem_nil
  | cons f records ih =>
    intro n h
    rw [opened] at h
    split at h
    · rename_i hopens
      rcases List.mem_cons.mp h with rfl | h
      · exact ⟨hopens, f, List.mem_cons_self, rfl⟩
      · split at h
        · obtain ⟨hp, g, hg, hpath⟩ := ih h
          exact ⟨hp, g, List.mem_cons_of_mem f hg, hpath⟩
        · exact absurd h List.not_mem_nil
    · exact absurd h List.not_mem_nil

theorem unlinkAll_others {p : Text} : ∀ (paths : List Text) {files : Text → Option Text},
    p ∉ paths → unlinkAll paths files p = files p := by
  intro paths
  induction paths with
  | nil => exact fun _ => rfl
  | cons path paths ih =>
    intro files h
    rw [List.mem_cons, not_or] at h
    rw [unlinkAll]
    cases files path with
    | none => rfl
    | some contents =>
      show unlinkAll paths (fun p => if p = path then none else files p) p = files p
      rw [ih h.2, if_neg h.1]

theorem Run.frame {sys : System} {archive : Text} {err : Error} {u v : Unpacking}
    (h : Run sys archive dest u err v) :
    (∀ p ∈ u.created, p ∈ v.created) ∧ ∀ p ∉ v.created, v.files p = u.files p := by
  induction h with
  | @unpacked r u u' v err hrecord hunpacked _ ih =>
    obtain ⟨hkept, hothers⟩ := ih
    rw [hunpacked.created] at hkept
    refine ⟨fun p hp => hkept p (List.mem_append_left _ hp), fun p hp => ?_⟩
    rw [hothers p hp]
    refine hunpacked.others p fun hpath => hp (hkept p ?_)
    rw [hpath]
    exact List.mem_append_right _ (List.mem_singleton.mpr rfl)
  | passed hrecord hpassed _ ih =>
    rw [hpassed.state] at ih
    exact ih
  | last hlast => exact ⟨fun p hp => hp, fun p _ => rfl⟩
  | @failed u w err _ hfailed =>
    have hcreated : ∀ p ∈ u.created, p ∈ w.created := by
      intro p hp
      rcases hfailed.created with hsame | ⟨path, -, hmore⟩
      · rwa [hsame]
      · rw [hmore]
        exact List.mem_append_left _ hp
    refine ⟨hcreated, fun p hp => ?_⟩
    exact (unlinkAll_others w.created hp).trans (hfailed.others p hp)

/-- A `tar.gz` archive is unpacked to files below the directory, and nothing else is changed. -/
theorem decompressGZ_below {sys : System} {archive : Text} {files : Text → Option Text}
    {fuel : Nat} {err : Error} {u : Unpacking} (hdest : Destination cwd there sys.opens dest)
    (h : decompressGZ sys archive dest files fuel = some (err, u)) :
    (∀ p ∈ u.created, Below (locate cwd dest) (locate cwd p)) ∧
      ∀ p ∉ u.created, u.files p = files p := by
  refine ⟨fun p hp => ?_, (decompressLoop_run fuel h).frame.2⟩
  rw [decompressLoop_created fuel h] at hp
  obtain ⟨hopens, f, hf, rfl⟩ := mem_opened _ hp
  obtain ⟨r, hr⟩ := fileRecords_path archive dest fuel 0 false f hf
  rw [hr] at hopens ⊢
  exact hdest.below_name (fileNameOf_noMarker _) hopens

/-! ## The zip archive -/

section Zip

variable {z : Zlib} {sys : ZipSystem} {archive : Text} {records : List ZipCDR} {fuel : Nat}

/-- A name that has no base name is empty or ends in a separator. -/
theorem fileNameOf_nil {name : Text} (h : fileNameOf name = []) :
    name = [] ∨ ∃ front, name = front ++ [dirMarker] := by
  rcases List.eq_nil_or_concat name with hnil | ⟨front, c, hname⟩
  · exact .inl hnil
  · refine .inr ⟨front, ?_⟩
    unfold fileNameOf at h
    rw [List.concat_eq_append] at hname
    rw [hname, List.reverse_append, List.reverse_singleton, List.singleton_append,
      List.reverse_eq_nil_iff, List.takeWhile_cons] at h
    split at h
    · cases h
    · rename_i hc
      rw [Bool.not_eq_true, bne_eq_false_iff_eq] at hc
      rw [hname, hc]
      rfl

/-- The path of an entry: a name without a separator in the directory, or what cannot be
opened. -/
theorem unzipPath_cases (dest filename : Text) :
    (∃ name, dirMarker ∉ name ∧ unzipPath dest filename 3 = dest ++ [dirMarker] ++ name) ∨
      ∃ front, unzipPath dest filename 3 = front ++ [dirMarker] := by
  unfold unzipPath
  dsimp only
  rw [if_pos (show (3 : Nat) &&& 2 ≠ 0 by decide)]
  split
  · rename_i hnone
    refine .inr ?_
    rcases fileNameOf_nil hnone with hname | ⟨front, hname⟩
    · exact ⟨dest, by rw [hname, List.map_nil, List.append_nil]⟩
    · have hmarker : toLower dirMarker = dirMarker := by decide
      refine ⟨dest ++ [dirMarker] ++ front.map toLower, ?_⟩
      rw [hname, List.map_append, List.map_singleton, hmarker, List.append_assoc _ _ [dirMarker]]
  · refine .inl ⟨_, fun hmem => ?_, rfl⟩
    obtain ⟨c, hc, hlower⟩ := List.mem_map.mp hmem
    rw [toLower_eq_marker.mp hlower] at hc
    exact fileNameOf_noMarker _ hc

/-- What was made and what was opened is below the directory. -/
def Confined (sys : ZipSystem) (dest : Text) (s : Unzipping) : Prop :=
  (∀ p ∈ s.made, Below (locate sys.cwd dest) (locate sys.cwd p)) ∧
    ∀ p ∈ s.opened, Below (locate sys.cwd dest) (locate sys.cwd p)

/-- `mkdir` makes a directory of a path: there is none yet, and there can be one. -/
def Makes (sys : ZipSystem) (q : Text) : Prop :=
  q ≠ [] ∧ sys.there (locate sys.cwd q) = false ∧ sys.allows (locate sys.cwd q) = true

/-- An entry whose path fits into `dirname`, with no part that makes a directory anywhere but
below the one to unpack to. -/
structure Harmless (sys : ZipSystem) (dest filename : Text) : Prop where
  fits : (unzipPath dest filename 3).length < fnameMax
  below : ∀ q ∈ ancestors dirMarker (unzipPath dest filename 3), Makes sys q →
    Below (locate sys.cwd dest) (locate sys.cwd q)

theorem mkdir_cases (sys : ZipSystem) (made : List Text) (q : Text) :
    (mkdir sys made q = made ++ [q] ∧ Makes sys q) ∨
      (mkdir sys made q = made ∧
        (Makes sys q → ∃ d ∈ made, locate sys.cwd d = locate sys.cwd q)) := by
  unfold mkdir
  split
  · rename_i h
    exact .inl ⟨rfl, h.1, h.2.1, h.2.2.2⟩
  · rename_i h
    refine .inr ⟨rfl, fun hmakes => ?_⟩
    by_contra hnone
    exact h ⟨hmakes.1, hmakes.2.1, fun d hd heq => hnone ⟨d, hd, heq⟩, hmakes.2.2⟩

/-- The directories that are made on the way to a path. -/
theorem mkdirs_spec (sys : ZipSystem) : ∀ (qs made : List Text),
    (∀ p ∈ qs.foldl (mkdir sys) made, p ∈ made ∨ (p ∈ qs ∧ Makes sys p)) ∧
      (∀ p ∈ made, p ∈ qs.foldl (mkdir sys) made) ∧
      ∀ q ∈ qs, Makes sys q →
        ∃ d ∈ qs.foldl (mkdir sys) made, locate sys.cwd d = locate sys.cwd q := by
  intro qs
  induction qs with
  | nil =>
    intro made
    exact ⟨fun p hp => .inl hp, fun p hp => hp, fun q hq => absurd hq List.not_mem_nil⟩
  | cons q qs ih =>
    intro made
    obtain ⟨hfrom, hkept, hmade⟩ := ih (mkdir sys made q)
    rw [List.foldl_cons]
    have hcases := mkdir_cases sys made q
    have hfirst : ∀ p ∈ made, p ∈ mkdir sys made q := by
      intro p hp
      rcases hcases with ⟨heq, -⟩ | ⟨heq, -⟩
      · rw [heq]
        exact List.mem_append_left _ hp
      · rwa [heq]
    refine ⟨fun p hp => ?_, fun p hp => hkept p (hfirst p hp), fun q' hq' hmakes => ?_⟩
    · rcases hfrom p hp with hp | ⟨hp, hmakes⟩
      · rcases hcases with ⟨heq, hmakes⟩ | ⟨heq, -⟩
        · rw [heq, List.mem_append, List.mem_singleton] at hp
          rcases hp with hp | rfl
          · exact .inl hp
          · exact .inr ⟨List.mem_cons_self, hmakes⟩
        · rw [heq] at hp
          exact .inl hp
      · exact .inr ⟨List.mem_cons_of_mem q hp, hmakes⟩
    · rcases List.mem_cons.mp hq' with rfl | hq'
      · rcases hcases with ⟨heq, -⟩ | ⟨-, hsame⟩
        · refine ⟨q', hkept q' ?_, rfl⟩
          rw [heq]
          exact List.mem_append_right _ (List.mem_singleton.mpr rfl)
        · obtain ⟨d, hd, hd'⟩ := hsame hmakes
          exact ⟨d, hkept d (hfirst d hd), hd'⟩
      · exact hmade q' hq' hmakes

/-! ## A run -/

/-- What unpacking an entry makes and opens. -/
structure EntryRun (sys : ZipSystem) (dest filename : Text) (s s' : Unzipping) : Prop where
  fits : (unzipPath dest filename 3).length < fnameMax
  made : s'.made = (ancestors dirMarker (unzipPath dest filename 3)).foldl (mkdir sys) s.made
  opened : s'.opened = s.opened ∨ (sys.opens (unzipPath dest filename 3) = true ∧
    s'.opened = s.opened ++ [unzipPath dest filename 3])

theorem uncompressFileWithDir_run {h : ZipCDR} {filename : Text} (hname : h.filename = some filename)
    (s : Unzipping) :
    (fnameMax ≤ (unzipPath dest filename 3).length ∧
      uncompressFileWithDir z sys archive dest 3 fuel h s = .error .overflow) ∨
    ∃ s' status, uncompressFileWithDir z sys archive dest 3 fuel h s = .ok (s', status) ∧
      EntryRun sys dest filename s s' := by
  unfold uncompressFileWithDir makeDirs
  rw [hname]
  dsimp only
  by_cases hfits : fnameMax ≤ (unzipPath dest filename 3).length
  · rw [if_pos hfits]
    exact .inl ⟨hfits, rfl⟩
  · rw [if_neg hfits, ok_bind]
    refine .inr ?_
    cases hopens : sys.opens (unzipPath dest filename 3) with
    | false => exact ⟨_, _, rfl, Nat.not_le.mp hfits, rfl, .inl rfl⟩
    | true =>
      rw [if_neg (by decide)]
      cases uncompressFile z sys archive h fuel with
      | none => exact ⟨_, _, rfl, Nat.not_le.mp hfits, rfl, .inr ⟨hopens, rfl⟩⟩
      | some r => exact ⟨_, _, rfl, Nat.not_le.mp hfits, rfl, .inr ⟨hopens, rfl⟩⟩

/-- A harmless entry leaves what is made and opened below the directory. -/
theorem EntryRun.confined {filename : Text} {s s' : Unzipping}
    (hdest : Destination sys.cwd sys.there sys.opens dest)
    (hbelow : ∀ q ∈ ancestors dirMarker (unzipPath dest filename 3), Makes sys q →
      Below (locate sys.cwd dest) (locate sys.cwd q))
    (h : EntryRun sys dest filename s s') (hs : Confined sys dest s) : Confined sys dest s' := by
  constructor
  · intro p hp
    rw [h.made] at hp
    rcases (mkdirs_spec sys _ s.made).1 p hp with hp | ⟨hp, hmakes⟩
    · exact hs.1 p hp
    · exact hbelow p hp hmakes
  · intro p hp
    rcases h.opened with hsame | ⟨hopens, hmore⟩
    · rw [hsame] at hp
      exact hs.2 p hp
    · rw [hmore, List.mem_append, List.mem_singleton] at hp
      rcases hp with hp | rfl
      · exact hs.2 p hp
      · rcases unzipPath_cases dest filename with ⟨name, hname, hpath⟩ | ⟨front, hpath⟩
        · rw [hpath] at hopens ⊢
          exact hdest.below_name hname hopens
        · rw [hpath, hdest.noSeparator] at hopens
          exact absurd hopens Bool.false_ne_true

/-- The entries are all harmless. -/
def AllHarmless (sys : ZipSystem) (dest : Text) (records : List ZipCDR) : Prop :=
  ∀ h ∈ records, ∀ filename, h.filename = some filename → Harmless sys dest filename

theorem uncompressRecords_confined (hdest : Destination sys.cwd sys.there sys.opens dest) :
    ∀ (records : List ZipCDR) {s : Unzipping}, AllHarmless sys dest records →
      Confined sys dest s →
      ∃ s' fine, uncompressRecords z sys archive dest 3 fuel records s = .ok (s', fine) ∧
        Confined sys dest s' := by
  intro records
  induction records with
  | nil => exact fun _ hs => ⟨_, true, rfl, hs⟩
  | cons h records ih =>
    intro s hall hs
    have hentry : ∃ s₁ status, uncompressFileWithDir z sys archive dest 3 fuel h s =
        .ok (s₁, status) ∧ Confined sys dest s₁ := by
      cases hname : h.filename with
      | none =>
        unfold uncompressFileWithDir
        rw [hname]
        exact ⟨s, _, rfl, hs⟩
      | some filename =>
        have hharmless := hall h List.mem_cons_self filename hname
        rcases uncompressFileWithDir_run hname s with ⟨hlong, -⟩ | ⟨s₁, status, hrun, hentry⟩
        · exact absurd hharmless.fits (Nat.not_lt.mpr hlong)
        · exact ⟨s₁, status, hrun, hentry.confined hdest hharmless.below hs⟩
    obtain ⟨s₁, status, hrun, hs₁⟩ := hentry
    rw [uncompressRecords, hrun, ok_bind]
    cases status with
    | none => exact ⟨s₁, false, rfl, hs₁⟩
    | some status =>
      refine ih (fun g hg => hall g (List.mem_cons_of_mem h hg)) ?_
      split
      · exact hs₁
      · exact hs₁

/-- The directories that an entry makes have been made. -/
def Made (sys : ZipSystem) (dest : Text) (h : ZipCDR) (made : List Text) : Prop :=
  ∀ filename, h.filename = some filename → (unzipPath dest filename 3).length < fnameMax ∧
    ∀ q ∈ ancestors dirMarker (unzipPath dest filename 3), Makes sys q →
      ∃ d ∈ made, locate sys.cwd d = locate sys.cwd q

theorem Made.mono {h : ZipCDR} {made made' : List Text} (hmade : Made sys dest h made)
    (hsub : ∀ p ∈ made, p ∈ made') : Made sys dest h made' := by
  intro filename hname
  obtain ⟨hfits, hnew⟩ := hmade filename hname
  refine ⟨hfits, fun q hq hmakes => ?_⟩
  obtain ⟨d, hd, hd'⟩ := hnew q hq hmakes
  exact ⟨d, hsub d hd, hd'⟩

theorem uncompressFileWithDir_made {h : ZipCDR} {s s' : Unzipping} {status : Option Nat}
    (hrun : uncompressFileWithDir z sys archive dest 3 fuel h s = .ok (s', status)) :
    (∀ p ∈ s.made, p ∈ s'.made) ∧ Made sys dest h s'.made := by
  cases hname : h.filename with
  | none =>
    unfold uncompressFileWithDir at hrun
    rw [hname] at hrun
    cases hrun
    refine ⟨fun p hp => hp, fun filename heq => ?_⟩
    rw [hname] at heq
    cases heq
  | some filename =>
    rcases @uncompressFileWithDir_run dest z sys archive fuel h filename hname s with
      ⟨-, herror⟩ | ⟨s₂, status', hrun', hentry⟩
    · rw [herror] at hrun
      cases hrun
    · rw [hrun'] at hrun
      cases hrun
      obtain ⟨-, hold, hnew⟩ := mkdirs_spec sys
        (ancestors dirMarker (unzipPath dest filename 3)) s.made
      rw [← hentry.made] at hold hnew
      refine ⟨hold, fun filename' heq => ?_⟩
      obtain rfl : filename = filename' := Option.some.inj (hname.symm.trans heq)
      exact ⟨hentry.fits, hnew⟩

/-- A run to the end has made all the directories that the entries make. -/
theorem uncompressRecords_made : ∀ (records : List ZipCDR) {s s' : Unzipping},
    uncompressRecords z sys archive dest 3 fuel records s = .ok (s', true) →
      (∀ p ∈ s.made, p ∈ s'.made) ∧ ∀ h ∈ records, Made sys dest h s'.made := by
  intro records
  induction records with
  | nil =>
    intro s s' hrun
    cases hrun
    exact ⟨fun p hp => hp, fun h hh => absurd hh List.not_mem_nil⟩
  | cons h records ih =>
    intro s s' hrun
    rw [uncompressRecords] at hrun
    obtain ⟨⟨s₁, status⟩, hentry, hrest⟩ := bind_eq_ok.mp hrun
    cases status with
    | none => cases hrest
    | some status =>
      dsimp only at hrest
      obtain ⟨hkept, hmade⟩ := ih hrest
      obtain ⟨hold, hfirst⟩ := uncompressFileWithDir_made hentry
      have hsame : (if status = 0 then { s₁ with errorCount := s₁.errorCount + 1 }
          else s₁).made = s₁.made := by
        split <;> rfl
      rw [hsame] at hkept
      refine ⟨fun p hp => hkept p (hold p hp), fun g hg => ?_⟩
      rcases List.mem_cons.mp hg with rfl | hg
      · exact hfirst.mono hkept
      · exact hmade g hg

/-- `DecompressZip` makes and opens nothing but what is below the directory, as far as it has
come. -/
def Confines (z : Zlib) (sys : ZipSystem) (archive dest : Text) (records : List ZipCDR)
    (fuel : Nat) : Prop :=
  ∃ s err, decompressZip z sys archive dest records fuel = .ok (s, err) ∧ Confined sys dest s

theorem confines_of_harmless (hdest : Destination sys.cwd sys.there sys.opens dest)
    (hall : AllHarmless sys dest records) (fuel : Nat) :
    Confines z sys archive dest records fuel := by
  have hempty : Confined sys dest ⟨[], [], [], 0⟩ :=
    ⟨fun p hp => absurd hp List.not_mem_nil, fun p hp => absurd hp List.not_mem_nil⟩
  obtain ⟨s, fine, hrun, hs⟩ :=
    @uncompressRecords_confined dest z sys archive fuel hdest records _ hall hempty
  unfold Confines decompressZip uncompressAll
  cases sys.reopens with
  | false => exact ⟨_, _, rfl, hempty⟩
  | true =>
    dsimp only
    rw [if_neg (by decide), hrun, ok_bind]
    cases fine with
    | false => exact ⟨_, _, rfl, hs⟩
    | true =>
      dsimp only
      rw [if_neg (by decide)]
      split
      · exact ⟨_, _, rfl, hs⟩
      · exact ⟨_, _, rfl, hs⟩

theorem harmless_of_confines (hreopens : sys.reopens = true)
    (hreturns : ∀ s, decompressZip z sys archive dest records fuel ≠ .ok (s, none))
    (hconfines : Confines z sys archive dest records fuel) : AllHarmless sys dest records := by
  obtain ⟨s, err, hrun, hs⟩ := hconfines
  cases err with
  | none => exact absurd hrun (hreturns s)
  | some err =>
    obtain ⟨-, hmade⟩ := uncompressRecords_made records (decompressZip_noErr hreopens hrun).2
    intro h hh filename hname
    obtain ⟨hfits, hnew⟩ := hmade h hh filename hname
    refine ⟨hfits, fun q hq hmakes => ?_⟩
    obtain ⟨d, hd, hd'⟩ := hnew q hq hmakes
    rw [← hd']
    exact hs.1 d hd

/-! ## Both kinds of archive -/

/-- A `tar.gz` archive is unpacked below the directory.  A zip archive is, as far as its
unpacking comes, if its entries are harmless; and if it is when the call has returned, they
are. -/
theorem theme_confined {tar : System} (hzip : Destination sys.cwd sys.there sys.opens dest)
    (htar : Destination sys.cwd sys.there tar.opens dest) :
    (∀ archive files fuel err u, decompressGZ tar archive dest files fuel = some (err, u) →
      (∀ p ∈ u.created, Below (locate sys.cwd dest) (locate sys.cwd p)) ∧
        ∀ p ∉ u.created, u.files p = files p) ∧
    (AllHarmless sys dest records → ∀ fuel, Confines z sys archive dest records fuel) ∧
    ∀ fuel, sys.reopens = true →
      (∀ s, decompressZip z sys archive dest records fuel ≠ .ok (s, none)) →
      (Confines z sys archive dest records fuel ↔ AllHarmless sys dest records) := by
  refine ⟨fun _ _ _ _ _ hrun => decompressGZ_below htar hrun, confines_of_harmless hzip, ?_⟩
  intro fuel hreopens hreturns
  exact ⟨harmless_of_confines hreopens hreturns, fun hall => confines_of_harmless hzip hall fuel⟩

end Zip

end Confined

/-! ## A directory `/t` -/

theorem zipSystem_destination :
    Destination zipSystem.cwd zipSystem.there (fun path => path == bytes "/t/a") (bytes "/t") where
  nonempty := by decide
  onTheWay := by decide
  above := by decide
  noDirectory := by
    intro path hpath
    rw [beq_iff_eq] at hpath
    rw [hpath]
    decide
  noSeparator := by
    intro path
    rw [beq_eq_false_iff_ne]
    intro heq
    have hlast := congrArg List.getLast? heq
    rw [List.getLast?_concat] at hlast
    exact absurd hlast (by decide)

theorem theme_confined_plain :
    (∀ archive files fuel err u, decompressGZ ⟨fun path => path == bytes "/t/a", fun _ => none,
        fun _ => none⟩ archive (bytes "/t") files fuel = some (err, u) →
      (∀ p ∈ u.created, Below (locate zipSystem.cwd (bytes "/t")) (locate zipSystem.cwd p)) ∧
        ∀ p ∉ u.created, u.files p = files p) ∧
    (AllHarmless zipSystem (bytes "/t") [zipRecord (bytes "a") 8 streamOfA] →
      ∀ fuel, Confines zlibOfA zipSystem (zipArchive (bytes "a") crcOfA 1 8 streamOfA) (bytes "/t")
        [zipRecord (bytes "a") 8 streamOfA] fuel) ∧
    ∀ fuel, zipSystem.reopens = true →
      (∀ s, decompressZip zlibOfA zipSystem (zipArchive (bytes "a") crcOfA 1 8 streamOfA)
        (bytes "/t") [zipRecord (bytes "a") 8 streamOfA] fuel ≠ .ok (s, none)) →
      (Confines zlibOfA zipSystem (zipArchive (bytes "a") crcOfA 1 8 streamOfA) (bytes "/t")
          [zipRecord (bytes "a") 8 streamOfA] fuel ↔
        AllHarmless zipSystem (bytes "/t") [zipRecord (bytes "a") 8 streamOfA]) :=
  theme_confined zipSystem_destination zipSystem_destination

/-- A name that leads out of the directory, and a directory that is made there. -/
theorem name_leads_out :
    let record := zipRecord (bytes "../evil/") 0 []
    ∃ s, decompressZip zlibOfA zipSystem (zipArchive (bytes "../evil/") [0, 0, 0, 0] 0 0 [])
        (bytes "/t") [record] 1 = .ok (s, some .noErr) ∧
      bytes "/t/../evil" ∈ s.made ∧ ¬ Confined zipSystem (bytes "/t") s := by
  refine ⟨⟨[bytes "/t/../evil"], [], [], 1⟩, rfl, List.mem_cons_self, fun hs => ?_⟩
  obtain ⟨c, cs, hbelow⟩ := hs.1 _ List.mem_cons_self
  have hout : locate zipSystem.cwd (bytes "/t/../evil") = [bytes "evil"] := by decide
  have hdest : locate zipSystem.cwd (bytes "/t") = [bytes "t"] := by decide
  rw [hout, hdest] at hbelow
  exact absurd (List.cons.inj hbelow).1 (by decide)

end FreeAmp.Ui
