/-
  Ui/ThemeZipName.lean --- the two walks over the records of a theme archive.

  `Walk` is the walk of a `DecompressGZ` that succeeds, by where it finds its headers, and
  `stopOf` what `GetDescriptiveName` should find on it.  That one passes over the data and
  the padding of a file only if its size is positive: behind an empty file it takes the
  padding for a header (`empty_file_hides_title`).
-/
import FreeAmp.Ui.ThemeZipRoundTrip

namespace FreeAmp.Ui

open FreeAmp.Base FreeAmp.Lib

variable {archive : Text} {pos : Nat} {r : Text}

/-! ## Sizes -/

theorem padding_eq (size : Int) : padding size = 512 - size.tmod 512 := by
  have hdiv := Int.mul_tdiv_add_tmod size 512
  unfold padding
  omega

theorem padding_pos (size : Int) : 0 < padding size := by
  have hmod := Int.tmod_lt_of_pos size (show (0 : Int) < 512 by decide)
  rw [padding_eq]
  omega

theorem padding_le (size : Int) : padding size ≤ 1023 := by
  have hmod := Int.lt_tmod_of_pos size (show (0 : Int) < 512 by decide)
  rw [padding_eq]
  omega

theorem toLong_ofInt {z : Int} (hlow : -2147483648 ≤ z) (hhigh : z < 2147483648) :
    toLong (UInt32.ofInt z) = z := by
  unfold toLong
  rw [toNat_ofInt]
  split <;> omega

theorem fromOct_bounds (field : Text) :
    -2147483648 ≤ fromOct field ∧ fromOct field < 2147483648 := by
  have hlong : ∀ x : UInt32, -2147483648 ≤ toLong x ∧ toLong x < 2147483648 :=
    fun x => ⟨toLong_low x, Int.lt_add_one_of_le (toLong_high x)⟩
  unfold fromOct
  split
  · decide
  · dsimp only
    split
    · exact hlong _
    · split
      · decide
      · exact hlong _

/-- The size of a file that is passed over with its padding: it is positive, and an `int`
holds the two of them. -/
def Skips (r : Text) : Prop := 0 < sizeOf r ∧ sizeOf r + padding (sizeOf r) < 2147483648

theorem skipOf_of_lt (h : sizeOf r + padding (sizeOf r) < 2147483648) :
    skipOf r = sizeOf r + padding (sizeOf r) := by
  have hlow := (fromOct_bounds ((r.drop 124).take 11)).1
  have hsize : -2147483648 ≤ sizeOf r := hlow
  have hpadding := padding_pos (sizeOf r)
  exact toLong_ofInt (by omega) h

theorem skipOf_neg (h : ¬ sizeOf r + padding (sizeOf r) < 2147483648) : skipOf r < 0 := by
  have hhigh := (fromOct_bounds ((r.drop 124).take 11)).2
  have hsize : sizeOf r < 2147483648 := hhigh
  have hpadding := padding_le (sizeOf r)
  unfold skipOf toLong
  rw [toNat_ofInt]
  split <;> omega

/-- Where the next record is, for `DecompressGZ`. -/
def nextOf (pos : Nat) (r : Text) : Nat :=
  pos + recordSize + (sizeOf r).toNat + (padding (sizeOf r)).toNat

/-- The seek comes to the next record exactly if the size is one that is passed over. -/
theorem gzseek_skipOf (pos : Nat) (hzero : sizeOf r ≠ 0) :
    gzseek (pos + recordSize) (skipOf r) = nextOf pos r ↔ Skips r := by
  have hpadding := padding_pos (sizeOf r)
  unfold gzseek nextOf Skips
  by_cases hfits : sizeOf r + padding (sizeOf r) < 2147483648
  · rw [skipOf_of_lt hfits]
    constructor
    · intro hseek
      refine ⟨?_, hfits⟩
      by_contra hsize
      split at hseek <;> omega
    · rintro ⟨hsize, -⟩
      rw [if_neg (by omega)]
      omega
  · have hneg := skipOf_neg hfits
    constructor
    · intro hseek
      split at hseek <;> omega
    · exact fun h => absurd h.2 hfits

theorem ne_nextOf (pos : Nat) (r : Text) : pos + recordSize ≠ nextOf pos r := by
  have hpadding := padding_pos (sizeOf r)
  unfold nextOf
  omega

/-! ## The walk of `DecompressGZ` -/

/-- The records from a position on, up to the end marker, by where they are. -/
inductive Walk (archive : Text) : Nat → List Nat → Prop where
  | last {pos : Nat} : checkHeader archive pos = .last → Walk archive pos [pos]
  | file {pos : Nat} {r : Text} {headers : List Nat} : checkHeader archive pos = .record r →
      IsFile r → (dataOf archive pos r).length = (sizeOf r).toNat →
      Walk archive (nextOf pos r) headers → Walk archive pos (pos :: headers)
  | directory {pos : Nat} {r : Text} {headers : List Nat} : checkHeader archive pos = .record r →
      typeflagOf r = dirType → Walk archive (pos + recordSize) headers →
      Walk archive pos (pos :: headers)

theorem Run.walk {sys : System} {dest : Text} {u v : Unpacking} {err : Error}
    (h : Run sys archive dest u err v) (hnone : err = .noErr) :
    ∃ headers, Walk archive u.pos headers ∧ v.headers = u.headers ++ headers := by
  induction h with
  | unpacked hrecord hunpacked _ ih =>
    obtain ⟨headers, hwalk, hheaders⟩ := ih hnone
    rw [hunpacked.pos] at hwalk
    refine ⟨_, .file hrecord hunpacked.isFile hunpacked.full hwalk, ?_⟩
    rw [hheaders, hunpacked.headers, List.append_assoc, List.singleton_append]
  | passed hrecord hpassed _ ih =>
    obtain ⟨headers, hwalk, hheaders⟩ := ih hnone
    rw [hpassed.state] at hwalk hheaders
    refine ⟨_, .directory hrecord hpassed.isDirectory hwalk, ?_⟩
    rw [hheaders, List.append_assoc, List.singleton_append]
  | last hlast => exact ⟨_, .last hlast, rfl⟩
  | failed herr _ => exact absurd hnone herr

theorem Walk.room {headers : List Nat} (h : Walk archive pos headers) :
    pos + recordSize ≤ archive.length := by
  have hshort : checkHeader archive pos ≠ .short := by
    cases h with
    | last hlast =>
      rw [hlast]
      nofun
    | file hrecord | directory hrecord =>
      rw [hrecord]
      nofun
  exact checkHeader_room hshort

/-! ## The name of a theme -/

/-- The headers up to the one that names the theme, and its name: that of the directory, or
the first line of a `title.txt` that is not empty, or none. -/
def stopOf (archive : Text) : List Nat → List Nat × Text
  | [] => ([], [])
  | pos :: headers =>
    match checkHeader archive pos with
    | .record r =>
      if typeflagOf r = dirType then ([pos], directoryName r)
      else if isTitle r = true ∧ 0 < sizeOf r then
        ([pos], firstLine (dataOf archive pos r))
      else (pos :: (stopOf archive headers).1, (stopOf archive headers).2)
    | _ => ([pos], [])

/-- What ends the first line of a title. -/
def lineEnd (c : UInt8) : Bool := c == 0 || c == 10 || c == 13

/-- The data of a `title.txt` with the padding behind it. -/
def titleText (archive : Text) (pos : Nat) (r : Text) : Text :=
  gzread archive (pos + recordSize) (sizeOf r + padding (sizeOf r)).toNat

/-- A title that can be read: `strchr` stops in its data or the padding, and its first line
ends in the data or right behind. -/
def TitleEnds (archive : Text) (pos : Nat) (r : Text) : Prop :=
  (10 ∈ titleText archive pos r ∨ 0 ∈ titleText archive pos r) ∧
    ((∃ c ∈ dataOf archive pos r, lineEnd c = true) ∨
      ∀ c ∈ gzread archive (pos + recordSize + (sizeOf r).toNat) 1, lineEnd c = true)

/-- The archives, from a position on, that `GetDescriptiveName` can read: no file before the
record that names the theme is empty. -/
inductive Readable (archive : Text) : Nat → Prop where
  | last {pos : Nat} : checkHeader archive pos = .last → Readable archive pos
  | directory {pos : Nat} {r : Text} : checkHeader archive pos = .record r →
      typeflagOf r = dirType → Readable archive pos
  | title {pos : Nat} {r : Text} : checkHeader archive pos = .record r → IsFile r →
      isTitle r = true → Skips r → TitleEnds archive pos r → Readable archive pos
  | file {pos : Nat} {r : Text} : checkHeader archive pos = .record r → IsFile r →
      isTitle r = false → Skips r → Readable archive (nextOf pos r) → Readable archive pos

theorem dirType_of_isFile (h : IsFile r) : typeflagOf r ≠ dirType := by
  rcases h with h | h <;> rw [h] <;> decide

theorem readable_file (hrecord : checkHeader archive pos = .record r) (hfile : IsFile r) :
    Readable archive pos ↔
      Skips r ∧ if isTitle r then TitleEnds archive pos r else Readable archive (nextOf pos r) := by
  constructor
  · intro h
    cases h with
    | last hlast =>
      rw [hrecord] at hlast
      cases hlast
    | directory hother hdir =>
      rw [hrecord] at hother
      cases hother
      exact absurd hdir (dirType_of_isFile hfile)
    | title hother _ htitle hskips hends =>
      rw [hrecord] at hother
      cases hother
      rw [if_pos htitle]
      exact ⟨hskips, hends⟩
    | file hother _ htitle hskips hnext =>
      rw [hrecord] at hother
      cases hother
      rw [if_neg (Bool.eq_false_iff.mp htitle)]
      exact ⟨hskips, hnext⟩
  · rintro ⟨hskips, hrest⟩
    split at hrest
    · rename_i htitle
      exact .title hrecord hfile htitle hskips hrest
    · rename_i htitle
      exact .file hrecord hfile (Bool.eq_false_iff.mpr htitle) hskips hrest

/-- A walk starts where its first header is, and so does the part of it to the name. -/
theorem Walk.stopOf_head {headers : List Nat} (h : Walk archive pos headers) :
    ∃ more, (stopOf archive headers).1 = pos :: more := by
  cases h with
  | last hlast =>
    rw [stopOf, hlast]
    exact ⟨[], rfl⟩
  | file hrecord hfile =>
    rw [stopOf, hrecord]
    dsimp only
    rw [if_neg (dirType_of_isFile hfile)]
    split
    · exact ⟨[], rfl⟩
    · exact ⟨_, rfl⟩
  | directory hrecord hdir =>
    rw [stopOf, hrecord]
    dsimp only
    rw [if_pos hdir]
    exact ⟨[], rfl⟩

/-! ## The first line -/

theorem firstLine_eq (text : Text) : firstLine text = text.takeWhile (fun c => !lineEnd c) := by
  unfold firstLine cStr
  rw [List.takeWhile_takeWhile, List.takeWhile_takeWhile]
  congr 1
  funext c
  simp only [lineEnd, bne, Bool.decide_and, Bool.not_or, Bool.decide_eq_true]
  cases c == 0 <;> cases c == 10 <;> cases c == 13 <;> rfl

/-- What is behind a list has no part in its prefix exactly if the prefix ends there. -/
theorem takeWhile_append_eq_iff {α : Type} {p : α → Bool} (s t : List α) :
    (s ++ t).takeWhile p = s.takeWhile p ↔
      (∃ c ∈ s, p c = false) ∨ ∀ c ∈ t.take 1, p c = false := by
  induction s with
  | nil =>
    cases t with
    | nil => simp
    | cons d t =>
      rw [List.nil_append, List.takeWhile_cons]
      cases hd : p d <;> simp [hd]
  | cons d s ih =>
    rw [List.cons_append, List.takeWhile_cons, List.takeWhile_cons]
    cases hd : p d with
    | false => simp [hd]
    | true => simp [hd, ih]

theorem readTitle_iff {s : Naming} (hsize : 0 < sizeOf r) (hpos : s.pos = pos + recordSize)
    (hroom : nextOf pos r ≤ archive.length) :
    (∃ s', readTitle archive r s = .returned .noErr s' ∧ s'.headers = s.headers ∧
      s'.name = firstLine (dataOf archive pos r)) ↔ Skips r ∧ TitleEnds archive pos r := by
  have hpadding := padding_pos (sizeOf r)
  by_cases hfits : sizeOf r + padding (sizeOf r) < 2147483648
  · have hsplit : titleText archive pos r = dataOf archive pos r ++
        gzread archive (pos + recordSize + (sizeOf r).toNat) (padding (sizeOf r)).toNat := by
      unfold titleText dataOf
      rw [← gzread_add, ← Int.toNat_add (Int.le_of_lt hsize) (Int.le_of_lt hpadding)]
    have hfirst : (gzread archive (pos + recordSize + (sizeOf r).toNat)
        (padding (sizeOf r)).toNat).take 1 =
          gzread archive (pos + recordSize + (sizeOf r).toNat) 1 := by
      unfold gzread
      rw [List.take_take]
      congr 1
      omega
    have hline : firstLine (titleText archive pos r) = firstLine (dataOf archive pos r) ↔
        (∃ c ∈ dataOf archive pos r, lineEnd c = true) ∨
          ∀ c ∈ gzread archive (pos + recordSize + (sizeOf r).toNat) 1, lineEnd c = true := by
      rw [firstLine_eq, firstLine_eq, hsplit, takeWhile_append_eq_iff, hfirst]
      simp only [Bool.not_eq_false']
    have hfull : (titleText archive pos r).length =
        (sizeOf r + padding (sizeOf r)).toNat := by
      unfold titleText
      rw [gzread_length]
      unfold nextOf at hroom
      omega
    have hread : readTitle archive r s =
        if 10 ∉ titleText archive pos r ∧ 0 ∉ titleText archive pos r then .overread
        else .returned .noErr { s with
          pos := s.pos + (titleText archive pos r).length
          name := firstLine (titleText archive pos r) } := by
      unfold readTitle
      dsimp only
      rw [skipOf_of_lt hfits, hpos, if_neg (by omega)]
      exact if_neg (not_not.mpr hfull)
    rw [hread]
    unfold TitleEnds
    rw [← hline]
    split
    · rename_i hover
      refine ⟨fun ⟨s', h, _⟩ => absurd h nofun, fun h => ?_⟩
      exact absurd h.2.1 (not_or.mpr hover)
    · rename_i hover
      constructor
      · rintro ⟨s', h, -, hname⟩
        cases h
        exact ⟨⟨hsize, hfits⟩, by rwa [not_and_or, not_not, not_not] at hover, hname⟩
      · exact fun h => ⟨_, rfl, rfl, h.2.2⟩
  · have hread : readTitle archive r s = .badAlloc := by
      unfold readTitle
      dsimp only
      rw [if_pos (skipOf_neg hfits)]
    rw [hread]
    exact ⟨fun ⟨s', h, _⟩ => absurd h nofun, fun h => absurd h.1.2 hfits⟩

theorem readTitle_headers {s s' : Naming} {err : Error}
    (h : readTitle archive r s = .returned err s') : s'.headers = s.headers := by
  unfold readTitle at h
  dsimp only at h
  split at h
  · cases h
  · split at h
    · cases h
      rfl
    · split at h
      · cases h
      · cases h
        rfl

/-! ## The walk of `GetDescriptiveName` -/

/-- How the loop ends. -/
def Ends (archive : Text) (s : Naming) (e : NamingEnd) : Prop :=
  ∃ fuel, namingLoop archive fuel s = some e

theorem ends_error {s : Naming} {e e' : NamingEnd} (h : namingRound archive s = .error e') :
    Ends archive s e ↔ e' = e := by
  constructor
  · rintro ⟨fuel, hloop⟩
    cases fuel with
    | zero => cases hloop
    | succ fuel =>
      rw [namingLoop, h] at hloop
      exact Option.some.inj hloop
  · intro heq
    refine ⟨1, ?_⟩
    rw [namingLoop, h, heq]

theorem ends_ok {s s₁ : Naming} {e : NamingEnd} (h : namingRound archive s = .ok s₁) :
    Ends archive s e ↔ Ends archive s₁ e := by
  constructor
  · rintro ⟨fuel, hloop⟩
    cases fuel with
    | zero => cases hloop
    | succ fuel =>
      rw [namingLoop, h] at hloop
      exact ⟨fuel, hloop⟩
  · rintro ⟨fuel, hloop⟩
    refine ⟨fuel + 1, ?_⟩
    rw [namingLoop, h]
    exact hloop

/-- A round takes the record at the position as a header. -/
theorem namingRound_headers (archive : Text) (s : Naming) :
    (∀ s₁, namingRound archive s = .ok s₁ → s₁.headers = s.headers ++ [s.pos]) ∧
      ∀ err s₁, namingRound archive s = .error (.returned err s₁) →
        s₁.headers = s.headers ++ [s.pos] := by
  unfold namingRound
  dsimp only
  cases checkHeader archive s.pos with
  | short | last | bad =>
    refine ⟨nofun, fun err s₁ h => ?_⟩
    cases h
    rfl
  | record r =>
    dsimp only
    split
    · refine ⟨nofun, fun err s₁ h => ?_⟩
      cases h
      rfl
    · split
      · split
        · refine ⟨nofun, fun err s₁ h => ?_⟩
          exact readTitle_headers (Except.error.inj h)
        · refine ⟨fun s₁ h => ?_, nofun⟩
          cases h
          rfl
      · split <;>
        · refine ⟨fun s₁ h => ?_, nofun⟩
          cases h
          rfl

theorem namingLoop_headers {s' : Naming} {err : Error} : ∀ (fuel : Nat) {s : Naming},
    namingLoop archive fuel s = some (.returned err s') →
      ∃ more, s'.headers = s.headers ++ s.pos :: more := by
  intro fuel
  induction fuel with
  | zero => exact fun h => absurd h nofun
  | succ fuel ih =>
    intro s h
    have hheaders := namingRound_headers archive s
    rw [namingLoop] at h
    cases hround : namingRound archive s with
    | error e =>
      rw [hround] at h
      cases h
      exact ⟨[], hheaders.2 err s' hround⟩
    | ok s₁ =>
      rw [hround] at h
      obtain ⟨more, hmore⟩ := ih h
      refine ⟨s₁.pos :: more, ?_⟩
      rw [hmore, hheaders.1 s₁ hround, List.append_assoc, List.singleton_append]

/-- The loop succeeds, and finds on the walk what it should. -/
def Finds (archive : Text) (headers : List Nat) (s : Naming) : Prop :=
  ∃ s', Ends archive s (.returned .noErr s') ∧
    s'.headers = s.headers ++ (stopOf archive headers).1 ∧ s'.name = (stopOf archive headers).2

theorem Finds.pos_eq {headers : List Nat} {s : Naming} (h : Finds archive headers s)
    (hwalk : Walk archive pos headers) : s.pos = pos := by
  obtain ⟨s', ⟨fuel, hloop⟩, hheaders, -⟩ := h
  obtain ⟨more, hmore⟩ := namingLoop_headers fuel hloop
  obtain ⟨rest, hrest⟩ := hwalk.stopOf_head
  rw [hmore, hrest] at hheaders
  exact (List.cons.inj (List.append_cancel_left hheaders)).1

theorem finds_cons {headers : List Nat} {s s₁ : Naming}
    (hstop : stopOf archive (s.pos :: headers) =
      (s.pos :: (stopOf archive headers).1, (stopOf archive headers).2))
    (hround : namingRound archive s = .ok s₁) :
    Finds archive (s.pos :: headers) s ↔ Finds archive headers s₁ := by
  have hheaders := (namingRound_headers archive s).1 s₁ hround
  unfold Finds
  rw [hstop, hheaders]
  simp only [ends_ok hround, List.append_assoc, List.singleton_append]

/-- On the walk of `DecompressGZ` the loop finds what it should exactly if the archive can be
read. -/
theorem Walk.finds_iff {headers : List Nat} (h : Walk archive pos headers) :
    ∀ {s : Naming}, s.pos = pos → s.name = [] →
      (Finds archive headers s ↔ Readable archive pos) := by
  induction h with
  | @last pos hlast =>
    rintro s rfl hname
    have hround : namingRound archive s = .error (.returned .noErr
        { s with pos := s.pos + recordSize, headers := s.headers ++ [s.pos] }) := by
      unfold namingRound
      rw [hlast]
    refine iff_of_true ⟨_, (ends_error hround).mpr rfl, ?_, ?_⟩ (.last hlast)
    · rw [stopOf, hlast]
    · rw [stopOf, hlast]
      exact hname
  | @directory pos r headers hrecord hdir hrest ih =>
    rintro s rfl hname
    have hround : namingRound archive s = .error (.returned .noErr
        ⟨s.pos + recordSize, directoryName r, s.headers ++ [s.pos]⟩) := by
      unfold namingRound
      rw [hrecord]
      exact if_pos hdir
    refine iff_of_true ⟨_, (ends_error hround).mpr rfl, ?_, ?_⟩ (.directory hrecord hdir)
    · rw [stopOf, hrecord]
      dsimp only
      rw [if_pos hdir]
    · rw [stopOf, hrecord]
      dsimp only
      rw [if_pos hdir]
  | @file pos r headers hrecord hfile hfull hrest ih =>
    rintro s rfl hname
    have hdir := dirType_of_isFile hfile
    have hstop : ¬ (isTitle r = true ∧ 0 < sizeOf r) →
        stopOf archive (s.pos :: headers) =
          (s.pos :: (stopOf archive headers).1, (stopOf archive headers).2) := by
      intro hnot
      rw [stopOf, hrecord]
      dsimp only
      rw [if_neg hdir, if_neg hnot]
    -- the state in which the record has been read
    generalize hs₁ : ({ s with
      pos := s.pos + recordSize, headers := s.headers ++ [s.pos] } : Naming) = s₁
    have hs₁pos : s₁.pos = s.pos + recordSize := by rw [← hs₁]
    have hround : namingRound archive s =
        if isTitle r then
          if sizeOf r ≠ 0 then .error (readTitle archive r s₁) else .ok s₁
        else if sizeOf r ≠ 0 then .ok { s₁ with pos := gzseek s₁.pos (skipOf r) }
        else .ok s₁ := by
      subst hs₁
      unfold namingRound
      rw [hrecord]
      exact if_neg hdir
    rw [readable_file hrecord hfile]
    by_cases hzero : sizeOf r = 0
    · -- the next header is taken from the padding
      have hok : namingRound archive s = .ok s₁ := by
        rw [hround, if_neg (not_not.mpr hzero), if_neg (not_not.mpr hzero), ite_self]
      rw [finds_cons (hstop fun hnot => by omega) hok]
      refine iff_of_false (fun hfinds => ?_) fun hread => ?_
      · exact ne_nextOf s.pos r (hs₁pos ▸ hfinds.pos_eq hrest)
      · exact absurd hread.1.1 (by omega)
    · rw [if_pos hzero, if_pos hzero] at hround
      by_cases htitle : isTitle r = true
      · rw [if_pos htitle] at hround ⊢
        by_cases hsize : 0 < sizeOf r
        · have hheaders : s₁.headers = s.headers ++ [s.pos] := by rw [← hs₁]
          rw [← readTitle_iff hsize hs₁pos (Nat.le_trans (Nat.le_add_right _ _) hrest.room)]
          unfold Finds
          rw [stopOf, hrecord]
          dsimp only
          rw [if_neg hdir, if_pos ⟨htitle, hsize⟩, ← hheaders]
          simp only [ends_error hround]
        · -- the padding is taken for the title of a file with no data
          refine iff_of_false ?_ fun hread => hsize hread.1.1
          rintro ⟨s', hends, hheaders, -⟩
          have htaken := (namingRound_headers archive s).2 .noErr s'
            (hround.trans (congrArg _ ((ends_error hround).mp hends)))
          obtain ⟨more, hmore⟩ := hrest.stopOf_head
          rw [hstop fun hnot => hsize hnot.2, htaken, hmore] at hheaders
          cases List.append_cancel_left hheaders
      · have hnot : ¬ (isTitle r = true ∧ 0 < sizeOf r) := fun hnot => htitle hnot.1
        rw [if_neg htitle] at hround ⊢
        rw [finds_cons (hstop hnot) hround]
        have hseek := gzseek_skipOf s.pos hzero
        rw [← hs₁pos] at hseek
        have hname₁ : s₁.name = [] := by rw [← hs₁, hname]
        constructor
        · intro hfinds
          have hpos := hfinds.pos_eq hrest
          exact ⟨hseek.mp hpos, (ih hpos hname₁).mp hfinds⟩
        · rintro ⟨hskips, hread⟩
          exact (ih (s := { s₁ with pos := gzseek s₁.pos (skipOf r) }) (hseek.mpr hskips)
            hname₁).mpr hread

section Packed

variable {time : Text → Nat}

theorem packed_accepted {sources : List Source} (hsources : ∀ f ∈ sources, Packable time f)
    (hnames : (sources.map Source.name).Nodup) (hsums : ∀ f ∈ sources, 0 ≤ recordSum (f.blank time))
    (dest : Text) : ∃ fuel u, decompressGZ workingSystem
      (sources.flatMap (Source.packed time) ++ (List.replicate recordSize 0 ++ [])) dest
      (fun _ => none) fuel = some (.noErr, u) := by
  have hworks : Works workingSystem dest sources := ⟨fun _ _ => rfl, fun _ => rfl, fun _ => rfl⟩
  obtain ⟨fuel, u, hrun, -⟩ :=
    (comesBack_iff hsources hnames hworks).mpr hsums (fun _ => none) fun _ => rfl
  exact ⟨fuel, u, hrun⟩

theorem not_readable_of_empty {f : Source} (h : Packable time f) (hempty : f.contents = [])
    (hsum : 0 ≤ recordSum (f.blank time)) (rest : Text) : ¬ Readable (f.packed time ++ rest) 0 := by
  have hheader : checkHeader (f.packed time ++ rest) 0 = .record (f.blank time) := by
    rw [packed_eq, List.append_assoc]
    exact checkHeader_header h.fits hsum [] _
  rw [readable_file hheader (.inl (typeflagOf_blank h))]
  rintro ⟨⟨hpos, -⟩, -⟩
  rw [sizeOf_blank h, hempty] at hpos
  exact absurd hpos (by decide)

def titleSource : Source := ⟨bytes "/title.txt", bytes "T\n"⟩

theorem titleSource_packable : Packable clock titleSource :=
  ⟨by decide, by decide, by decide, by decide, by decide⟩

theorem titleSource_sum : 0 ≤ recordSum (titleSource.blank clock) := by decide +kernel

/-- An empty file `a`. -/
def emptySource : Source := ⟨bytes "/a", []⟩

theorem emptySource_packable : Packable clock emptySource :=
  ⟨by decide, by decide, by decide, by decide, by decide⟩

theorem emptySource_sum : 0 ≤ recordSum (emptySource.blank clock) := by decide +kernel

end Packed

end FreeAmp.Ui
