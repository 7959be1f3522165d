/-
  Base/SearchMusic.lean --- the walk of `MusicCatalog::DoSearchMusic` in
  `base/src/musiccatalog.cpp`.

  What is done with a file is a parameter here.  The program's recursion has no limit; here
  it is followed to a depth, and a tree that is no higher is walked to its end.

      doSearchMusic_ok_iff   the walk is one loop over the files that it comes to
      mem_filesFound         which files these are
      filesFound_ok_iff      when the walk is brought to its end
-/
import FreeAmp.Base.FindFile

namespace FreeAmp.Base.Search

open FreeAmp.Lib DirectoryTree

variable {σ : Type} (t : DirectoryTree) (file : σ → Text → Text → Except SearchFault σ)

/-- `!strcmp(path, "/dev") || !strcmp(path, "/proc")` -/
def leftOut (path : Text) : Bool := path == bytes "/dev" || path == bytes "/proc"

/-- What is done with what was found in a directory. -/
def searchEntry (search : σ → Text → Except SearchFault σ) (path : Text) (c : σ)
    (find : Text × Option Attribute) : Except SearchFault σ :=
  match find.2 with
  | none => .error .uninitialised
  | some .symlink => .ok c
  | some .directory =>
    if find.1 = dot ∨ find.1 = dotDot then .ok c else search c (joined path find.1)
  | some .normal => file c path find.1

/-- `DoSearchMusic`, `m_exit` not being set. -/
def doSearchMusic : Nat → σ → Text → Except SearchFault σ
  | 0, _, _ => .error .tooDeep
  | n + 1, c, path =>
    if leftOut path then .ok c
    else if path = [] then .error .emptyPath
    else do
      let found ← findFiles t (searched path)
      match found with
      | none => .ok c
      | some found => found.foldlM (searchEntry file (doSearchMusic n) path) c

/-! ## The files it comes to -/

/-- The files in a directory, and those that are found below it. -/
def entryFiles (search : Text → Except SearchFault (List (Text × Text))) (path : Text)
    (find : Text × Option Attribute) : Except SearchFault (List (Text × Text)) :=
  match find.2 with
  | none => .error .uninitialised
  | some .symlink => .ok []
  | some .directory =>
    if find.1 = dot ∨ find.1 = dotDot then .ok [] else search (joined path find.1)
  | some .normal => .ok [(path, find.1)]

/-- The files that the walk comes to, each with the path of its directory. -/
def filesFound : Nat → Text → Except SearchFault (List (Text × Text))
  | 0, _ => .error .tooDeep
  | n + 1, path =>
    if leftOut path then .ok []
    else if path = [] then .error .emptyPath
    else do
      let found ← findFiles t (searched path)
      match found with
      | none => .ok []
      | some found => do
          let parts ← found.mapM (entryFiles (filesFound n) path)
          .ok parts.flatten

variable {t file}

theorem ok_nil_iff {c c' : σ} :
    (.ok c : Except SearchFault σ) = .ok c' ↔
      ∃ files, (.ok [] : Except SearchFault (List (Text × Text))) = .ok files ∧
        files.foldlM (fun c f => file c f.1 f.2) c = .ok c' := by
  constructor
  · exact fun h => ⟨[], rfl, h⟩
  · intro h
    obtain ⟨files, hfiles, h⟩ := h
    rw [← Except.ok.inj hfiles] at h
    exact h

theorem error_iff_error {f : SearchFault} {c c' : σ} :
    (.error f : Except SearchFault σ) = .ok c' ↔
      ∃ files, (.error f : Except SearchFault (List (Text × Text))) = .ok files ∧
        files.foldlM (fun c f => file c f.1 f.2) c = .ok c' :=
  ⟨fun h => absurd h nofun, fun ⟨_, hfiles, _⟩ => absurd hfiles nofun⟩

/-- The walk is one loop over the files that it comes to. -/
theorem doSearchMusic_ok_iff {n : Nat} {c c' : σ} {path : Text} :
    doSearchMusic t file n c path = .ok c' ↔
      ∃ files, filesFound t n path = .ok files ∧
        files.foldlM (fun c f => file c f.1 f.2) c = .ok c' := by
  induction n generalizing c c' path with
  | zero => exact error_iff_error
  | succ n ih =>
    unfold doSearchMusic filesFound
    split
    · exact ok_nil_iff
    split
    · exact error_iff_error
    cases findFiles t (searched path) with
    | error f => exact error_iff_error
    | ok found =>
      rw [ok_bind, ok_bind]
      cases found with
      | none => exact ok_nil_iff
      | some found =>
        have hround : ∀ find ∈ found, ∀ c c',
            searchEntry file (doSearchMusic t file n) path c find = .ok c' ↔
              ∃ files, entryFiles (filesFound t n) path find = .ok files ∧
                files.foldlM (fun c f => file c f.1 f.2) c = .ok c' := by
          intro find _ c c'
          unfold searchEntry entryFiles
          split
          · exact error_iff_error
          · exact ok_nil_iff
          · split
            · exact ok_nil_iff
            · exact ih
          · simp only [Except.ok.injEq, exists_eq_left', List.foldlM_cons, List.foldlM_nil,
              bind_pure]
        simp only [foldlM_flatten_ok_iff hround, bind_eq_ok, Except.ok.injEq]
        constructor
        · intro h
          obtain ⟨parts, hparts, h⟩ := h
          exact ⟨parts.flatten, ⟨parts, hparts, rfl⟩, h⟩
        · intro h
          obtain ⟨files, ⟨parts, hparts, rfl⟩, h⟩ := h
          exact ⟨parts, hparts, h⟩

/-! ## Which files these are -/

/-- The walk goes into the directory that the path leads to. -/
structure Opens (t : DirectoryTree) (path : Text) (place : Place) : Prop where
  entered : leftOut path = false
  clean : Clean path
  leads : t.resolve path = some (.directory place)

/-- The paths that the walk comes to from a path. -/
inductive Reached (t : DirectoryTree) : Text → Text → Prop where
  | here (path : Text) : Reached t path path
  | inside {path name p : Text} {place : Place} (hopens : Opens t path place)
      (hentry : (name, .directory) ∈ t.entries place) (hinside : Reached t (joined path name) p) :
      Reached t path p

/-- What the walk is not stopped by when it comes to a path. -/
def Passable (t : DirectoryTree) (path : Text) : Prop :=
  leftOut path = false → path ≠ [] ∧ StaysInNames t path

theorem ne_nil_of_resolve {path : Text} {spot : Spot} (h : t.resolve path = some spot) :
    path ≠ [] := by
  intro hempty
  rw [hempty] at h
  exact absurd h nofun

theorem Opens.unique {path : Text} {place place' : Place} (h : Opens t path place)
    (h' : Opens t path place') : place' = place := by
  have hleads := h'.leads
  rw [h.leads] at hleads
  exact (Spot.directory.inj (Option.some.inj hleads)).symm

theorem Opens.passable {path : Text} {place : Place} (h : Opens t path place) :
    Passable t path := by
  intro _
  have hne := ne_nil_of_resolve h.leads
  exact ⟨hne, findFiles_ok_iff.mp ⟨_, findFiles_of_clean h.clean hne⟩⟩

/-- In a directory that it goes into the walk comes to the entries; the two names of the
directory itself and of the one above are passed over. -/
theorem filesFound_opens {n : Nat} {path : Text} {place : Place} (h : Opens t path place) :
    filesFound t (n + 1) path =
      ((t.entries place).mapM fun e =>
        entryFiles (filesFound t n) path (e.1, some e.2.attribute)) >>=
          fun parts => .ok parts.flatten := by
  have hne := ne_nil_of_resolve h.leads
  have hdots : ∀ name, name = dot ∨ name = dotDot →
      entryFiles (filesFound t n) path (name, some .directory) = .ok [] := fun _ hname =>
    if_pos hname
  rw [filesFound, h.entered, if_neg Bool.false_ne_true, if_neg hne,
    findFiles_of_clean h.clean hne, h.leads, ok_bind]
  simp only [listing, List.map_cons, List.map_map, List.mapM_cons, hdots dot (.inl rfl),
    hdots dotDot (.inr rfl), ok_bind, List.mapM_map]
  have hcomp : (entryFiles (filesFound t n) path ∘ (fun e : Text × Attribute => (e.1, some e.2)) ∘
      fun e : Text × Entry => (e.1, e.2.attribute)) =
        fun e => entryFiles (filesFound t n) path (e.1, some e.2.attribute) := rfl
  rw [hcomp]
  cases (t.entries place).mapM fun e =>
    entryFiles (filesFound t n) path (e.1, some e.2.attribute) <;> rfl

theorem attribute_directory {e : Entry} (h : e.attribute = .directory) : e = .directory := by
  cases e with
  | directory => rfl
  | _ => exact absurd h nofun

theorem entryFiles_directory {search : Text → Except SearchFault (List (Text × Text))}
    {path name : Text} {place : Place} (h : (name, .directory) ∈ t.entries place) :
    entryFiles search path (name, some Entry.directory.attribute) =
      search (joined path name) := by
  obtain ⟨-, hdot, hdotDot, -⟩ := t.legal place _ h
  exact if_neg (not_or.mpr ⟨hdot, hdotDot⟩)

theorem opens_of_found {path : Text} {found : List (Text × Option Attribute)}
    (hentered : leftOut path = false) (hne : path ≠ [])
    (hfound : findFiles t (searched path) = .ok (some found)) :
    ∃ place, Opens t path place ∧ found = (listing t place).map fun e => (e.1, some e.2) := by
  by_cases hclean : Clean path
  · rw [findFiles_of_clean hclean hne] at hfound
    have hsome := Except.ok.inj hfound
    split at hsome
    · rename_i place hplace
      exact ⟨place, ⟨hentered, hclean, hplace⟩, (Option.some.inj hsome).symm⟩
    · exact absurd hsome nofun
  · exact absurd (findFiles_of_wildcard hclean hfound) nofun

theorem filesFound_of_not_opens {n : Nat} {path : Text} {files : List (Text × Text)}
    (h : ¬ ∃ place, Opens t path place) (hok : filesFound t (n + 1) path = .ok files) :
    files = [] := by
  rw [filesFound] at hok
  split at hok
  · exact (Except.ok.inj hok).symm
  split at hok
  · exact absurd hok nofun
  rename_i hentered hne
  obtain ⟨found, hfound, hok⟩ := bind_eq_ok.mp hok
  cases found with
  | none => exact (Except.ok.inj hok).symm
  | some found =>
    obtain ⟨place, hopens, -⟩ := opens_of_found (Bool.not_eq_true _ ▸ hentered) hne hfound
    exact absurd ⟨place, hopens⟩ h

/-- The files that the walk comes to are those that are not directories or links, in the
directories it goes into. -/
theorem mem_filesFound {n : Nat} {path p name : Text} {files : List (Text × Text)}
    (hok : filesFound t n path = .ok files) :
    (p, name) ∈ files ↔
      Reached t path p ∧ ∃ place, Opens t p place ∧
        ∃ e ∈ t.entries place, e.1 = name ∧ e.2.attribute = .normal := by
  induction n generalizing path files with
  | zero => exact absurd hok nofun
  | succ n ih =>
    by_cases hopens : ∃ place, Opens t path place
    · obtain ⟨place, hopens⟩ := hopens
      rw [filesFound_opens hopens] at hok
      obtain ⟨parts, hparts, hok⟩ := bind_eq_ok.mp hok
      rw [← Except.ok.inj hok, mem_flatten_mapM hparts]
      constructor
      · intro h
        obtain ⟨e, he, part, hpart, hmem⟩ := h
        unfold entryFiles at hpart
        split at hpart
        · exact absurd hpart nofun
        · rw [← Except.ok.inj hpart] at hmem
          exact absurd hmem List.not_mem_nil
        · rename_i hattribute
          split at hpart
          · rw [← Except.ok.inj hpart] at hmem
            exact absurd hmem List.not_mem_nil
          · obtain ⟨hreached, hfile⟩ := (ih hpart).mp hmem
            refine ⟨.inside hopens ?_ hreached, hfile⟩
            rw [← attribute_directory (Option.some.inj hattribute)]
            exact he
        · rename_i hattribute
          rw [← Except.ok.inj hpart, List.mem_singleton, Prod.mk.injEq] at hmem
          obtain ⟨rfl, rfl⟩ := hmem
          exact ⟨.here _, place, hopens, e, he, rfl, Option.some.inj hattribute⟩
      · intro h
        obtain ⟨hreached, place', hopens', e, he, hname, hattribute⟩ := h
        cases hreached with
        | here =>
          rw [hopens.unique hopens'] at he
          refine ⟨e, he, [(p, e.1)], ?_, ?_⟩
          · unfold entryFiles
            rw [hattribute]
          · rw [hname]
            exact List.mem_singleton_self _
        | inside hopens'' hentry hinside =>
          rw [hopens.unique hopens''] at hentry
          obtain ⟨part, hpart⟩ := mapM_ok_iff.mp ⟨parts, hparts⟩ _ hentry
          refine ⟨_, hentry, part, hpart, ?_⟩
          rw [entryFiles_directory hentry] at hpart
          exact (ih hpart).mpr ⟨hinside, place', hopens', e, he, hname, hattribute⟩
    · rw [filesFound_of_not_opens hopens hok]
      constructor
      · exact fun h => absurd h List.not_mem_nil
      · intro h
        obtain ⟨hreached, place, hopens', -⟩ := h
        cases hreached with
        | here => exact absurd ⟨place, hopens'⟩ hopens
        | inside hopens'' _ _ => exact absurd ⟨_, hopens''⟩ hopens

/-! ## The end of the walk -/

/-- A walk to this depth from the path comes to the bottom of the tree. -/
structure DeepEnough (t : DirectoryTree) (n : Nat) (path : Text) : Prop where
  pos : 0 < n
  below : ∀ place, t.resolve path = some (.directory place) → t.height < n + place.length

theorem deepEnough_height (t : DirectoryTree) (path : Text) :
    DeepEnough t (t.height + 1) path where
  pos := Nat.succ_pos _
  below := fun place _ => by omega

theorem resolve_directory {path name : Text} {place : Place} (h : Opens t path place)
    (hentry : (name, .directory) ∈ t.entries place) :
    t.resolve (joined path name) = some (.directory (place ++ [name])) := by
  rw [resolve_joined (ne_nil_of_resolve h.leads) h.leads (t.legal place _ hentry).2.2.2.1]
  exact step_entry hentry

theorem DeepEnough.inside {n : Nat} {path name : Text} {place : Place}
    (h : DeepEnough t (n + 1) path) (hopens : Opens t path place)
    (hentry : (name, .directory) ∈ t.entries place) : DeepEnough t n (joined path name) := by
  have hlow := length_lt_height hentry
  have hdeep := h.below place hopens.leads
  refine ⟨by omega, fun place' hplace' => ?_⟩
  rw [resolve_directory hopens hentry] at hplace'
  rw [← Spot.directory.inj (Option.some.inj hplace'), List.length_append, List.length_singleton]
  omega

/-- Where the walk does not go in, it is stopped by the path alone. -/
theorem filesFound_ok_iff_of_not_opens {n : Nat} {path : Text}
    (h : ¬ ∃ place, Opens t path place) :
    (∃ files, filesFound t (n + 1) path = .ok files) ↔ Passable t path := by
  constructor
  · intro hok hentered
    obtain ⟨files, hok⟩ := hok
    rw [filesFound, hentered, if_neg Bool.false_ne_true] at hok
    split at hok
    · exact absurd hok nofun
    · rename_i hne
      obtain ⟨found, hfound, -⟩ := bind_eq_ok.mp hok
      exact ⟨hne, findFiles_ok_iff.mp ⟨found, hfound⟩⟩
  · intro hpassable
    cases hentered : leftOut path with
    | true =>
      refine ⟨[], ?_⟩
      rw [filesFound, hentered]
      rfl
    | false =>
      obtain ⟨hne, hstays⟩ := hpassable hentered
      obtain ⟨found, hfound⟩ := findFiles_ok_iff.mpr hstays
      rw [filesFound, hentered, if_neg Bool.false_ne_true, if_neg hne, hfound, ok_bind]
      cases found with
      | none => exact ⟨[], rfl⟩
      | some found =>
        obtain ⟨place, hopens, -⟩ := opens_of_found hentered hne hfound
        exact absurd ⟨place, hopens⟩ h

/-- The walk is brought to its end when nothing stops it at any path that it comes to. -/
theorem filesFound_ok_iff {n : Nat} {path : Text} (h : DeepEnough t n path) :
    (∃ files, filesFound t n path = .ok files) ↔ ∀ p, Reached t path p → Passable t p := by
  induction n generalizing path with
  | zero => exact absurd h.pos (Nat.lt_irrefl 0)
  | succ n ih =>
    by_cases hopens : ∃ place, Opens t path place
    · obtain ⟨place, hopens⟩ := hopens
      have hloop : (∃ files, filesFound t (n + 1) path = .ok files) ↔ ∀ e ∈ t.entries place,
          ∃ part, entryFiles (filesFound t n) path (e.1, some e.2.attribute) = .ok part := by
        rw [filesFound_opens hopens, ← mapM_ok_iff]
        simp only [bind_eq_ok]
        constructor
        · intro hok
          obtain ⟨files, parts, hparts, -⟩ := hok
          exact ⟨parts, hparts⟩
        · intro hok
          obtain ⟨parts, hparts⟩ := hok
          exact ⟨parts.flatten, parts, hparts, rfl⟩
      rw [hloop]
      constructor
      · intro hall p hreached
        cases hreached with
        | here => exact hopens.passable
        | inside hopens' hentry hinside =>
          rw [hopens.unique hopens'] at hentry
          obtain ⟨part, hpart⟩ := hall _ hentry
          rw [entryFiles_directory hentry] at hpart
          exact (ih (h.inside hopens hentry)).mp ⟨part, hpart⟩ p hinside
      · intro hall e he
        cases hentry : e.2.attribute with
        | symlink => exact ⟨[], rfl⟩
        | normal => exact ⟨[(path, e.1)], rfl⟩
        | directory =>
          have hdirectory : (e.1, Entry.directory) ∈ t.entries place := by
            rw [← attribute_directory hentry]
            exact he
          obtain ⟨part, hpart⟩ := (ih (h.inside hopens hdirectory)).mpr fun p hreached =>
            hall p (.inside hopens hdirectory hreached)
          exact ⟨part, (entryFiles_directory hdirectory).trans hpart⟩
    · rw [filesFound_ok_iff_of_not_opens hopens]
      constructor
      · intro hpassable p hreached
        cases hreached with
        | here => exact hpassable
        | inside hopens' _ _ => exact absurd ⟨_, hopens'⟩ hopens
      · exact fun hall => hall path (.here path)

theorem matchPattern_fault {pattern string : Text} {f : SearchFault}
    (h : matchPattern pattern string = .error f) : f = .pastName := by
  induction pattern generalizing string with
  | nil => exact absurd h nofun
  | cons c pattern ih =>
    unfold matchPattern at h
    split_ifs at h
    · cases string with
      | nil =>
        dsimp only at h
        unfold beyondName at h
        split at h
        · cases h
        · exact (Except.error.inj h).symm
      | cons d string => exact ih h
    · split at h
      · exact absurd h nofun
      · exact ih h
    · cases string with
      | nil => exact absurd h nofun
      | cons d string =>
        simp only at h
        split at h
        · exact ih h
        · exact absurd h nofun

theorem meets_matching (rest : Text) (names : List Text) :
    Meets (matching rest names) (fun f => f ≠ .tooDeep) fun _ => True := by
  induction names with
  | nil => exact trivial
  | cons name names ih =>
    rw [matching, Meets.bind_iff]
    refine Meets.intro (fun hit _ => ?_) fun f hf => ?_
    · rw [Meets.bind_iff]
      exact ih.mono fun _ _ => trivial
    · rw [matchPattern_fault hf]
      intro hdeep
      cases hdeep

theorem meets_findFiles (lpFileName : Text) :
    Meets (findFiles t lpFileName) (fun f => f ≠ .tooDeep) fun _ => True := by
  unfold findFiles
  split
  · exact nofun
  split
  · exact trivial
  split
  · exact trivial
  · rw [Meets.bind_iff]
    exact (meets_matching _ _).mono fun _ _ => trivial

theorem mem_entries_of_listing {place : Place} {e : Text × Attribute} (he : e ∈ listing t place)
    (hdirectory : e.2 = .directory) (hdots : ¬ (e.1 = dot ∨ e.1 = dotDot)) :
    (e.1, Entry.directory) ∈ t.entries place := by
  unfold listing at he
  rcases List.mem_cons.mp he with rfl | he
  · exact absurd (.inl rfl) hdots
  · rcases List.mem_cons.mp he with rfl | he
    · exact absurd (.inr rfl) hdots
    · obtain ⟨d, hd, rfl⟩ := List.mem_map.mp he
      rw [← attribute_directory hdirectory]
      exact hd

/-- A walk that is deep enough for a directory is so for each that is found in it. -/
theorem DeepEnough.found {n : Nat} {path : Text} {place : Place} (h : DeepEnough t (n + 1) path)
    (hopens : Opens t path place) {find : Text × Option Attribute}
    (hfind : find ∈ (listing t place).map fun e => (e.1, some e.2))
    (hdirectory : find.2 = some .directory) (hdots : ¬ (find.1 = dot ∨ find.1 = dotDot)) :
    DeepEnough t n (joined path find.1) := by
  obtain ⟨e, he, rfl⟩ := List.mem_map.mp hfind
  exact h.inside hopens (mem_entries_of_listing he (Option.some.inj hdirectory) hdots)

theorem meets_doSearchMusic {n : Nat} {c : σ} {path : Text} (h : DeepEnough t n path)
    (hfile : ∀ c p name, Meets (file c p name) (fun f => f ≠ .tooDeep) fun _ => True) :
    Meets (doSearchMusic t file n c path) (fun f => f ≠ .tooDeep) fun _ => True := by
  induction n generalizing c path with
  | zero => exact absurd h.pos (Nat.lt_irrefl 0)
  | succ n ih =>
    unfold doSearchMusic
    split
    · exact trivial
    split
    · exact nofun
    rename_i hentered hne
    rw [Meets.bind_iff]
    refine Meets.intro (fun found hfound => ?_) fun f hf => (meets_findFiles _).of_error hf
    cases found with
    | none => exact trivial
    | some found =>
      obtain ⟨place, hopens, rfl⟩ := opens_of_found (Bool.not_eq_true _ ▸ hentered) hne hfound
      refine Meets.foldlM _ (fun c find hfind _ => ?_) trivial
      unfold searchEntry
      split
      · exact nofun
      · exact trivial
      · split
        · exact trivial
        · rename_i hattribute hdots
          exact ih (h.found hopens hfind hattribute hdots)
      · exact hfile _ _ _

end FreeAmp.Base.Search
