/-
  Base/MissingFile.lean --- the search for a file that is gone, from
  `base/src/missingfile.cpp`.

  It goes through the directories as the search for music does, up to the first file of
  the name it looks for, and gives that file the URL that the other search files it under.

      agrees_findMissing    it finds the first file of the name among those that the search
                            for music comes to
      findMissingFile_iff   when it finds what there is to find
-/
import FreeAmp.Base.SearchPaths

namespace FreeAmp.Base.Search

open FreeAmp.Lib DirectoryTree

/-! ## `MissingFile` -/

/-- The loop of `RecurseFindMissingFile` over what is found in a directory. -/
def findMissingIn (recurse : Text → Except SearchFault (Except Error Text))
    (file searchPath : Text) :
    List (Text × Option Attribute) → Except SearchFault (Except Error Text)
  | [] => .ok (.error .fileNotFound)
  | find :: found =>
    match find.2 with
    | none => .error .uninitialised
    | some .symlink => findMissingIn recurse file searchPath found
    | some .directory =>
      if find.1 = dot ∨ find.1 = dotDot then findMissingIn recurse file searchPath found
      else do
        let ret ← recurse (joined searchPath find.1)
        match ret with
        | .ok newUrl => .ok (.ok newUrl)
        | .error _ => findMissingIn recurse file searchPath found
    | some .normal =>
      if find.1 = file then .ok (.ok (protocol ++ searchPath ++ [dirMarker] ++ file))
      else findMissingIn recurse file searchPath found

/-- `MissingFile::RecurseFindMissingFile`: the new URL, or `kError_FileNotFound`. -/
def recurseFindMissingFile (t : DirectoryTree) (file : Text) :
    Nat → Text → Except SearchFault (Except Error Text)
  | 0, _ => .error .tooDeep
  | n + 1, searchPath =>
    if leftOut searchPath then .ok (.error .fileNotFound)
    else if searchPath = [] then .error .emptyPath
    else do
      let found ← findFiles t (searched searchPath)
      match found with
      | none => .ok (.error .fileNotFound)
      | some found => findMissingIn (recurseFindMissingFile t file n) file searchPath found

/-- `MissingFile::FindMissingFile`, for an item with this URL. -/
def findMissingFile (t : DirectoryTree) (url searchPath : Text) :
    Except SearchFault (Except Error Text) :=
  if dirMarker ∈ url then
    recurseFindMissingFile t (url.reverse.takeWhile (· != dirMarker)).reverse (t.height + 1)
      searchPath
  else .ok (.error .fileNotFound)

/-! ## What it is to find -/

/-- What stands behind the last separator of a URL. -/
def HasBaseName (url name : Text) : Prop := ∃ front, url = front ++ dirMarker :: name ∧
  dirMarker ∉ name

/-- What is reported of a directory is what is in it, and each of its names once. -/
structure ReportsDirectory (t : DirectoryTree) (place : Place)
    (found : List (Text × Option Attribute)) : Prop where
  each : ∀ name kind, (name, kind) ∈ found ↔
    ∃ e ∈ listing t place, name = e.1 ∧ kind = some e.2
  once : (found.map Prod.fst).Nodup

/-- `FindFirstFile` for a path, a separator and `*`, and `FindNextFile` behind it, report the
directory that the path leads to. -/
def Lists (t : DirectoryTree) (path : Text) : Prop :=
  ∀ place, t.resolve path = some (.directory place) →
    ∃ found, findFiles t (path ++ [dirMarker, star]) = .ok (some found) ∧
      ReportsDirectory t place found

/-- A regular file of this name, in a directory below the search path. -/
structure Missed (t : DirectoryTree) (searchPath : Text) (place : Place) (name : Text) :
    Prop where
  below : ∃ base, t.resolve searchPath = some (.directory base) ∧ Below t base place
  outside : Outside place
  file : (name, .file) ∈ t.entries place

/-- The URL is of the file, and the search for music along this path files it under it. -/
def SpelledFor (t : DirectoryTree) (searchPath newUrl : Text) (place : Place) (name : Text) :
    Prop :=
  KeyOf t newUrl place name ∧ ∃ p, Walked t [searchPath] p place ∧ newUrl = urlOf p name

/-- The search comes to its end, finds a file if there is one, and gives its URL. -/
def FindsMissing (t : DirectoryTree) (searchPath url : Text) : Prop :=
  ∃ ret, findMissingFile t url searchPath = .ok ret ∧
    ((∃ newUrl, ret = .ok newUrl) ↔
      ∃ name place, HasBaseName url name ∧ Missed t searchPath place name) ∧
    ∀ newUrl, ret = .ok newUrl → ∃ name place, HasBaseName url name ∧
      Missed t searchPath place name ∧ SpelledFor t searchPath newUrl place name

/-! ## When it does -/

/-- Nothing is in the way of the search; each file that is below the search path has a
namesake in a directory that is gone into; and of the files of one name the first that is
come to is a regular file, and not in `/dev` or `/proc`. -/
structure WellPlaced (t : DirectoryTree) (searchPath : Text) : Prop where
  passable : ∀ p, Reached t searchPath p → Passable t p
  namesake : ∀ place name, Missed t searchPath place name →
    ∃ p, Visits t [searchPath] p name
  first : ∀ files, filesFound t (t.height + 1) searchPath = .ok files →
    ∀ p name, files.find? (fun f => f.2 == name) = some (p, name) →
      ∃ place, Opens t p place ∧ Outside place ∧ (name, .file) ∈ t.entries place

variable {t : DirectoryTree}

/-! ## The directories -/

theorem clean_append_marker {path : Text} : Clean (path ++ [dirMarker]) ↔ Clean path := by
  unfold Clean
  constructor
  · exact fun h c hc => h c (List.mem_append_left _ hc)
  · intro h c hc
    rcases List.mem_append.mp hc with hc | hc
    · exact h c hc
    · rw [List.mem_singleton.mp hc]
      rfl

theorem searched_append_marker (path : Text) :
    searched (path ++ [dirMarker]) = path ++ [dirMarker, star] := by
  unfold searched withMarker
  rw [List.getLast?_concat, if_pos rfl, List.append_assoc]
  rfl

theorem reportsDirectory_listing (t : DirectoryTree) (place : Place) :
    ReportsDirectory t place ((listing t place).map fun e => (e.1, some e.2)) where
  each := by
    intro name kind
    simp only [List.mem_map, Prod.mk.injEq]
    constructor
    · rintro ⟨e, he, rfl, rfl⟩
      exact ⟨e, he, rfl, rfl⟩
    · rintro ⟨e, he, rfl, rfl⟩
      exact ⟨e, he, rfl, rfl⟩
  once := by
    have hnames : ((listing t place).map fun e => (e.1, some e.2)).map Prod.fst =
        dot :: dotDot :: (t.entries place).map Prod.fst := by
      unfold listing
      simp only [List.map_cons, List.map_map]
      rfl
    rw [hnames, List.nodup_cons, List.nodup_cons, List.mem_cons]
    refine ⟨?_, ?_, t.distinct place⟩
    · rintro (hdots | hdot)
      · exact absurd hdots (by decide)
      · obtain ⟨e, he, heq⟩ := List.mem_map.mp hdot
        exact (t.legal place e he).2.1 heq
    · intro hdotDot
      obtain ⟨e, he, heq⟩ := List.mem_map.mp hdotDot
      exact (t.legal place e he).2.2.1 heq

/-- A directory is reported exactly when its path has no wildcard in it. -/
theorem lists_iff {path : Text} :
    Lists t path ↔ Clean path ∨ ∀ place, t.resolve path ≠ some (.directory place) := by
  constructor
  · intro hlists
    by_cases hclean : Clean path
    · exact .inl hclean
    · right
      intro place hplace
      obtain ⟨found, hfound, -⟩ := hlists place hplace
      rw [← searched_append_marker] at hfound
      exact absurd (findFiles_of_wildcard (mt clean_append_marker.mp hclean) hfound) nofun
  · intro h place hplace
    rcases h with hclean | hnone
    · have hne := ne_nil_of_resolve hplace
      have hfiles := @findFiles_of_clean t _ (clean_append_marker.mpr hclean)
        (List.append_ne_nil_of_right_ne_nil path (List.cons_ne_nil dirMarker []))
      rw [searched_append_marker, (resolve_of_marker hne).mpr hplace] at hfiles
      exact ⟨_, hfiles, reportsDirectory_listing t place⟩
    · exact absurd hplace (hnone place)

/-! ## The search, and the search for music -/

/-- The URL of the first file of a name. -/
def firstNamed (file : Text) (files : List (Text × Text)) : Except Error Text :=
  match files.find? fun f => f.2 == file with
  | some f => .ok (urlOf f.1 f.2)
  | none => .error .fileNotFound

/-- The search for one file returns what is the first among all files, and is stopped by
nothing else than the walk to all of them is. -/
def Agrees (file : Text) (ret : Except SearchFault (Except Error Text))
    (files : Except SearchFault (List (Text × Text))) : Prop :=
  match files with
  | .ok files => ret = .ok (firstNamed file files)
  | .error f => ret = .error f ∨ ∃ newUrl, ret = .ok (.ok newUrl)

theorem firstNamed_singleton (file path name : Text) :
    firstNamed file [(path, name)] =
      if name = file then .ok (urlOf path name) else .error .fileNotFound := by
  unfold firstNamed
  by_cases h : name = file
  · simp [h]
  · simp [h]

theorem firstNamed_append (file : Text) (files more : List (Text × Text)) :
    firstNamed file (files ++ more) =
      match firstNamed file files with
      | .ok newUrl => .ok newUrl
      | .error _ => firstNamed file more := by
  unfold firstNamed
  rw [List.find?_append]
  cases files.find? fun f => f.2 == file <;> rfl

/-- What is looked for first, and then, where it is not found, elsewhere. -/
theorem agrees_append {file : Text} {ret ret' : Except SearchFault (Except Error Text)}
    {files more : Except SearchFault (List (Text × Text))} (h : Agrees file ret files)
    (h' : Agrees file ret' more) :
    Agrees file
      (ret >>= fun ret => match ret with
        | .ok newUrl => .ok (.ok newUrl)
        | .error _ => ret')
      (files >>= fun files => more >>= fun more => .ok (files ++ more)) := by
  cases files with
  | error f =>
    obtain rfl | ⟨newUrl, rfl⟩ := h
    · exact .inl rfl
    · exact .inr ⟨newUrl, rfl⟩
  | ok files =>
    obtain rfl : ret = _ := h
    rw [ok_bind, ok_bind]
    cases hfirst : firstNamed file files with
    | ok newUrl =>
      cases more with
      | error f => exact .inr ⟨newUrl, rfl⟩
      | ok more =>
        show _ = Except.ok (firstNamed file (files ++ more))
        rw [firstNamed_append, hfirst]
    | error e =>
      cases more with
      | error f => exact h'
      | ok more =>
        show _ = Except.ok (firstNamed file (files ++ more))
        rw [firstNamed_append, hfirst]
        exact h'

theorem agrees_cons {file searchPath : Text} {ret ret' : Except SearchFault (Except Error Text)}
    {search : Text → Except SearchFault (List (Text × Text))} {find : Text × Option Attribute}
    {found : List (Text × Option Attribute)}
    (h : Agrees file ret (entryFiles search searchPath find))
    (h' : Agrees file ret'
      (found.mapM (entryFiles search searchPath) >>= fun parts => .ok parts.flatten)) :
    Agrees file
      (ret >>= fun ret => match ret with
        | .ok newUrl => .ok (.ok newUrl)
        | .error _ => ret')
      ((find :: found).mapM (entryFiles search searchPath) >>= fun parts =>
        .ok parts.flatten) := by
  have hparts : ((find :: found).mapM (entryFiles search searchPath) >>= fun parts =>
      (.ok parts.flatten : Except SearchFault _)) =
        (entryFiles search searchPath find >>= fun files =>
          (found.mapM (entryFiles search searchPath) >>= fun parts => .ok parts.flatten) >>=
            fun more => .ok (files ++ more)) := by
    rw [List.mapM_cons]
    cases entryFiles search searchPath find with
    | error f => rfl
    | ok files =>
      rw [ok_bind]
      cases found.mapM (entryFiles search searchPath) <;> rfl
  rw [hparts]
  exact agrees_append h h'

theorem agrees_findMissingIn {file searchPath : Text}
    {recurse : Text → Except SearchFault (Except Error Text)}
    {search : Text → Except SearchFault (List (Text × Text))}
    (hrecurse : ∀ path, Agrees file (recurse path) (search path))
    (found : List (Text × Option Attribute)) :
    Agrees file (findMissingIn recurse file searchPath found)
      (found.mapM (entryFiles search searchPath) >>= fun parts => .ok parts.flatten) := by
  have hnothing : Agrees file (.ok (.error .fileNotFound)) (.ok []) := rfl
  induction found with
  | nil => exact hnothing
  | cons find found ih =>
    obtain ⟨name, kind⟩ := find
    unfold findMissingIn
    cases kind with
    | none => exact @agrees_cons file searchPath (.error .uninitialised) _ _ _ _ (.inl rfl) ih
    | some kind =>
      cases kind with
      | symlink => exact @agrees_cons _ _ _ _ _ (name, some .symlink) _ hnothing ih
      | directory =>
        by_cases hdots : name = dot ∨ name = dotDot
        · have hround : Agrees file (.ok (.error .fileNotFound))
              (entryFiles search searchPath (name, some .directory)) := by
            unfold entryFiles
            rw [if_pos hdots]
            exact hnothing
          simp only [if_pos hdots]
          exact agrees_cons hround ih
        · have hround : Agrees file (recurse (joined searchPath name))
              (entryFiles search searchPath (name, some .directory)) := by
            unfold entryFiles
            rw [if_neg hdots]
            exact hrecurse _
          simp only [if_neg hdots]
          exact agrees_cons hround ih
      | normal =>
        by_cases hfile : name = file
        · have hround : Agrees file
              (.ok (.ok (protocol ++ searchPath ++ [dirMarker] ++ file)))
              (entryFiles search searchPath (name, some .normal)) := by
            show _ = Except.ok (firstNamed file [(searchPath, name)])
            rw [firstNamed_singleton, if_pos hfile, hfile, urlOf, List.append_assoc,
              List.append_assoc, List.singleton_append]
          simp only [if_pos hfile]
          exact agrees_cons hround ih
        · have hround : Agrees file (.ok (.error .fileNotFound))
              (entryFiles search searchPath (name, some .normal)) := by
            show _ = Except.ok (firstNamed file [(searchPath, name)])
            rw [firstNamed_singleton, if_neg hfile]
          simp only [if_neg hfile]
          exact agrees_cons hround ih

/-- It finds the first file of the name among those that the search for music comes to. -/
theorem agrees_findMissing (file : Text) (n : Nat) (searchPath : Text) :
    Agrees file (recurseFindMissingFile t file n searchPath) (filesFound t n searchPath) := by
  induction n generalizing searchPath with
  | zero => exact .inl rfl
  | succ n ih =>
    unfold recurseFindMissingFile filesFound
    split
    · rfl
    split
    · exact .inl rfl
    cases findFiles t (searched searchPath) with
    | error f => exact .inl rfl
    | ok found =>
      rw [ok_bind, ok_bind]
      cases found with
      | none => rfl
      | some found => exact agrees_findMissingIn ih found

/-! ## Names, and what is below a path -/

theorem hasBaseName_iff {url name : Text} :
    HasBaseName url name ↔
      dirMarker ∈ url ∧ (url.reverse.takeWhile (· != dirMarker)).reverse = name := by
  constructor
  · intro h
    obtain ⟨front, rfl, hname⟩ := h
    refine ⟨List.mem_append_right _ List.mem_cons_self, ?_⟩
    rw [reverse_takeWhile_marker hname, List.reverse_reverse]
  · intro h
    obtain ⟨hmarker, rfl⟩ := h
    obtain ⟨name, front, hurl, hname⟩ :=
      List.eq_append_cons_of_mem (List.mem_reverse.mpr hmarker)
    have hsplit : url = front.reverse ++ dirMarker :: name.reverse := by
      rw [← List.reverse_reverse url, hurl, List.reverse_append, List.reverse_cons,
        List.append_assoc, List.singleton_append]
    have hname' : dirMarker ∉ name.reverse := fun h => hname (List.mem_reverse.mp h)
    refine ⟨front.reverse, ?_, ?_⟩
    · rw [hsplit, reverse_takeWhile_marker hname', List.reverse_reverse]
    · rw [hsplit, reverse_takeWhile_marker hname', List.reverse_reverse]
      exact hname'

theorem HasBaseName.unique {url name name' : Text} (h : HasBaseName url name)
    (h' : HasBaseName url name') : name' = name :=
  (hasBaseName_iff.mp h').2.symm.trans (hasBaseName_iff.mp h).2

theorem hasBaseName_cons {name : Text} (h : dirMarker ∉ name) :
    HasBaseName (dirMarker :: name) name :=
  ⟨[], rfl, h⟩

theorem findMissingFile_eq {url name searchPath : Text} (h : HasBaseName url name) :
    findMissingFile t url searchPath =
      recurseFindMissingFile t name (t.height + 1) searchPath := by
  obtain ⟨hmarker, rfl⟩ := hasBaseName_iff.mp h
  exact if_pos hmarker

theorem mem_filesFound_iff {searchPath p name : Text} {n : Nat} {files : List (Text × Text)}
    (h : filesFound t n searchPath = .ok files) :
    (p, name) ∈ files ↔ Visits t [searchPath] p name := by
  rw [mem_filesFound h]
  constructor
  · intro hvisits
    obtain ⟨hreached, place, hopens, hentry⟩ := hvisits
    exact ⟨place, ⟨⟨searchPath, List.mem_cons_self, hreached⟩, hopens⟩, hentry⟩
  · intro hvisits
    obtain ⟨place, ⟨⟨path, hpath, hreached⟩, hopens⟩, hentry⟩ := hvisits
    rw [List.mem_singleton.mp hpath] at hreached
    exact ⟨hreached, place, hopens, hentry⟩

theorem Visits.legal {pathList : List Text} {p name : Text} (h : Visits t pathList p name) :
    LegalName name := by
  obtain ⟨place, -, e, he, rfl, -⟩ := h
  exact t.legal place e he

theorem Below.trans {base middle place : Place} (h : Below t base middle)
    (h' : Below t middle place) : Below t base place := by
  induction h' with
  | here => exact h
  | down _ hentry ih => exact ih.down hentry

/-- What a path leads to that the search comes to is below the search path. -/
theorem below_of_reached {path p : Text} {place : Place} (h : Reached t path p)
    (hp : t.resolve p = some (.directory place)) :
    ∃ base, t.resolve path = some (.directory base) ∧ Below t base place := by
  induction h with
  | here => exact ⟨place, hp, .here⟩
  | inside hopens hentry _ ih =>
    obtain ⟨base, hbase, hbelow⟩ := ih hp
    rw [resolve_directory hopens hentry] at hbase
    obtain rfl := Spot.directory.inj (Option.some.inj hbase)
    exact ⟨_, hopens.leads, (Below.here.down hentry).trans hbelow⟩

theorem Walked.missed {searchPath p name : Text} {place : Place}
    (h : Walked t [searchPath] p place) (houtside : Outside place)
    (hfile : (name, .file) ∈ t.entries place) : Missed t searchPath place name := by
  obtain ⟨path, hpath, hreached⟩ := h.reached
  rw [List.mem_singleton.mp hpath] at hreached
  exact ⟨below_of_reached hreached h.opens.leads, houtside, hfile⟩

theorem firstNamed_eq_ok {file newUrl : Text} {files : List (Text × Text)} :
    firstNamed file files = .ok newUrl ↔
      ∃ p, files.find? (fun f => f.2 == file) = some (p, file) ∧ newUrl = urlOf p file := by
  unfold firstNamed
  cases hfind : files.find? fun f => f.2 == file with
  | none => exact ⟨fun h => absurd h nofun, fun ⟨_, h, _⟩ => absurd h nofun⟩
  | some f =>
    obtain ⟨p, name⟩ := f
    obtain rfl : name = file := by simpa using List.find?_some hfind
    simp only [Except.ok.injEq, Option.some.injEq, Prod.mk.injEq, and_true]
    exact ⟨fun h => ⟨p, rfl, h.symm⟩, fun ⟨_, hp, h⟩ => hp ▸ h.symm⟩

/-- Where the walk to all files comes to its end, one is found if there is one of the name. -/
theorem findMissingFile_of_files {url name searchPath : Text} {files : List (Text × Text)}
    (hname : HasBaseName url name)
    (hfiles : filesFound t (t.height + 1) searchPath = .ok files) :
    findMissingFile t url searchPath = .ok (firstNamed name files) := by
  have hagrees := @agrees_findMissing t name (t.height + 1) searchPath
  rw [hfiles] at hagrees
  rw [findMissingFile_eq hname]
  exact hagrees

/-! ## When it finds what there is -/

theorem WellPlaced.finds {searchPath : Text} (h : WellPlaced t searchPath) (url : Text) :
    FindsMissing t searchPath url := by
  obtain ⟨files, hfiles⟩ := (filesFound_ok_iff (deepEnough_height t searchPath)).mpr h.passable
  by_cases hurl : ∃ name, HasBaseName url name
  · obtain ⟨name, hname⟩ := hurl
    -- what is found is a file that is missed
    have hsound : ∀ newUrl, firstNamed name files = .ok newUrl → ∃ place,
        Missed t searchPath place name ∧ SpelledFor t searchPath newUrl place name := by
      intro newUrl hfirst
      obtain ⟨p, hfind, rfl⟩ := firstNamed_eq_ok.mp hfirst
      obtain ⟨place, hopens, houtside, hfile⟩ := h.first files hfiles p name hfind
      obtain ⟨_, hwalked, -⟩ := (mem_filesFound_iff hfiles).mp (List.mem_of_find?_eq_some hfind)
      have hwalked : Walked t [searchPath] p place := ⟨hwalked.reached, hopens⟩
      exact ⟨place, hwalked.missed houtside hfile,
        ⟨_, rfl, resolve_entry hopens hfile rfl⟩, p, hwalked, rfl⟩
    refine ⟨_, findMissingFile_of_files hname hfiles, ⟨?_, ?_⟩, ?_⟩
    · intro hfound
      obtain ⟨newUrl, hfirst⟩ := hfound
      obtain ⟨place, hmissed, -⟩ := hsound newUrl hfirst
      exact ⟨name, place, hname, hmissed⟩
    · intro hmissed
      obtain ⟨name', place, hname', hmissed⟩ := hmissed
      rw [hname.unique hname'] at hmissed
      obtain ⟨p, hvisits⟩ := h.namesake place name hmissed
      have hmem := (mem_filesFound_iff hfiles).mpr hvisits
      cases hfind : files.find? fun f => f.2 == name with
      | none => exact absurd (beq_self_eq_true name) (List.find?_eq_none.mp hfind _ hmem)
      | some f =>
        refine ⟨urlOf f.1 f.2, ?_⟩
        unfold firstNamed
        rw [hfind]
    · intro newUrl hfirst
      obtain ⟨place, hmissed, hspelled⟩ := hsound newUrl hfirst
      exact ⟨name, place, hname, hmissed, hspelled⟩
  · have hmarker : dirMarker ∉ url := fun hmarker => hurl ⟨_, hasBaseName_iff.mpr ⟨hmarker, rfl⟩⟩
    refine ⟨.error .fileNotFound, if_neg hmarker, ⟨fun h => ?_, fun h => ?_⟩, nofun⟩
    · obtain ⟨newUrl, h⟩ := h
      exact absurd h nofun
    · obtain ⟨name, _, hname, -⟩ := h
      exact absurd ⟨name, hname⟩ hurl

/-- A search for no name at all goes through everything. -/
theorem filesFound_of_finds {searchPath : Text} (h : FindsMissing t searchPath [dirMarker]) :
    ∃ files, filesFound t (t.height + 1) searchPath = .ok files := by
  obtain ⟨ret, hret, -, hsound⟩ := h
  have hname : HasBaseName [dirMarker] [] := hasBaseName_cons List.not_mem_nil
  have hagrees := @agrees_findMissing t [] (t.height + 1) searchPath
  rw [← findMissingFile_eq hname, hret] at hagrees
  cases hfiles : filesFound t (t.height + 1) searchPath with
  | ok files => exact ⟨files, rfl⟩
  | error f =>
    rw [hfiles] at hagrees
    obtain hfault | ⟨newUrl, hfound⟩ := hagrees
    · exact absurd hfault nofun
    · obtain ⟨name, place, hname', hmissed, -⟩ := hsound newUrl (Except.ok.inj hfound)
      have hlegal := t.legal place _ hmissed.file
      exact absurd (hname.unique hname') hlegal.1

theorem wellPlaced_of_finds {searchPath : Text} (h : ∀ url, FindsMissing t searchPath url) :
    WellPlaced t searchPath := by
  obtain ⟨files, hfiles⟩ := filesFound_of_finds (h [dirMarker])
  refine ⟨(filesFound_ok_iff (deepEnough_height t searchPath)).mp ⟨files, hfiles⟩, ?_, ?_⟩
  · intro place name hmissed
    have hname := hasBaseName_cons (t.legal place _ hmissed.file).2.2.2.1
    obtain ⟨ret, hret, hcomplete, -⟩ := h (dirMarker :: name)
    obtain ⟨newUrl, rfl⟩ := hcomplete.mpr ⟨name, place, hname, hmissed⟩
    rw [findMissingFile_of_files hname hfiles] at hret
    obtain ⟨p, hfind, -⟩ := firstNamed_eq_ok.mp (Except.ok.inj hret)
    exact ⟨p, (mem_filesFound_iff hfiles).mp (List.mem_of_find?_eq_some hfind)⟩
  · intro files' hfiles' p name hfind
    rw [hfiles] at hfiles'
    rw [← Except.ok.inj hfiles'] at hfind
    have hvisits := (mem_filesFound_iff hfiles).mp (List.mem_of_find?_eq_some hfind)
    have hmarker := hvisits.legal.2.2.2.1
    have hname := hasBaseName_cons hmarker
    obtain ⟨ret, hret, -, hsound⟩ := h (dirMarker :: name)
    rw [findMissingFile_of_files hname hfiles] at hret
    have hfirst : firstNamed name files = .ok (urlOf p name) :=
      firstNamed_eq_ok.mpr ⟨p, hfind, rfl⟩
    obtain ⟨name', place, hname', hmissed, -, p', hwalked, hurl⟩ :=
      hsound (urlOf p name) ((Except.ok.inj hret).symm.trans hfirst)
    -- the URL tells under which path the file was come to
    rw [hname.unique hname'] at hmissed hurl
    obtain ⟨rfl, -⟩ := urlOf_inj hmarker hmarker hurl
    exact ⟨place, hwalked.opens, hmissed.outside, hmissed.file⟩

theorem meets_findMissingIn {recurse : Text → Except SearchFault (Except Error Text)}
    {file searchPath : Text} {found : List (Text × Option Attribute)}
    (h : ∀ name, (name, some .directory) ∈ found → ¬ (name = dot ∨ name = dotDot) →
      Meets (recurse (joined searchPath name)) (fun f => f ≠ .tooDeep) fun _ => True) :
    Meets (findMissingIn recurse file searchPath found) (fun f => f ≠ .tooDeep)
      fun _ => True := by
  induction found with
  | nil => exact trivial
  | cons find found ih =>
    have hrest := ih fun name hname => h name (List.mem_cons_of_mem _ hname)
    unfold findMissingIn
    split
    · exact nofun
    · exact hrest
    · rename_i hattribute
      split
      · exact hrest
      · rename_i hdots
        rw [Meets.bind_iff]
        refine (h find.1 (hattribute ▸ List.mem_cons_self) hdots).mono fun ret _ => ?_
        cases ret with
        | ok newUrl => exact trivial
        | error e => exact hrest
    · split
      · exact trivial
      · exact hrest

theorem meets_recurseFindMissingFile {file searchPath : Text} {n : Nat}
    (h : DeepEnough t n searchPath) :
    Meets (recurseFindMissingFile t file n searchPath) (fun f => f ≠ .tooDeep)
      fun _ => True := by
  induction n generalizing searchPath with
  | zero => exact absurd h.pos (Nat.lt_irrefl 0)
  | succ n ih =>
    unfold recurseFindMissingFile
    split
    · exact trivial
    split
    · exact nofun
    rename_i hentered hne
    rw [Meets.bind_iff]
    refine Meets.intro (fun found hfound => ?_) fun f hf => (meets_findFiles _).of_error hf
    cases found with
    | none => exact trivial
    | some found =>
      obtain ⟨place, hopens, rfl⟩ := opens_of_found (Bool.not_eq_true _ ▸ hentered) hne hfound
      exact meets_findMissingIn fun name hname hdots => ih (h.found hopens hname rfl hdots)

theorem findMissingFile_ends (url searchPath : Text) :
    findMissingFile t url searchPath ≠ .error .tooDeep := by
  unfold findMissingFile
  split
  · intro hdeep
    exact (meets_recurseFindMissingFile (deepEnough_height t searchPath)).of_error hdeep rfl
  · exact nofun

/-- A directory is listed exactly when its path has no wildcard in it; a search comes to its
end, and finds what there is to find, whatever is looked for, exactly when all is well placed
for it. -/
theorem findMissingFile_iff (t : DirectoryTree) :
    (∀ path, Lists t path ↔ Clean path ∨ ∀ place, t.resolve path ≠ some (.directory place)) ∧
      ∀ searchPath,
        (∀ url, findMissingFile t url searchPath ≠ .error .tooDeep) ∧
          ((∀ url, FindsMissing t searchPath url) ↔ WellPlaced t searchPath) :=
  ⟨fun _ => lists_iff, fun searchPath =>
    ⟨fun url => findMissingFile_ends url searchPath, wellPlaced_of_finds, WellPlaced.finds⟩⟩

example : findMissingFile musicTree (bytes "file:///old/a.mp3") (bytes "/music") =
    .ok (.ok (bytes "file:///music/a.mp3")) := rfl

/-- One file, in a directory with a wildcard in its name. -/
def starTree : DirectoryTree where
  entries place :=
    if place = [] then [([97, star], .directory)]
    else if place = [[97, star]] then [([98], .file)]
    else []
  legal := by
    intro place e he
    split_ifs at he
    · rw [List.mem_singleton.mp he]
      decide
    · rw [List.mem_singleton.mp he]
      decide
    · exact absurd he List.not_mem_nil
  distinct := by
    intro place
    split_ifs <;> simp
  height := 2
  low := by
    intro place hlow
    rw [if_neg (by rintro rfl; exact absurd hlow (by decide)),
      if_neg (by rintro rfl; exact absurd hlow (by decide))]
  cwd := []
  maxLinks := 40

/-- The directory is not listed, and the file in it, `b`, is not found. -/
theorem findMissingFile_fails :
    ¬ Lists starTree [dirMarker, 97, star] ∧
      findMissingFile starTree (protocol ++ [dirMarker, 98]) [dirMarker, 97, star] =
        .ok (.error .fileNotFound) ∧
      ¬ FindsMissing starTree [dirMarker, 97, star] (protocol ++ [dirMarker, 98]) := by
  have hplace : starTree.resolve [dirMarker, 97, star] = some (.directory [[97, star]]) := by
    decide
  have hnot : findMissingFile starTree (protocol ++ [dirMarker, 98]) [dirMarker, 97, star] =
      .ok (.error .fileNotFound) := rfl
  refine ⟨fun hlists => ?_, hnot, fun hfinds => ?_⟩
  · rcases lists_iff.mp hlists with hclean | hnone
    · exact absurd hclean (by decide)
    · exact hnone _ hplace
  · obtain ⟨ret, hret, hcomplete, -⟩ := hfinds
    obtain ⟨newUrl, rfl⟩ := hcomplete.mpr ⟨[98], [[97, star]],
      ⟨protocol, rfl, by decide⟩, ⟨_, hplace, .here⟩, ⟨by decide, by decide⟩, by decide⟩
    rw [hnot] at hret
    exact absurd hret nofun

end FreeAmp.Base.Search
