/-
  Base/FindFile.lean --- `FindFirstFile` and `FindNextFile`, from
  `base/unix/src/win32impl.cpp`.

  A path is taken for a pattern: it is cut at the last separator before its first wildcard,
  and what stands behind it is compared with the names in the directory before it.

      findFiles_of_clean     a path without wildcard, and `*` behind it: all that is in the
                             directory
      findFiles_of_wildcard  a path with one: nothing
-/
import FreeAmp.Base.DirectoryTree
import FreeAmp.Lib.Search

namespace FreeAmp.Base.Search

open FreeAmp.Lib DirectoryTree

/-- What a search for music can do wrong. -/
inductive SearchFault where
  /-- the recursion goes deeper than it is followed here -/
  | tooDeep
  /-- the last character of an empty path is looked at -/
  | emptyPath
  /-- `Match` reads on behind the end of a name -/
  | pastName
  /-- a path without a wildcard is put into a buffer with no room for its NUL -/
  | overflow
  /-- a variable is used that has not been set -/
  | uninitialised
  /-- `gdbm_store` is called and there is no database -/
  | noDatabase
  /-- a record is not read, or not put together -/
  | record (fault : RecordFault)
  deriving DecidableEq, Repr

/-! ## Patterns -/

/-- `'*'` -/
def star : UInt8 := 42

/-- `'?'` -/
def question : UInt8 := 63

/-- `'*'` or `'?'` -/
def isWildcard (c : UInt8) : Bool := c == star || c == question

/-- `Match`, with the end of the name passed: only a last `'*'` does not look at the name. -/
def beyondName (pattern : Text) : Except SearchFault Bool :=
  if pattern.dropWhile (· == question) = [star] then .ok true else .error .pastName

/-- `Match`; a `'*'` stands for what is before the first place of the text behind it. -/
def matchPattern : Text → Text → Except SearchFault Bool
  | [], string => .ok string.isEmpty
  | c :: pattern, string =>
    if c = question then
      match string with
      -- the loop does not look for the end of the name
      | [] => beyondName pattern
      | _ :: string => matchPattern pattern string
    else if c = star then
      if pattern = [] then .ok true
      else
        match firstPlace (pattern.takeWhile fun c => !isWildcard c) string with
        | none => .ok false
        | some k => matchPattern pattern (string.drop k)
    else
      match string with
      | [] => .ok false
      | d :: string => if toLower c = toLower d then matchPattern pattern string else .ok false

/-- The names that `Match` accepts. -/
def matching (rest : Text) : List Text → Except SearchFault (List Text)
  | [] => .ok []
  | name :: names => do
      let hit ← matchPattern rest name
      let more ← matching rest names
      .ok (if hit then name :: more else more)

structure FindData where
  dir : Option Text
  rest : Text
  deriving DecidableEq, Repr

/-- A text up to its last separator. -/
def throughLastSlash (s : Text) : Text := (s.reverse.dropWhile (· != dirMarker)).reverse

/-- The path, cut in two. -/
def chop (lpFileName : Text) : FindData :=
  let front := throughLastSlash (lpFileName.takeWhile fun c => !isWildcard c)
  { dir :=
      if front = [] then none
      else if front = [dirMarker] then some [dirMarker]
      else some front.dropLast
    rest := lpFileName.drop front.length }

/-! ## What is found -/

/-- `dwFileAttributes` -/
inductive Attribute where
  | symlink
  | directory
  | normal
  deriving DecidableEq, Repr

/-- What `FillWin32FindData` makes of `st_mode`. -/
def Entry.attribute : Entry → Attribute
  | .link _ => .symlink
  | .directory => .directory
  | _ => .normal

/-- A path with a separator at its end. -/
def withMarker (path : Text) : Text :=
  if path.getLast? = some dirMarker then path else path ++ [dirMarker]

/-- A name in a directory. -/
def joined (dir name : Text) : Text := withMarker dir ++ name

/-- `FillWin32FindData`, once for each name: where `lstat` fails the attributes stay what they
are.  A name fits into `cFileName`. -/
def fillFindData (t : DirectoryTree) (dir : Text) :
    Option Attribute → List Text → List (Text × Option Attribute)
  | _, [] => []
  | old, name :: names =>
    let attributes := ((t.lstat (joined dir name)).map Entry.attribute).or old
    (name, attributes) :: fillFindData t dir attributes names

/-- `FindFirstFile`, and `FindNextFile` as long as it finds something. -/
def findFiles (t : DirectoryTree) (lpFileName : Text) :
    Except SearchFault (Option (List (Text × Option Attribute))) :=
  if lpFileName.all fun c => !isWildcard c then .error .overflow
  else
    match (chop lpFileName).dir with
    | none => .ok none
    | some dir =>
      match t.readdir dir with
      | none => .ok none
      | some names => do
          let found ← matching (chop lpFileName).rest names
          .ok (if found = [] then none else some (fillFindData t dir none found))

/-! ## What a pattern matches -/

@[simp] theorem matchPattern_star (string : Text) : matchPattern [star] string = .ok true := rfl

/-- What has passed the end of a name accepts it only at a last `'*'`. -/
theorem beyondName_of_marker {pattern : Text} (h : dirMarker ∈ pattern) :
    beyondName pattern ≠ .ok true := by
  unfold beyondName
  have hmem : dirMarker ∈ pattern.dropWhile (· == question) := by
    rw [← List.takeWhile_append_dropWhile (p := (· == question)) (l := pattern)] at h
    refine (List.mem_append.mp h).resolve_left fun hfront => ?_
    exact absurd (List.mem_takeWhile_imp hfront) (by decide)
  split
  · rename_i heq
    rw [heq] at hmem
    exact absurd hmem (by decide)
  · exact nofun

theorem matching_star (names : List Text) : matching [star] names = .ok names := by
  induction names with
  | nil => rfl
  | cons name names ih =>
    rw [matching, matchPattern_star, ih]
    rfl

theorem matchPattern_of_marker {pattern string : Text} (hpattern : dirMarker ∈ pattern)
    (hstring : dirMarker ∉ string) : matchPattern pattern string ≠ .ok true := by
  induction pattern generalizing string with
  | nil => exact absurd hpattern List.not_mem_nil
  | cons c pattern ih =>
    unfold matchPattern
    have hrest : c ≠ dirMarker → dirMarker ∈ pattern := fun hc =>
      (List.mem_cons.mp hpattern).resolve_left fun heq => hc heq.symm
    split_ifs with hquestion hstar hpattern'
    · have hmem := hrest (by rw [hquestion]; decide)
      cases string with
      | nil => exact beyondName_of_marker hmem
      | cons d string =>
        apply ih hmem
        exact fun hmem => hstring (List.mem_cons_of_mem _ hmem)
    · have hmem := hrest (by rw [hstar]; decide)
      rw [hpattern'] at hmem
      exact absurd hmem List.not_mem_nil
    · have hmem := hrest (by rw [hstar]; decide)
      split
      · exact nofun
      · apply ih hmem
        exact fun hdrop => hstring (List.mem_of_mem_drop hdrop)
    · cases string with
      | nil => exact nofun
      | cons d string =>
        simp only
        split
        · rename_i hlower
          apply ih
          · apply hrest
            intro hc
            rw [hc] at hlower
            exact hstring (toLower_eq_marker.mp (hlower.symm.trans (toLower_eq_marker.mpr rfl)) ▸ List.mem_cons_self)
          · exact fun hmem => hstring (List.mem_cons_of_mem _ hmem)
        · exact nofun

theorem matching_of_marker {rest : Text} {names found : List Text} (hrest : dirMarker ∈ rest)
    (hnames : ∀ name ∈ names, dirMarker ∉ name) (h : matching rest names = .ok found) :
    found = [] := by
  induction names generalizing found with
  | nil => exact (Except.ok.inj h).symm
  | cons name names ih =>
    rw [matching] at h
    obtain ⟨hit, hmatch, h⟩ := bind_eq_ok.mp h
    obtain ⟨more, hmore, h⟩ := bind_eq_ok.mp h
    have hnot := matchPattern_of_marker hrest (hnames name List.mem_cons_self)
    rw [hmatch] at hnot
    have hhit : hit = false := by simpa using hnot
    rw [← Except.ok.inj h, hhit, if_neg Bool.false_ne_true]
    exact ih (fun name hname => hnames name (List.mem_cons_of_mem _ hname)) hmore

/-- The names are gone through when each can be compared. -/
theorem matching_ok_iff {rest : Text} {names : List Text} :
    (∃ found, matching rest names = .ok found) ↔
      ∀ name ∈ names, ∃ hit, matchPattern rest name = .ok hit := by
  induction names with
  | nil => exact ⟨fun _ _ hname => absurd hname List.not_mem_nil, fun _ => ⟨[], rfl⟩⟩
  | cons name names ih =>
    rw [List.forall_mem_cons, ← ih]
    constructor
    · intro h
      obtain ⟨found, h⟩ := h
      rw [matching] at h
      obtain ⟨hit, hmatch, h⟩ := bind_eq_ok.mp h
      obtain ⟨more, hmore, -⟩ := bind_eq_ok.mp h
      exact ⟨⟨hit, hmatch⟩, ⟨more, hmore⟩⟩
    · intro h
      obtain ⟨⟨hit, hmatch⟩, ⟨more, hmore⟩⟩ := h
      refine ⟨if hit then name :: more else more, ?_⟩
      rw [matching, hmatch, hmore]
      rfl

/-! ## Paths made into patterns -/

/-- No wildcard is in the path. -/
def Clean (path : Text) : Prop := ∀ c ∈ path, isWildcard c = false

instance (path : Text) : Decidable (Clean path) :=
  inferInstanceAs (Decidable (∀ c ∈ path, isWildcard c = false))

/-- The pattern for all that is in a directory. -/
def searched (path : Text) : Text := withMarker path ++ [star]

variable {t : DirectoryTree}

theorem withMarker_eq (path : Text) :
    ∃ front, withMarker path = front ++ [dirMarker] ∧
      (path = front ∨ path = front ++ [dirMarker]) := by
  unfold withMarker
  split
  · rename_i h
    obtain ⟨front, rfl⟩ := List.getLast?_eq_some_iff.mp h
    exact ⟨front, rfl, .inr rfl⟩
  · exact ⟨path, rfl, .inl rfl⟩

theorem throughLastSlash_append (front : Text) :
    throughLastSlash (front ++ [dirMarker]) = front ++ [dirMarker] := by
  unfold throughLastSlash
  rw [List.reverse_append, List.reverse_singleton, List.singleton_append, List.dropWhile_cons,
    if_neg (by decide), List.reverse_cons, List.reverse_reverse]

theorem length_throughLastSlash_le (s : Text) : (throughLastSlash s).length ≤ s.length := by
  unfold throughLastSlash
  have hle := (@List.dropWhile_sublist _ s.reverse (· != dirMarker)).length_le
  rw [List.length_reverse] at hle ⊢
  exact hle

theorem clean_withMarker {path : Text} (h : Clean path) : Clean (withMarker path) := by
  unfold withMarker
  split
  · exact h
  · intro c hc
    rcases List.mem_append.mp hc with hc | hc
    · exact h c hc
    · rw [List.mem_singleton.mp hc]
      rfl

theorem takeWhile_searched {path : Text} (h : Clean path) :
    (searched path).takeWhile (fun c => !isWildcard c) = withMarker path := by
  unfold searched
  rw [List.takeWhile_append_of_pos fun c hc => by rw [clean_withMarker h c hc]; rfl]
  exact List.append_nil _

theorem searched_not_all (path : Text) :
    ((searched path).all fun c => !isWildcard c) = false := by
  unfold searched
  rw [List.all_append, List.all_cons]
  exact Bool.and_false _

/-- Where a directory's path with a separator behind it leads, one separator taken away. -/
theorem resolve_of_marker {front : Text} {place : Place} (hfront : front ≠ []) :
    t.resolve (front ++ [dirMarker]) = some (.directory place) ↔
      t.resolve front = some (.directory place) := by
  rw [resolve_marker hfront]
  cases t.resolve front with
  | none => rfl
  | some spot =>
    cases spot with
    | directory place' => rfl
    | file place' name => exact ⟨fun h => absurd h nofun, fun h => absurd h nofun⟩

/-- A name in a directory stands behind a separator, and what is before the separator leads
to the directory, or is nothing and the directory is the root. -/
theorem joined_eq {dir : Text} {place : Place} (hdir : dir ≠ [])
    (hplace : t.resolve dir = some (.directory place)) :
    ∃ front, (∀ name, joined dir name = front ++ dirMarker :: name) ∧
      (front = [] ∧ place = [] ∨
        front ≠ [] ∧ t.resolve front = some (.directory place)) := by
  obtain ⟨front, hfront, hcases⟩ := withMarker_eq dir
  refine ⟨front, fun name => ?_, ?_⟩
  · unfold joined
    rw [hfront, List.append_assoc, List.singleton_append]
  · rcases hcases with rfl | rfl
    · exact .inr ⟨hdir, hplace⟩
    · by_cases hempty : front = []
      · rw [hempty, List.nil_append, resolve_root] at hplace
        exact .inl ⟨hempty, (Spot.directory.inj (Option.some.inj hplace)).symm⟩
      · exact .inr ⟨hempty, (resolve_of_marker hempty).mp hplace⟩

theorem resolve_joined {dir name : Text} {place : Place} (hdir : dir ≠ [])
    (hplace : t.resolve dir = some (.directory place)) (hname : dirMarker ∉ name) :
    t.resolve (joined dir name) = t.step (t.follow t.maxLinks) (.directory place) name := by
  obtain ⟨front, hjoined, ⟨rfl, rfl⟩ | ⟨hne, hfront⟩⟩ := joined_eq hdir hplace
  · rw [hjoined, List.nil_append]
    unfold DirectoryTree.resolve
    rw [if_neg (List.cons_ne_nil _ _), ← List.nil_append (dirMarker :: name),
      List.splitOn_append_cons_self, splitOn_name hname, walk_append]
    rfl
  · rw [hjoined, resolve_append hne hname, hfront]
    rfl

theorem lstat_joined {dir name : Text} {place : Place} (hdir : dir ≠ [])
    (hplace : t.resolve dir = some (.directory place)) (hname : dirMarker ∉ name) :
    t.lstat (joined dir name) =
      if name = [] ∨ name = dot ∨ name = dotDot then some .directory
      else (t.entries place).lookup name := by
  obtain ⟨front, hjoined, ⟨rfl, rfl⟩ | ⟨hne, hfront⟩⟩ := joined_eq hdir hplace
  · rw [hjoined, List.nil_append]
    unfold lstat
    rw [← List.nil_append (dirMarker :: name)]
    simp only [List.splitOn_append_cons_self, splitOn_name hname, List.dropLast_concat,
      List.getLastD_concat]
    rfl
  · rw [hjoined, lstat_append hne hfront hname]

/-! ## What is found -/

/-- What there is to find in a directory. -/
def listing (t : DirectoryTree) (place : Place) : List (Text × Attribute) :=
  (dot, .directory) :: (dotDot, .directory) ::
    (t.entries place).map fun e => (e.1, e.2.attribute)

theorem lstat_listing {dir : Text} {place : Place} (hdir : dir ≠ [])
    (hplace : t.resolve dir = some (.directory place)) {e : Text × Attribute}
    (he : e ∈ listing t place) :
    (t.lstat (joined dir e.1)).map Entry.attribute = some e.2 := by
  unfold listing at he
  rcases List.mem_cons.mp he with rfl | he
  · rw [lstat_joined hdir hplace (by decide), if_pos (.inr (.inl rfl))]
    rfl
  · rcases List.mem_cons.mp he with rfl | he
    · rw [lstat_joined hdir hplace (by decide), if_pos (.inr (.inr rfl))]
      rfl
    · obtain ⟨d, hd, rfl⟩ := List.mem_map.mp he
      obtain ⟨hne, hdot, hdotDot, hmarker, -⟩ := t.legal place d hd
      rw [lstat_joined hdir hplace hmarker, if_neg (by simp [hne, hdot, hdotDot]),
        lookup_entry hd]
      rfl

theorem fillFindData_eq {dir : Text} {found : List (Text × Attribute)} {old : Option Attribute}
    (h : ∀ e ∈ found, (t.lstat (joined dir e.1)).map Entry.attribute = some e.2) :
    fillFindData t dir old (found.map Prod.fst) = found.map fun e => (e.1, some e.2) := by
  induction found generalizing old with
  | nil => rfl
  | cons e found ih =>
    rw [List.forall_mem_cons] at h
    rw [List.map_cons, fillFindData, h.1, Option.some_or, ih h.2]
    rfl

/-- The directory that is searched for a path without wildcard. -/
theorem chop_of_clean {path : Text} (hclean : Clean path) (hpath : path ≠ []) :
    ∃ dir, dir ≠ [] ∧ chop (searched path) = ⟨some dir, [star]⟩ ∧
      ∀ place, t.resolve dir = some (.directory place) ↔
        t.resolve path = some (.directory place) := by
  obtain ⟨front, hfront, hcases⟩ := withMarker_eq path
  have hchop : chop (searched path) =
      ⟨if front = [] then some [dirMarker] else some front, [star]⟩ := by
    unfold chop
    simp only [takeWhile_searched hclean]
    rw [hfront, throughLastSlash_append, if_neg (by simp), List.dropLast_concat, searched, hfront,
      List.drop_left]
    by_cases hempty : front = []
    · rw [if_pos (by rw [hempty]; rfl), if_pos hempty]
    · rw [if_neg (by simpa using hempty), if_neg hempty]
  by_cases hempty : front = []
  · rw [if_pos hempty] at hchop
    refine ⟨[dirMarker], List.cons_ne_nil _ _, hchop, fun place => ?_⟩
    rcases hcases with rfl | rfl
    · exact absurd hempty hpath
    · rw [hempty, List.nil_append]
  · rw [if_neg hempty] at hchop
    refine ⟨front, hempty, hchop, fun place => ?_⟩
    rcases hcases with rfl | rfl
    · exact Iff.rfl
    · exact (resolve_of_marker hempty).symm

/-- A search with a path without wildcard finds what is in the directory, and finds nothing
where there is none. -/
theorem findFiles_of_clean {path : Text} (hclean : Clean path) (hpath : path ≠ []) :
    findFiles t (searched path) = .ok
      (match t.resolve path with
      | some (.directory place) => some ((listing t place).map fun e => (e.1, some e.2))
      | _ => none) := by
  obtain ⟨dir, hdir, hchop, hresolve⟩ := @chop_of_clean t path hclean hpath
  unfold findFiles
  rw [searched_not_all, if_neg Bool.false_ne_true, hchop]
  simp only
  by_cases hplace : ∃ place, t.resolve path = some (.directory place)
  · obtain ⟨place, hplace⟩ := hplace
    have hdirplace := (hresolve place).mpr hplace
    have hnames : dot :: dotDot :: (t.entries place).map Prod.fst =
        (listing t place).map Prod.fst := by
      unfold listing
      rw [List.map_cons, List.map_cons, List.map_map]
      rfl
    rw [readdir, hdirplace, hplace]
    simp only [matching_star]
    rw [ok_bind, if_neg (List.cons_ne_nil _ _), hnames,
      fillFindData_eq fun e he => lstat_listing hdir hdirplace he]
  · have hnone : t.readdir dir = none := by
      unfold readdir
      split
      · rename_i place hdirplace
        exact absurd ⟨place, (hresolve place).mp hdirplace⟩ hplace
      · rfl
    rw [hnone]
    simp only
    split
    · rename_i place hdirplace
      exact absurd ⟨place, hdirplace⟩ hplace
    · rfl

theorem marker_mem_rest {path : Text} (h : ¬ Clean path) :
    dirMarker ∈ (chop (searched path)).rest := by
  obtain ⟨front, hfront, hcases⟩ := withMarker_eq path
  -- the wildcard stands before the separator at the end
  have hwild : ∃ c ∈ front, isWildcard c = true := by
    unfold Clean at h
    push Not at h
    obtain ⟨c, hc, hwild⟩ := h
    rw [ne_eq, Bool.not_eq_false] at hwild
    rcases hcases with rfl | rfl
    · exact ⟨c, hc, hwild⟩
    · rcases List.mem_append.mp hc with hc | hc
      · exact ⟨c, hc, hwild⟩
      · rw [List.mem_singleton.mp hc] at hwild
        exact absurd hwild (by decide)
  have hshort : ((searched path).takeWhile fun c => !isWildcard c).length ≤ front.length := by
    unfold searched
    rw [hfront, List.append_assoc, List.takeWhile_append, if_neg]
    · exact (List.takeWhile_sublist _).length_le
    · intro hall
      obtain ⟨c, hc, hwild⟩ := hwild
      have heq : front.takeWhile (fun c => !isWildcard c) = front :=
        (List.takeWhile_sublist _).eq_of_length hall
      have hnot := List.mem_takeWhile_imp (heq.symm ▸ hc)
      rw [hwild] at hnot
      exact absurd hnot (by decide)
  have hle := Nat.le_trans (length_throughLastSlash_le _) hshort
  show dirMarker ∈ (searched path).drop _
  unfold searched at hle ⊢
  rw [hfront, List.append_assoc] at hle ⊢
  rw [List.drop_append_of_le_length hle]
  exact List.mem_append_right _ List.mem_cons_self

theorem marker_not_mem_readdir {dir : Text} {names : List Text}
    (h : t.readdir dir = some names) : ∀ name ∈ names, dirMarker ∉ name := by
  unfold readdir at h
  split at h
  · rename_i place hplace
    rw [← Option.some.inj h, List.forall_mem_cons, List.forall_mem_cons]
    refine ⟨by decide, by decide, fun name hname => ?_⟩
    obtain ⟨e, he, rfl⟩ := List.mem_map.mp hname
    exact (t.legal place e he).2.2.2.1
  · exact absurd h nofun

/-- A search with a path that has a wildcard in it finds nothing, if it comes to an end. -/
theorem findFiles_of_wildcard {path : Text} (h : ¬ Clean path)
    {r : Option (List (Text × Option Attribute))} (hr : findFiles t (searched path) = .ok r) :
    r = none := by
  unfold findFiles at hr
  rw [searched_not_all, if_neg Bool.false_ne_true] at hr
  split at hr
  · exact (Except.ok.inj hr).symm
  · split at hr
    · exact (Except.ok.inj hr).symm
    · rename_i names hnames
      obtain ⟨found, hfound, hr⟩ := bind_eq_ok.mp hr
      rw [← Except.ok.inj hr]
      exact if_pos (matching_of_marker (marker_mem_rest h) (marker_not_mem_readdir hnames) hfound)

/-- No name that a search comes to is read behind its end. -/
def StaysInNames (t : DirectoryTree) (path : Text) : Prop :=
  ∀ dir names, (chop (searched path)).dir = some dir → t.readdir dir = some names →
    ∀ name ∈ names, ∃ hit, matchPattern (chop (searched path)).rest name = .ok hit

theorem findFiles_ok_iff {path : Text} :
    (∃ r, findFiles t (searched path) = .ok r) ↔ StaysInNames t path := by
  unfold findFiles StaysInNames
  rw [searched_not_all, if_neg Bool.false_ne_true]
  cases hdir : (chop (searched path)).dir with
  | none => exact ⟨fun _ _ _ h => absurd h nofun, fun _ => ⟨none, rfl⟩⟩
  | some dir =>
    cases hnames : t.readdir dir with
    | none =>
      simp only [hnames]
      refine ⟨fun _ d names h h' => ?_, fun _ => ⟨none, rfl⟩⟩
      rw [← Option.some.inj h, hnames] at h'
      exact absurd h' nofun
    | some names =>
      simp only [hnames]
      have hiff := @matching_ok_iff (chop (searched path)).rest names
      constructor
      · intro h d names' hd hnames' name hname
        obtain ⟨r, h⟩ := h
        obtain ⟨found, hfound, -⟩ := bind_eq_ok.mp h
        rw [← Option.some.inj hd, hnames] at hnames'
        rw [← Option.some.inj hnames'] at hname
        exact hiff.mp ⟨found, hfound⟩ name hname
      · intro h
        obtain ⟨found, hfound⟩ := hiff.mpr (h dir names rfl hnames)
        rw [hfound]
        exact ⟨_, rfl⟩

end FreeAmp.Base.Search
