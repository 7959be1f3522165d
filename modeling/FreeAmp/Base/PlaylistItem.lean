/-
  Base/PlaylistItem.lean --- playlist items and their order, from
  `base/include/playlist.h`, `base/include/metadata.h` and the head of
  `base/src/playlist.cpp`.

  A string of the source is the list of its bytes.  Of an item's metadata
  `m_extension` is left out, which nothing reads.
-/
import Mathlib.Data.List.Sort

namespace FreeAmp.Base

/-- `string`, as its bytes. -/
abbrev Text : Type := List UInt8

instance instLawfulBEqText : LawfulBEq Text := inferInstance

/-- `PlaylistItem*`: the address of an item. -/
abbrev Ptr : Type := Nat

def null : Ptr := 0

structure MetaData where
  artist : Text
  album : Text
  title : Text
  genre : Text
  comment : Text
  year : UInt32
  track : UInt32
  time : UInt32
  size : UInt32
  playCount : UInt32
  guid : Text
  deriving DecidableEq, Repr, Inhabited

inductive PlaylistItemState where
  | normal
  | retrievingMetaData
  | delete
  deriving DecidableEq, Repr, Inhabited

structure PlaylistItem where
  metadata : MetaData
  url : Text
  state : PlaylistItemState
  deriving DecidableEq, Repr, Inhabited

def PlaylistItem.create (url : Text) (metadata : MetaData) : PlaylistItem :=
  ⟨metadata, url, .normal⟩

inductive PlaylistSortKey where
  | artist
  | album
  | title
  | year
  | track
  | genre
  | time
  | location
  | fileName
  | comment
  /-- `kPlaylistSortKey_LastKey`, not a key -/
  | lastKey
  /-- `kPlaylistSortKey_Random`: not used with the sort function -/
  | random
  deriving DecidableEq, Repr, Inhabited

/-- `key >= kPlaylistSortKey_FirstKey && key < kPlaylistSortKey_LastKey` -/
def PlaylistSortKey.inRange : PlaylistSortKey → Bool
  | .lastKey | .random => false
  | _ => true

inductive PlaylistSortType where
  | ascending
  | descending
  deriving DecidableEq, Repr, Inhabited

/-! ## Comparing -/

/-- `c_str()`: the string up to its first NUL. -/
def cStr (s : Text) : Text := s.takeWhile (· != 0)

/-- `tolower` in the C locale. -/
def toLower (c : UInt8) : UInt8 := if 65 ≤ c ∧ c ≤ 90 then c + 32 else c

/-- `lstrcmpi(s.c_str(), t.c_str()) < 0` -/
def lstrcmpiLt (s t : Text) : Bool := decide ((cStr s).map toLower < (cStr t).map toLower)

/-- `url.substr(url.find_last_of('/') + 1)`: all of it when there is no slash. -/
def fileNameOf (url : Text) : Text := (url.reverse.takeWhile (· != 47)).reverse

/-- `PlaylistItemSort::operator()` on two items. -/
def PlaylistSortKey.less (key : PlaylistSortKey) (item1 item2 : PlaylistItem) : Bool :=
  let m1 := item1.metadata
  let m2 := item2.metadata
  match key with
  | .artist => lstrcmpiLt m1.artist m2.artist
  | .album => lstrcmpiLt m1.album m2.album
  | .title => lstrcmpiLt m1.title m2.title
  | .comment => lstrcmpiLt m1.comment m2.comment
  | .year => decide (m1.year < m2.year)
  | .track => decide (m1.track < m2.track)
  | .genre => lstrcmpiLt m1.genre m2.genre
  | .time => decide (m1.time < m2.time)
  | .location => decide (item1.url < item2.url)
  | .fileName => lstrcmpiLt (fileNameOf item1.url) (fileNameOf item2.url)
  -- the switch has no case for these and leaves `result` as it was
  | .lastKey | .random => true

/-- `PlaylistItemSort::operator()` on two pointers; `items` is what they point to. -/
def playlistItemSort (key : PlaylistSortKey) (items : Ptr → PlaylistItem)
    (p1 p2 : Ptr) : Bool :=
  if p1 ≠ null ∧ p2 ≠ null then key.less (items p1) (items p2) else true

/-- The predicate `Sort` hands to `stable_sort`: the comparison, or `not2` of it. -/
def sortPredicate (key : PlaylistSortKey) (type : PlaylistSortType)
    (items : Ptr → PlaylistItem) (p1 p2 : Ptr) : Bool :=
  match type with
  | .ascending => playlistItemSort key items p1 p2
  | .descending => !playlistItemSort key items p1 p2

/-- `stable_sort`: a merge that takes from the second half only what is less than the
head of the first. -/
def stableSort (comp : Ptr → Ptr → Bool) (list : List Ptr) : List Ptr :=
  list.mergeSort fun p1 p2 => !comp p2 p1

theorem stableSort_perm (comp : Ptr → Ptr → Bool) (list : List Ptr) :
    (stableSort comp list).Perm list :=
  List.mergeSort_perm list _

end FreeAmp.Base
