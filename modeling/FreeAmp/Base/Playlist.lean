/-
  Base/Playlist.lean --- the playlist manager, `base/src/playlist.cpp`.

  A `PlaylistManager` keeps a master playlist (the songs to play), an external
  playlist (one that is only being edited), and a shuffled copy of the master
  playlist.  `m_activeList` says which of the two playlists the editing functions
  work on; `m_current`, the track that is playing, is an index into the master
  list, or into the shuffle list when shuffling is on.

  The state comes in two halves.  `Playlists` is the lists and the current index;
  `ItemHeap` is the items the pointers in the lists point to, what has been freed,
  and the metadata threads that hold pointers of their own.

  Every function takes the manager and returns it.  Where the source would run
  into undefined behaviour the function returns a `Fault`.  Indices are `uint32`:
  natural numbers below `2 ^ 32`, with the wrap written out where the source can
  wrap.  The assertions are compiled out.  `ShuffleIt` gets the random numbers it
  draws as an argument.  Plug-ins are outside this file, so a function that calls
  one gets what the plug-in returns as an argument.
-/
import FreeAmp.Base.Errors
import FreeAmp.Base.PlaylistItem
import FreeAmp.Lib.Checked
import Mathlib.Logic.Function.Basic

namespace FreeAmp.Base

open FreeAmp.Lib

/-! ## Faults -/

/-- Where the program leaves defined behaviour, or does not return. -/
inductive Fault where
  /-- `m_current` is used as an index and is out of range -/
  | badCurrent
  /-- another index or iterator is out of range -/
  | badIndex
  /-- a pointer is followed that is NULL or whose item has been freed -/
  | badPointer
  /-- `std::length_error`: a vector would grow past `max_size()` -/
  | lengthError
  /-- the random numbers given are used up and `ShuffleIt` is still drawing -/
  | drawing
  deriving DecidableEq, Repr

/-- A computation that may fault. -/
abbrev Checked (α : Type) : Type := Except Fault α

/-- `#define kInvalidIndex 0xFFFFFFFF` -/
def kInvalidIndex : Nat := 0xFFFFFFFF

/-- `max_size()` of a vector of pointers on the 32-bit target. -/
def vecMaxSize : Nat := 0x3FFFFFFF

/-- Conversion to `uint32`. -/
def toUint32 (n : Nat) : Nat := n % 0x100000000

/-- `n - 1` in `uint32` arithmetic. -/
def predUint32 (n : Nat) : Nat := toUint32 (n + 0xFFFFFFFF)

/-- `v.insert(v.begin() + index, items.begin(), items.end())` -/
def insertItems (list : List Ptr) (index : Nat) (items : List Ptr) : Checked (List Ptr) :=
  if vecMaxSize < list.length + items.length then .error .lengthError
  else if list.length < index then .error .badIndex
  else .ok (list.take index ++ items ++ list.drop index)

/-- `v[index]` -/
def elementAt (list : List Ptr) (index : Nat) : Checked Ptr :=
  match list[index]? with
  | some item => .ok item
  | none => .error .badIndex

/-- `v.erase(v.begin() + index)` -/
def eraseAt (list : List Ptr) (index : Nat) : Checked (List Ptr) :=
  if index < list.length then .ok (list.eraseIdx index) else .error .badIndex

/-- `v.erase(v.begin() + index, v.begin() + index + count)` -/
def eraseRange (list : List Ptr) (index count : Nat) : Checked (List Ptr) :=
  if index + count ≤ list.length then .ok (list.take index ++ list.drop (index + count))
  else .error .badIndex

/-! ## The items -/

/-- A thread in `MetaDataThreadFunction`. -/
structure MetaDataThread where
  /-- the items of `list` it has still to do -/
  list : List Ptr
  /-- the metadata it has found for the first of them, if it has looked -/
  found : Option MetaData
  /-- `pl_items` -/
  updated : List Ptr
  deriving DecidableEq, Repr

/-- The items behind the pointers. -/
structure ItemHeap where
  items : Ptr → PlaylistItem
  /-- the items deleted so far, in order -/
  freed : List Ptr
  /-- the metadata threads that are running -/
  threads : List MetaDataThread

namespace ItemHeap

/-- The pointer may be followed. -/
def live (h : ItemHeap) (p : Ptr) : Prop := p ≠ null ∧ p ∉ h.freed

instance (h : ItemHeap) (p : Ptr) : Decidable (h.live p) :=
  inferInstanceAs (Decidable (_ ∧ _))

def getState (h : ItemHeap) (p : Ptr) : Checked PlaylistItemState :=
  if h.live p then .ok (h.items p).state else .error .badPointer

def setState (h : ItemHeap) (p : Ptr) (state : PlaylistItemState) : ItemHeap :=
  { h with items := Function.update h.items p { h.items p with state := state } }

def setMetaData (h : ItemHeap) (p : Ptr) (metadata : MetaData) : ItemHeap :=
  { h with items := Function.update h.items p { h.items p with metadata := metadata } }

def delete (h : ItemHeap) (p : Ptr) : ItemHeap := { h with freed := h.freed ++ [p] }

/-- What every function does that drops an item.  "If the metadata thread is still
accessing this item we don't wanna delete the item out from under it.  Instead we set a
flag and let the metadata thread clean up when it returns." -/
def releaseItem (h : ItemHeap) (p : Ptr) : Checked ItemHeap := do
  let state ← h.getState p
  if state = .retrievingMetaData then pure (h.setState p .delete) else pure (h.delete p)

/-- The same for a vector, with NULL pointers left alone. -/
def releaseItems (h : ItemHeap) (list : List Ptr) : Checked ItemHeap :=
  list.foldlM (fun h p => if p ≠ null then h.releaseItem p else pure h) h

/-- The loop of `RetrieveMetaData` on one item. -/
def markRetrieving (h : ItemHeap) (p : Ptr) : Checked ItemHeap :=
  if p ≠ null then do
    let state ← h.getState p
    if state = .normal then pure (h.setState p .retrievingMetaData) else pure h
  else pure h

/-- `RetrieveMetaData(list)`: mark the items and start a thread. -/
def retrieveMetaData (h : ItemHeap) (list : List Ptr) : Checked ItemHeap := do
  let h ← list.foldlM markRetrieving h
  pure { h with threads := h.threads ++ [⟨list, none, []⟩] }

/-- `RetrieveMetaDataNow(item)`; `found` is the metadata the formats read. -/
def retrieveMetaDataNow (h : ItemHeap) (p : Ptr) (found : MetaData) : Checked ItemHeap :=
  if p ≠ null then
    if h.live p then pure ((h.setMetaData p found).setState p .normal)
    else .error .badPointer
  else pure h

end ItemHeap

/-! ## The lists -/

inductive RepeatMode where
  | repeatNone
  | repeatOne
  | repeatAll
  deriving DecidableEq, Repr

inductive PlaylistKey where
  /-- `kPlaylistKey_MasterPlaylist` -/
  | master
  /-- `kPlaylistKey_ExternalPlaylist` -/
  | external
  /-- `kPlaylistKey_PortablePlaylist` -/
  | portable
  /-- `kPlaylistKey_LastKey`, not a key -/
  | lastKey
  deriving DecidableEq, Repr

/-- What `m_activeList` can point to. -/
inductive ActiveList where
  /-- `&m_masterList` -/
  | master
  /-- `&m_externalList` -/
  | external
  deriving DecidableEq, Repr

/-- The lists of a `PlaylistManager` and what goes with them. -/
structure Playlists where
  masterList : List Ptr
  externalList : List Ptr
  portableList : List Ptr
  activeList : ActiveList
  shuffleList : List Ptr
  current : Nat
  shuffle : Bool
  repeatMode : RepeatMode
  playlistKey : PlaylistKey
  sortKey : PlaylistSortKey
  sortType : PlaylistSortType
  deriving DecidableEq, Repr

def internalIndexOf (list : List Ptr) (item : Ptr) : Nat :=
  if item ≠ null ∧ item ∈ list then toUint32 (list.idxOf item) else kInvalidIndex

namespace Playlists

/-- `*m_activeList` -/
def active (p : Playlists) : List Ptr :=
  match p.activeList with
  | .master => p.masterList
  | .external => p.externalList

/-- `*m_activeList = list` -/
def setActive (p : Playlists) (list : List Ptr) : Playlists :=
  match p.activeList with
  | .master => { p with masterList := list }
  | .external => { p with externalList := list }

/-- `kPlaylistKey_MasterPlaylist == GetActivePlaylist()` -/
def onMaster (p : Playlists) : Bool := p.playlistKey == .master

def countItems (p : Playlists) : Nat := toUint32 p.active.length

/-- `CheckIndex`: a bogus index is set to -1. -/
def checkIndex (p : Playlists) (index : Nat) : Nat :=
  if p.countItems ≤ index then kInvalidIndex else index

def itemAt (p : Playlists) (index : Nat) : Ptr :=
  let index := p.checkIndex index
  if index ≠ kInvalidIndex then p.active.getD index null else null

def indexOf (p : Playlists) (item : Ptr) : Nat := internalIndexOf p.active item

/-- The list `m_current` is an index into. -/
def playing (p : Playlists) : List Ptr := if p.shuffle then p.shuffleList else p.masterList

def getCurrentItem (p : Playlists) : Checked Ptr :=
  if p.masterList.length ≠ 0 then
    match p.playing[p.current]? with
    | some item => .ok item
    | none => .error .badCurrent
  else .ok null

def getCurrentIndex (p : Playlists) : Checked Nat :=
  if p.masterList.length ≠ 0 then
    if p.shuffle then
      match p.shuffleList[p.current]? with
      | some item => .ok (p.indexOf item)
      | none => .error .badCurrent
    else .ok p.current
  else .ok kInvalidIndex

def hasAnotherItem (p : Playlists) : Bool :=
  if p.repeatMode = .repeatOne ∨ p.repeatMode = .repeatAll then true
  else decide (p.current < predUint32 p.masterList.length)

end Playlists

end FreeAmp.Base
