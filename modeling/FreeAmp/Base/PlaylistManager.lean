/-
  Base/PlaylistManager.lean --- the member functions of `PlaylistManager`.

  Functions that always return `kError_NoErr` return only the manager here; those
  that can return an error return it beside the manager.  A vector passed by
  pointer is not NULL.  `ReadPlaylist(url)`, `ToggleShuffleMode` and the overloads
  that take an item for an index come down to the functions below.
-/
import FreeAmp.Base.ShuffleIt

namespace FreeAmp.Base

open FreeAmp.Lib

/-- The events sent to `m_context->target`. -/
inductive PlmEvent where
  /-- `PlaylistItemAddedEvent` -/
  | itemAdded (item : Ptr)
  /-- `PlaylistItemsAddedEvent` -/
  | itemsAdded (items : List Ptr)
  /-- `PlaylistItemRemovedEvent` -/
  | itemRemoved (items : List Ptr) (indices : List Nat)
  /-- `PlaylistItemMovedEvent` -/
  | itemMoved (oldIndex newIndex : Nat) (item : Ptr)
  /-- `PlaylistCurrentItemInfoEvent` -/
  | currentItemInfo (item : Ptr)
  /-- `PlaylistShuffleEvent` -/
  | shuffle (on : Bool)
  /-- `PlaylistRepeatEvent` -/
  | repeatMode (mode : RepeatMode)
  /-- `PlaylistSortedEvent` -/
  | sorted (key : PlaylistSortKey)
  /-- `PlaylistItemsUpdatedEvent` -/
  | itemsUpdated (items : List Ptr)
  deriving DecidableEq, Repr

structure PlaylistManager extends Playlists, ItemHeap where
  events : List PlmEvent

namespace PlaylistManager

/-- The constructor.  `shuffle` and `repeatMode` come from the preferences; `contents` is what
the callers are going to make the items of that they pass. -/
def init (shuffle : Bool) (repeatMode : RepeatMode) (contents : Ptr → Text × MetaData) :
    PlaylistManager where
  masterList := []
  externalList := []
  portableList := []
  activeList := .master
  shuffleList := []
  current := kInvalidIndex
  shuffle := shuffle
  repeatMode := repeatMode
  playlistKey := .master
  sortKey := .random
  sortType := .ascending
  items := fun p => .create (contents p).1 (contents p).2
  freed := []
  threads := []
  events := []

/-! ## Common steps -/

/-- `m_context->target->AcceptEvent(event)` -/
def acceptEvent (m : PlaylistManager) (event : PlmEvent) : PlaylistManager :=
  { m with events := m.events ++ [event] }

/-- `*m_activeList = list` -/
def setActiveList (m : PlaylistManager) (list : List Ptr) : PlaylistManager :=
  { m with toPlaylists := m.toPlaylists.setActive list }

/-- A step on the items. -/
def onHeap (m : PlaylistManager) (h : Checked ItemHeap) : Checked PlaylistManager := do
  let heap ← h
  pure { m with toItemHeap := heap }

/-- `if(kPlaylistKey_MasterPlaylist == GetActivePlaylist()) { .. }` -/
def whenMaster (m : PlaylistManager) (step : PlaylistManager → Checked PlaylistManager) :
    Checked PlaylistManager :=
  if m.onMaster then step m else pure m

/-- `if(queryForMetaData) RetrieveMetaData(&items)` -/
def queryMetaData (m : PlaylistManager) (queryForMetaData : Bool) (items : List Ptr) :
    Checked PlaylistManager :=
  if queryForMetaData then m.onHeap (m.toItemHeap.retrieveMetaData items) else pure m

/-- `m_shuffleList.erase(m_shuffleList.begin() + InternalIndexOf(&m_shuffleList, item))` -/
def eraseFromShuffleList (m : PlaylistManager) (item : Ptr) : Checked PlaylistManager := do
  let shuffleList ← eraseAt m.shuffleList (internalIndexOf m.shuffleList item)
  pure { m with shuffleList := shuffleList }

/-- `m_shuffleList.insert(m_shuffleList.end(), ..)` -/
def appendToShuffleList (m : PlaylistManager) (items : List Ptr) : Checked PlaylistManager := do
  let shuffleList ← insertItems m.shuffleList m.shuffleList.length items
  pure { m with shuffleList := shuffleList }

/-! ## The current item -/

def internalSetCurrentIndex (m : PlaylistManager) (index : Nat) : Checked PlaylistManager := do
  let m := { m with current := index }
  if index ≠ kInvalidIndex then
    let item ← m.getCurrentItem
    pure (m.acceptEvent (.currentItemInfo item))
  else pure m

def setCurrentIndex (m : PlaylistManager) (index : Nat) : Checked PlaylistManager :=
  let index := m.checkIndex index
  let index := if m.shuffle then internalIndexOf m.shuffleList (m.itemAt index) else index
  m.internalSetCurrentIndex index

def shuffleShuffleList (m : PlaylistManager) (draws : List Rand) : Checked PlaylistManager := do
  let shuffleList ← shuffleIt m.shuffleList draws
  pure { m with shuffleList := shuffleList }

def gotoNextItem (m : PlaylistManager) (userAction : Bool) (draws : List Rand) :
    Checked PlaylistManager := do
  let count := m.masterList.length
  if count ≠ 0 then
    if m.repeatMode ≠ .repeatOne ∨ userAction then
      let index := toUint32 (m.current + 1)
      if count ≤ index ∧ (m.repeatMode = .repeatAll ∨ userAction) then
        let m ← (if m.shuffle then m.shuffleShuffleList draws else pure m)
        m.internalSetCurrentIndex 0
      else if count ≤ index then m.internalSetCurrentIndex m.current
      else m.internalSetCurrentIndex index
    else m.internalSetCurrentIndex m.current
  else pure { m with current := kInvalidIndex }

def gotoPreviousItem (m : PlaylistManager) (userAction : Bool) (draws : List Rand) :
    Checked PlaylistManager := do
  let count := m.masterList.length
  if count ≠ 0 then
    if m.repeatMode ≠ .repeatOne ∨ userAction then
      if m.current = 0 ∧ (m.repeatMode = .repeatAll ∨ userAction) then
        let m ← (if m.shuffle then m.shuffleShuffleList draws else pure m)
        m.internalSetCurrentIndex (predUint32 count)
      else if m.current ≠ 0 then m.internalSetCurrentIndex (predUint32 m.current)
      else m.internalSetCurrentIndex m.current
    else m.internalSetCurrentIndex m.current
  else pure { m with current := kInvalidIndex }

def setShuffleMode (m : PlaylistManager) (shuffle : Bool) (draws : List Rand) :
    Checked PlaylistManager := do
  let currentItem ← m.getCurrentItem
  let m := { m with shuffle := shuffle }
  if shuffle then
    let m ← m.shuffleShuffleList draws
    let m := if currentItem ≠ null then
        { m with current := internalIndexOf m.shuffleList currentItem }
      else m
    pure (m.acceptEvent (.shuffle shuffle))
  else
    let m := if currentItem ≠ null then { m with current := m.indexOf currentItem } else m
    pure (m.acceptEvent (.shuffle shuffle))

def setRepeatMode (m : PlaylistManager) (mode : RepeatMode) : PlaylistManager :=
  { m with repeatMode := mode }.acceptEvent (.repeatMode mode)

/-! ## Adding -/

/-- What the adding functions do last for the current index when they append. -/
def firstCurrent (m : PlaylistManager) : Checked PlaylistManager :=
  if m.current = kInvalidIndex ∧ m.active.length ≠ 0 then m.internalSetCurrentIndex 0
  else pure m

/-- And when they insert at `index`. -/
def keepCurrent (m : PlaylistManager) (index : Nat) (currentItem : Ptr) :
    Checked PlaylistManager :=
  if m.current = kInvalidIndex ∧ m.active.length ≠ 0 then m.internalSetCurrentIndex 0
  else if index ≤ m.current then m.setCurrentIndex (m.indexOf currentItem)
  else pure m

def addItem (m : PlaylistManager) (item : Ptr) (queryForMetaData : Bool) :
    Checked (Error × PlaylistManager) :=
  if item ≠ null then do
    let list ← insertItems m.active m.active.length [item]
    let m := m.setActiveList list
    let m ← m.whenMaster fun m => do
      let m ← m.appendToShuffleList [item]
      m.firstCurrent
    let m ← m.queryMetaData queryForMetaData [item]
    pure (.noErr, m.acceptEvent (.itemAdded item))
  else pure (.invalidParam, m)

def addItemAt (m : PlaylistManager) (item : Ptr) (index : Nat) (queryForMetaData : Bool) :
    Checked (Error × PlaylistManager) :=
  let index := if m.active.length < index then m.active.length else index
  if item ≠ null ∧ index ≠ kInvalidIndex then do
    let currentItem ← m.getCurrentItem
    let list ← insertItems m.active index [item]
    let m := m.setActiveList list
    let m ← m.whenMaster fun m => do
      let m ← m.appendToShuffleList [item]
      m.keepCurrent index currentItem
    let m ← m.queryMetaData queryForMetaData [item]
    pure (.noErr, m.acceptEvent (.itemAdded item))
  else pure (.invalidParam, m)

/-- `AddItems(&list, queryForMetaData)`; the caller's vector afterwards is the second
component.  `AddItemsToShuffleList` shuffles that vector. -/
def addItems (m : PlaylistManager) (list : List Ptr) (queryForMetaData : Bool)
    (draws : List Rand) : Checked (Error × List Ptr × PlaylistManager) := do
  let active ← insertItems m.active m.active.length list
  let m := m.setActiveList active
  let list ← (if m.onMaster then shuffleIt list draws else pure list)
  let m ← m.whenMaster fun m => do
    let m ← m.appendToShuffleList list
    m.firstCurrent
  let m ← m.queryMetaData queryForMetaData list
  pure (.noErr, list, m.acceptEvent (.itemsAdded list))

def addItemsAt (m : PlaylistManager) (list : List Ptr) (index : Nat) (queryForMetaData : Bool)
    (draws : List Rand) : Checked (Error × List Ptr × PlaylistManager) :=
  let index := if m.active.length < index then m.active.length else index
  if index ≠ kInvalidIndex then do
    let currentItem ← m.getCurrentItem
    let active ← insertItems m.active index list
    let m := m.setActiveList active
    let list ← (if m.onMaster then shuffleIt list draws else pure list)
    let m ← m.whenMaster fun m => do
      let m ← m.appendToShuffleList list
      m.keepCurrent index currentItem
    let m ← m.queryMetaData queryForMetaData list
    pure (.noErr, list, m.acceptEvent (.itemsAdded list))
  else pure (.invalidParam, list, m)

/-! ## Removing -/

/-- What the removing functions do last: the item that was current is looked for in the
list, by its address only. -/
def repairCurrent (m : PlaylistManager) (currentItem : Ptr) : Checked PlaylistManager :=
  let newIndex := m.indexOf currentItem
  if newIndex ≠ kInvalidIndex then m.setCurrentIndex newIndex
  else if m.current ≠ kInvalidIndex ∧ m.active.length ≤ m.current then
    m.setCurrentIndex (predUint32 m.active.length)
  else m.setCurrentIndex m.current

def removeItem (m : PlaylistManager) (index : Nat) : Checked (Error × PlaylistManager) :=
  let index := m.checkIndex index
  if index ≠ kInvalidIndex then do
    let currentItem ← m.getCurrentItem
    let item ← elementAt m.active index
    let list ← eraseAt m.active index
    let m := m.setActiveList list
    let m ← m.whenMaster fun m => do
      let m ← m.eraseFromShuffleList item
      pure (if m.active.length = 0 then { m with current := kInvalidIndex } else m)
    let m ← m.onHeap (m.toItemHeap.releaseItem item)
    let m ← m.whenMaster fun m => m.repairCurrent currentItem
    pure (.noErr, m.acceptEvent (.itemRemoved [item] [index]))
  else pure (.invalidParam, m)

/-- One round of the loop of `RemoveItems(index, count)`. -/
def removeRangeRound (m : PlaylistManager) (index : Nat) : Checked PlaylistManager := do
  let item ← elementAt m.active index
  let m ← m.whenMaster fun m => do
    let m ← m.eraseFromShuffleList item
    pure (if m.active.length = 0 then { m with current := kInvalidIndex } else m)
  m.onHeap (m.toItemHeap.releaseItem item)

/-- `RemoveItems(index, count)` -/
def removeRange (m : PlaylistManager) (index count : Nat) :
    Checked (Error × PlaylistManager) :=
  let index := m.checkIndex index
  if index ≠ kInvalidIndex then do
    let currentItem ← m.getCurrentItem
    let indexList := (List.range count).map (index + ·)
    let itemList := (m.active.drop index).take count
    let m ← indexList.foldlM removeRangeRound m
    let m := m.acceptEvent (.itemRemoved itemList indexList)
    let list ← eraseRange m.active index count
    let m := m.setActiveList list
    let m ← m.whenMaster fun m => m.repairCurrent currentItem
    pure (.noErr, m)
  else pure (.invalidParam, m)

/-- What the loop of `RemoveItems(&items)` works on. -/
structure Removing where
  manager : PlaylistManager
  itemList : List Ptr
  indexList : List Nat
  result : Error

/-- One round of the loop of `RemoveItems(&items)`. -/
def removeItemsRound (s : Removing) (item : Ptr) : Checked Removing :=
  if item ≠ null then do
    let m := s.manager
    let oldIndex := m.indexOf item
    let list ← eraseAt m.active oldIndex
    let m := m.setActiveList list
    let m ← m.whenMaster fun m => m.eraseFromShuffleList item
    let m ← m.onHeap (m.toItemHeap.releaseItem item)
    pure ⟨m, s.itemList ++ [item], s.indexList ++ [oldIndex], .noErr⟩
  else pure s

def removeItems (m : PlaylistManager) (items : List Ptr) :
    Checked (Error × PlaylistManager) := do
  let currentItem ← m.getCurrentItem
  let s ← items.foldlM removeItemsRound ⟨m, [], [], .invalidParam⟩
  let m := s.manager.acceptEvent (.itemRemoved s.itemList s.indexList)
  let m ← m.whenMaster fun m => m.repairCurrent currentItem
  pure (s.result, m)

def removeAll (m : PlaylistManager) : Checked PlaylistManager := do
  let m' ← m.onHeap (m.toItemHeap.releaseItems m.active.reverse)
  let removed := m.active.zipIdx.reverse.filter fun r => r.1 != null
  let m := m'.acceptEvent (.itemRemoved (removed.map Prod.fst) (removed.map Prod.snd))
  let m := m.setActiveList []
  if m.onMaster then pure { m with shuffleList := [], current := kInvalidIndex } else pure m

/-! ## Moving -/

def swapItems (m : PlaylistManager) (index1 index2 : Nat) :
    Checked (Error × PlaylistManager) :=
  let index1 := m.checkIndex index1
  let index2 := m.checkIndex index2
  if index1 ≠ kInvalidIndex ∧ index2 ≠ kInvalidIndex then do
    let item1 ← elementAt m.active index1
    let item2 ← elementAt m.active index2
    let m := m.setActiveList ((m.active.set index1 item2).set index2 item1)
    let m := m.acceptEvent (.itemMoved index1 index2 item1)
    let m := m.acceptEvent (.itemMoved (toUint32 (index2 + 1)) index1 item2)
    let m ← m.whenMaster fun m =>
      if m.current = index1 then m.internalSetCurrentIndex index2
      else if m.current = index2 then m.internalSetCurrentIndex index1
      else pure m
    pure (.noErr, m)
  else pure (.invalidParam, m)

def moveItem (m : PlaylistManager) (oldIndex newIndex : Nat) :
    Checked (Error × PlaylistManager) :=
  let oldIndex := m.checkIndex oldIndex
  let newIndex := m.checkIndex newIndex
  if oldIndex ≠ kInvalidIndex ∧ newIndex ≠ kInvalidIndex then do
    let item ← elementAt m.active oldIndex
    let list ← eraseAt m.active oldIndex
    let newIndex := if list.length < newIndex then list.length else newIndex
    let list ← insertItems list newIndex [item]
    let m := m.setActiveList list
    let m ← m.whenMaster fun m =>
      if oldIndex = m.current then m.internalSetCurrentIndex newIndex
      else if newIndex = m.current then
        if m.current < oldIndex then m.internalSetCurrentIndex (toUint32 (m.current + 1))
        else m.internalSetCurrentIndex (predUint32 m.current)
      else pure m
    pure (.noErr, m.acceptEvent (.itemMoved oldIndex newIndex item))
  else pure (.invalidParam, m)

/-- The first loop of `MoveItems`: the target index and `oldIndices`. -/
def moveTarget (p : Playlists) (items : List Ptr) (index : Nat) : Nat × List Nat :=
  items.foldl (fun s item =>
    if item ≠ null then
      let oldIndex := p.indexOf item
      (if oldIndex < s.1 then s.1 - 1 else s.1, s.2 ++ [oldIndex])
    else s) (index, [])

/-- The second loop of `MoveItems`. -/
def eraseItems (list : List Ptr) (items : List Ptr) : Checked (List Ptr) :=
  items.foldlM (fun list item =>
    if item ≠ null then eraseAt list (internalIndexOf list item) else pure list) list

/-- The last loop of `MoveItems`. -/
def movedEvents (oldIndices : List Nat) (index : Nat) (items : List Ptr)
    (m : PlaylistManager) : Checked PlaylistManager :=
  items.zipIdx.foldlM (fun m r =>
    if r.1 ≠ null then
      match oldIndices[r.2]? with
      | some oldIndex => pure (m.acceptEvent (.itemMoved oldIndex (toUint32 (index + r.2)) r.1))
      | none => .error .badIndex
    else pure m) m

def moveItems (m : PlaylistManager) (items : List Ptr) (index : Nat) :
    Checked PlaylistManager := do
  let index := m.checkIndex index
  let currentItem ← m.getCurrentItem
  let target := moveTarget m.toPlaylists items index
  let list ← eraseItems m.active items
  let index := if list.length ≤ target.1 then list.length else target.1
  let list ← insertItems list index items
  let m := m.setActiveList list
  let m ← m.whenMaster fun m => m.setCurrentIndex (m.indexOf currentItem)
  movedEvents target.2 index items m

/-! ## Sorting -/

/-- The comparisons of `stable_sort` follow the pointers. -/
def comparable (m : PlaylistManager) : Prop :=
  2 ≤ m.active.length → ∀ p ∈ m.active, p ≠ null → p ∉ m.freed

instance (m : PlaylistManager) : Decidable m.comparable :=
  inferInstanceAs (Decidable (_ → _))

def sort (m : PlaylistManager) (key : PlaylistSortKey) (type : PlaylistSortType)
    (draws : List Rand) : Checked (Error × PlaylistManager) := do
  let currentItem ← m.getCurrentItem
  if key.inRange ∨ key = .random then
    let list ←
      (if key.inRange then
        if m.comparable then pure (stableSort (sortPredicate key type m.items) m.active)
        else .error .badPointer
      else shuffleIt m.active draws)
    let m := m.setActiveList list
    let m := { m with sortKey := key, sortType := type }
    let m ← m.whenMaster fun m =>
      if currentItem ≠ null then m.setCurrentIndex (m.indexOf currentItem) else pure m
    pure (.noErr, m.acceptEvent (.sorted key))
  else pure (.invalidParam, m)

/-! ## Choosing the playlist -/

def setActivePlaylist (m : PlaylistManager) (key : PlaylistKey) : Error × PlaylistManager :=
  match key with
  | .master => (.noErr, { m with playlistKey := key, activeList := .master })
  | .external => (.noErr, { m with playlistKey := key, activeList := .external })
  -- the portable playlist is kept in the external list
  | .portable => (.noErr, { m with playlistKey := key, activeList := .external })
  | .lastKey => (.invalidParam, m)

/-- What a plug-in returns: the items it has read and its error. -/
structure PlugInResult where
  items : List Ptr
  result : Error

/-- `SetExternalPlaylist(url)`; `read` is what `ReadPlaylist(url, &m_externalList)` does. -/
def setExternalPlaylist (m : PlaylistManager) (read : PlugInResult) :
    Checked (Error × PlaylistManager) := do
  let m ← m.onHeap (m.toItemHeap.releaseItems m.externalList)
  let externalList ← insertItems [] 0 read.items
  let m := { m with externalList := externalList }
  let m ← m.onHeap (m.toItemHeap.retrieveMetaData externalList)
  pure (read.result, m)

/-- `ReadPortablePlaylist(device, items, ..)`.  With `items` given, the device only fills
the caller's vector. -/
def readPortablePlaylist (m : PlaylistManager) (itemsGiven : Bool) (read : PlugInResult)
    (draws : List Rand) : Checked (Error × PlaylistManager) :=
  if itemsGiven then pure (read.result, m)
  else do
    let m ← m.onHeap (m.toItemHeap.releaseItems m.externalList)
    let (_, _, m) ← m.addItems read.items true draws
    pure (read.result, m)

def setPortablePlaylist (m : PlaylistManager) (read : PlugInResult) (draws : List Rand) :
    Checked (Error × PlaylistManager) :=
  m.readPortablePlaylist false read draws

/-- The destructor, as far as the items go. -/
def destruct (m : PlaylistManager) : Checked PlaylistManager := do
  let m ← m.onHeap (m.toItemHeap.releaseItems m.masterList)
  let m ← m.onHeap (m.toItemHeap.releaseItems m.externalList)
  m.onHeap (m.toItemHeap.releaseItems m.portableList)

/-! ## Metadata threads -/

/-- `MetaDataThreadFunction`, from the head of the loop up to the mutex: the item's URL is
looked up.  `found` is what the database or the formats have.  A NULL item is skipped. -/
def threadRead (m : PlaylistManager) (k : Nat) (found : MetaData) : Checked PlaylistManager :=
  match m.threads[k]? with
  | some ⟨item :: rest, none, updated⟩ =>
    if item ≠ null then
      if m.toItemHeap.live item then
        pure { m with threads := m.threads.set k ⟨item :: rest, some found, updated⟩ }
      else .error .badPointer
    else pure { m with threads := m.threads.set k ⟨rest, none, updated⟩ }
  | _ => pure m

/-- `MetaDataThreadFunction`, the step under the mutex. -/
def threadComplete (m : PlaylistManager) (k : Nat) : Checked PlaylistManager :=
  match m.threads[k]? with
  | some ⟨item :: rest, some found, updated⟩ => do
      let state ← m.toItemHeap.getState item
      if state = .delete then
        pure { m with
          toItemHeap := { m.toItemHeap.delete item with
            threads := m.threads.set k ⟨rest, none, updated⟩ } }
      else
        let m := { m with
          toItemHeap := (m.toItemHeap.setMetaData item found).setState item .normal }
        let currentItem ← m.getCurrentItem
        let updated := if item = currentItem then item :: updated else updated ++ [item]
        pure { m with threads := m.threads.set k ⟨rest, none, updated⟩ }
  | _ => pure m

/-- `MetaDataThreadFunction`, past the loop: the thread ends. -/
def threadFinish (m : PlaylistManager) (k : Nat) : PlaylistManager :=
  match m.threads[k]? with
  | some ⟨[], _, updated⟩ =>
    let m := { m with threads := m.threads.eraseIdx k }
    if updated ≠ [] then m.acceptEvent (.itemsUpdated updated) else m
  | _ => m

/-! ## The calls -/

/-- A call of a member function, or a step of a metadata thread. -/
inductive Call where
  | addItem (item : Ptr) (queryForMetaData : Bool)
  | addItemAt (item : Ptr) (index : Nat) (queryForMetaData : Bool)
  | addItems (list : List Ptr) (queryForMetaData : Bool) (draws : List Rand)
  | addItemsAt (list : List Ptr) (index : Nat) (queryForMetaData : Bool) (draws : List Rand)
  | removeItem (index : Nat)
  | removeRange (index count : Nat)
  | removeItems (items : List Ptr)
  | removeAll
  | swapItems (index1 index2 : Nat)
  | moveItem (oldIndex newIndex : Nat)
  | moveItems (items : List Ptr) (index : Nat)
  | sort (key : PlaylistSortKey) (type : PlaylistSortType) (draws : List Rand)
  | setShuffleMode (shuffle : Bool) (draws : List Rand)
  | setRepeatMode (mode : RepeatMode)
  | gotoNextItem (userAction : Bool) (draws : List Rand)
  | gotoPreviousItem (userAction : Bool) (draws : List Rand)
  | setCurrentIndex (index : Nat)
  | setActivePlaylist (key : PlaylistKey)
  | setExternalPlaylist (read : PlugInResult)
  | setPortablePlaylist (read : PlugInResult) (draws : List Rand)
  | readPortablePlaylist (itemsGiven : Bool) (read : PlugInResult) (draws : List Rand)
  | retrieveMetaData (list : List Ptr)
  | retrieveMetaDataNow (item : Ptr) (found : MetaData)
  | threadRead (k : Nat) (found : MetaData)
  | threadComplete (k : Nat)
  | threadFinish (k : Nat)

/-- What a call does to the manager. -/
def call (m : PlaylistManager) : Call → Checked PlaylistManager
  | .addItem item queryForMetaData => Prod.snd <$> m.addItem item queryForMetaData
  | .addItemAt item index queryForMetaData => Prod.snd <$> m.addItemAt item index queryForMetaData
  | .addItems list queryForMetaData draws =>
    (fun r => r.2.2) <$> m.addItems list queryForMetaData draws
  | .addItemsAt list index queryForMetaData draws =>
    (fun r => r.2.2) <$> m.addItemsAt list index queryForMetaData draws
  | .removeItem index => Prod.snd <$> m.removeItem index
  | .removeRange index count => Prod.snd <$> m.removeRange index count
  | .removeItems items => Prod.snd <$> m.removeItems items
  | .removeAll => m.removeAll
  | .swapItems index1 index2 => Prod.snd <$> m.swapItems index1 index2
  | .moveItem oldIndex newIndex => Prod.snd <$> m.moveItem oldIndex newIndex
  | .moveItems items index => m.moveItems items index
  | .sort key type draws => Prod.snd <$> m.sort key type draws
  | .setShuffleMode shuffle draws => m.setShuffleMode shuffle draws
  | .setRepeatMode mode => pure (m.setRepeatMode mode)
  | .gotoNextItem userAction draws => m.gotoNextItem userAction draws
  | .gotoPreviousItem userAction draws => m.gotoPreviousItem userAction draws
  | .setCurrentIndex index => m.setCurrentIndex index
  | .setActivePlaylist key => pure (m.setActivePlaylist key).2
  | .setExternalPlaylist read => Prod.snd <$> m.setExternalPlaylist read
  | .setPortablePlaylist read draws => Prod.snd <$> m.setPortablePlaylist read draws
  | .readPortablePlaylist itemsGiven read draws =>
    Prod.snd <$> m.readPortablePlaylist itemsGiven read draws
  | .retrieveMetaData list => m.onHeap (m.toItemHeap.retrieveMetaData list)
  | .retrieveMetaDataNow item found => m.onHeap (m.toItemHeap.retrieveMetaDataNow item found)
  | .threadRead k found => m.threadRead k found
  | .threadComplete k => m.threadComplete k
  | .threadFinish k => pure (m.threadFinish k)

/-- The calls as steps; a call that faults leads nowhere. -/
def next (m : PlaylistManager) (c : Call) : Option PlaylistManager :=
  match m.call c with
  | .ok m' => some m'
  | .error _ => none

end PlaylistManager

end FreeAmp.Base
