/-
  Base/DownloadLifecycle.lean --- the life of one item of the download manager, from
  `base/src/downloadmanager.cpp`.

  `Life` says what the download thread can do with the state of an item, and where it
  may then be with it; the thread of `Base/DownloadThread.lean` does nothing else,
  `threadStep_life`.  An item that has been cancelled stays so unless the thread is past
  its last look at the state.
-/
import FreeAmp.Base.DownloadThread

namespace FreeAmp.Base

open FreeAmp.Lib

/-- The item that an answer leaves. -/
def Answer.item : Answer → DownloadItem
  | .body item _ => item
  | .again item => item
  | .returned _ item => item

/-! ## The life of an item -/

/-- How far the thread is with an item. -/
inductive Phase where
  /-- it is not working on it -/
  | away
  /-- it has found it queued -/
  | picked
  /-- it is about to look at its state -/
  | checking (result : Error)
  /-- it will look at its state before it returns from `Download` -/
  | working
  /-- it may return from `Download` without looking -/
  | passing
  /-- it has returned from `Download` -/
  | returned (result : Error)
  /-- it is about to remove the file -/
  | cleaning
  deriving DecidableEq, Repr

/-- The thread is at work on an item, and has not given it up. -/
def Phase.live : Phase → Bool
  | .checking result => result != .userCancel
  | .working => true
  | .passing => true
  | .returned result => result != .userCancel
  | _ => false

/-- What the thread does with the state of an item; `exit` is `m_exit`. -/
inductive Life (exit : Bool) :
    DownloadItemState → Phase → DownloadItemState → Phase → Prop
  | away (state : DownloadItemState) : Life exit state .away state .away
  | find : Life exit .queued .away .queued .picked
  | pick (state : DownloadItemState) : Life exit state .picked state .picked
  | start (state : DownloadItemState) {phase : Phase} (h : phase.live = true) :
      Life exit state .picked .downloading phase
  | cancel {state : DownloadItemState} (result : Error) (h : state ≠ .downloading) :
      Life exit state (.checking result) state (.returned .userCancel)
  | fail {result : Error} (h : result ≠ .noErr) :
      Life exit .downloading (.checking result) .downloading (.returned result)
  | goOn {phase : Phase} (h : phase.live = true) :
      Life exit .downloading (.checking .noErr) .downloading phase
  | work (state : DownloadItemState) : Life exit state .working state .working
  | report (state : DownloadItemState) {result : Error}
      (h : result = .userCancel → exit = true ∨ state ≠ .downloading) :
      Life exit state .working state (.checking result)
  | more (state : DownloadItemState) : Life exit state .passing state .working
  | passOver (state : DownloadItemState) : Life exit state .passing state (.returned .noErr)
  | done (state : DownloadItemState) : Life exit state (.returned .noErr) .done .away
  | keep {state : DownloadItemState} (h : state ≠ .cancelled) :
      Life exit state (.returned .userCancel) state .away
  | discard : Life exit .cancelled (.returned .userCancel) .cancelled .cleaning
  | error {result : Error} (state : DownloadItemState) (phase : Phase) (h : result ≠ .noErr)
      (h' : result ≠ .userCancel) : Life exit state (.returned result) .error phase
  | clean (state : DownloadItemState) : Life exit state .cleaning state .away

/-- How far the thread is with the item at `i`. -/
def Place.phase (place : Place) (i : Nat) : Phase :=
  if place.item ≠ some i then .away
  else
    match place with
    | .found _ => .picked
    | .starting _ => .picked
    | .check _ result _ => .checking result
    | .lookup _ => .working
    | .socket _ => .working
    | .network _ _ => .working
    | .select _ _ => .working
    | .bodyTest _ _ => .passing
    | .returned _ result => .returned result
    | .cleanUp _ => .cleaning
    | _ => .away

theorem Place.phase_away {place : Place} {i : Nat} (h : place.item ≠ some i) :
    place.phase i = .away := by
  unfold Place.phase
  rw [if_pos h]

theorem Place.item_ite {c : Prop} [Decidable c] {place place' : Place} (h : place.item = none)
    (h' : place'.item = none) : (if c then place else place').item = none := by
  split
  · exact h
  · exact h'

section PhaseAt

variable (i : Nat)

@[simp] theorem phase_found : (Place.found i).phase i = .picked := if_neg (not_not_intro rfl)
@[simp] theorem phase_starting : (Place.starting i).phase i = .picked :=
  if_neg (not_not_intro rfl)
@[simp] theorem phase_check (result : Error) (next : Next) :
    (Place.check i result next).phase i = .checking result := if_neg (not_not_intro rfl)
@[simp] theorem phase_lookup : (Place.lookup i).phase i = .working := if_neg (not_not_intro rfl)
@[simp] theorem phase_socket : (Place.socket i).phase i = .working := if_neg (not_not_intro rfl)
@[simp] theorem phase_network (call : NetworkCall) : (Place.network i call).phase i = .working :=
  if_neg (not_not_intro rfl)
@[simp] theorem phase_select (call : NetworkCall) : (Place.select i call).phase i = .working :=
  if_neg (not_not_intro rfl)
@[simp] theorem phase_bodyTest (more : Bool) : (Place.bodyTest i more).phase i = .passing :=
  if_neg (not_not_intro rfl)
@[simp] theorem phase_returned (result : Error) :
    (Place.returned i result).phase i = .returned result := if_neg (not_not_intro rfl)
@[simp] theorem phase_cleanUp : (Place.cleanUp i).phase i = .cleaning :=
  if_neg (not_not_intro rfl)
@[simp] theorem phase_loop : Place.loop.phase i = .away := if_pos nofun

end PhaseAt

/-! ## What a step changes -/

namespace Manager

section Updates

variable (s : Manager) (i : Nat) (item : DownloadItem) (place : Place) (data : Option Text)

@[simp] theorem goto_items : (s.goto place).items = s.items := rfl
@[simp] theorem goto_place : (s.goto place).place = place := rfl
@[simp] theorem setItem_items : (s.setItem i item).items = s.items.set i item := rfl
@[simp] theorem setFile_items : (s.setFile item data).items = s.items := rfl
end Updates

/-- What a step at the item at `i` leaves alone: all other items, and what the thread has no
part in. -/
structure Frame (i : Nat) (s t : Manager) : Prop where
  length : t.items.length = s.items.length
  others : ∀ j, j ≠ i → t.items[j]? = s.items[j]?
  place : ∀ j, j ≠ i → t.place.item ≠ some j
  exit : t.exit = s.exit
  saved : t.saved = s.saved
  database : t.database = s.database
  call : t.call = s.call

/-- The place is one at the item, or at none. -/
def At (i : Nat) (place : Place) : Prop := ∀ j, j ≠ i → place.item ≠ some j

theorem at_of_item {i : Nat} {place : Place} (h : place.item = some i ∨ place.item = none) :
    At i place := by
  intro j hj heq
  rcases h with h | h
  · rw [h] at heq
    exact hj (Option.some.inj heq).symm
  · rw [h] at heq
    exact absurd heq nofun

theorem frame_goto {i : Nat} {place : Place} (s : Manager) (h : At i place) :
    Frame i s (s.goto place) :=
  ⟨rfl, fun _ _ => rfl, h, rfl, rfl, rfl, rfl⟩

theorem frame_setItem {i : Nat} {place : Place} (s : Manager) (item : DownloadItem)
    (h : At i place) : Frame i s ((s.setItem i item).goto place) := by
  refine ⟨List.length_set, ?_, h, rfl, rfl, rfl, rfl⟩
  intro j hj
  rw [goto_items, setItem_items, List.getElem?_set_ne (Ne.symm hj)]

theorem frame_setFile {i : Nat} {place : Place} (s : Manager) (item item' : DownloadItem)
    (data : Option Text) (h : At i place) :
    Frame i s (((s.setItem i item).setFile item' data).goto place) := by
  refine ⟨List.length_set, ?_, h, rfl, rfl, rfl, rfl⟩
  intro j hj
  rw [goto_items, setFile_items, setItem_items, List.getElem?_set_ne (Ne.symm hj)]

/-- What a step at the item at `i` does. -/
structure Acts (i : Nat) (item : DownloadItem) (phase : Phase) (s t : Manager) : Prop where
  frame : Frame i s t
  life : ∃ item', t.items[i]? = some item' ∧
    Life s.exit item.state phase item'.state (t.place.phase i) ∧ (item.NulFree → item'.NulFree)

section ActsRules

variable {s : Manager} {i : Nat} {item : DownloadItem} {phase : Phase} {place : Place}

theorem acts_goto (hitem : s.items[i]? = some item) (h : At i place)
    (hlife : Life s.exit item.state phase item.state (place.phase i)) :
    Acts i item phase s (s.goto place) :=
  ⟨frame_goto s h, item, hitem, hlife, id⟩

theorem getElem?_set_self' (hitem : s.items[i]? = some item) (item' : DownloadItem) :
    (s.items.set i item')[i]? = some item' := by
  obtain ⟨hlt, -⟩ := List.getElem?_eq_some_iff.mp hitem
  exact List.getElem?_set_self hlt

theorem acts_setItem (hitem : s.items[i]? = some item) {item' : DownloadItem} (h : At i place)
    (hlife : Life s.exit item.state phase item'.state (place.phase i))
    (hnul : item.NulFree → item'.NulFree) :
    Acts i item phase s ((s.setItem i item').goto place) :=
  ⟨frame_setItem s item' h, item', getElem?_set_self' hitem item', hlife, hnul⟩

theorem acts_setFile (hitem : s.items[i]? = some item) {item' item'' : DownloadItem}
    {data : Option Text} (h : At i place)
    (hlife : Life s.exit item.state phase item'.state (place.phase i))
    (hnul : item.NulFree → item'.NulFree) :
    Acts i item phase s (((s.setItem i item').setFile item'' data).goto place) :=
  ⟨frame_setFile s item' item'' data h, item', getElem?_set_self' hitem item', hlife, hnul⟩

end ActsRules

/-! ## The steps of the thread -/

theorem sourceError_getD {prefs : DownloadPrefs} {src : Text} :
    (sourceError prefs src).getD .noErr ≠ .userCancel := by
  unfold sourceError
  split
  · nofun
  · split
    · nofun
    · nofun

theorem download_at (prefs : DownloadPrefs) (s : Manager) (i : Nat) (item : DownloadItem) :
    At i (download prefs s i item) ∧ ((download prefs s i item).phase i).live = true := by
  unfold download
  split
  · refine ⟨at_of_item (.inl rfl), ?_⟩
    rw [phase_returned]
    rfl
  · refine ⟨at_of_item (.inl rfl), ?_⟩
    rw [phase_check]
    exact bne_iff_ne.mpr sourceError_getD

theorem receive_at (i : Nat) (buffer : HeaderBuffer) :
    At i (receive i buffer) ∧ ((receive i buffer).phase i).live = true := by
  unfold receive
  split
  · refine ⟨at_of_item (.inl rfl), ?_⟩
    rw [phase_network]
    rfl
  · refine ⟨at_of_item (.inl rfl), ?_⟩
    rw [phase_returned]
    rfl

/-- None of the answers changes the state of the item or its destination, or puts a NUL
into it. -/
theorem answer_item {opened : Except Errno Unit} {item : DownloadItem} {file : Option Text}
    {header : Header} {a : Answer} (h : answer opened item file header = a) :
    a.item.state = item.state ∧ a.item.dest = item.dest ∧ (item.NulFree → a.item.NulFree) := by
  have haccept : (item.accept header).state = item.state ∧ (item.accept header).dest = item.dest ∧
      (item.NulFree → (item.accept header).NulFree) := by
    unfold DownloadItem.accept DownloadItem.startOver
    split
    · refine ⟨rfl, rfl, ?_⟩
      intro hnul
      simp only [DownloadItem.NulFree, List.forall_mem_cons] at hnul ⊢
      exact ⟨hnul.1, hnul.2.1, hnul.2.2.1, hnul.2.2.2.1, nulFree_cStr _, hnul.2.2.2.2.2⟩
    · exact ⟨rfl, rfl, id⟩
  have hstore : (store opened item file header).item.state = item.state ∧
      (store opened item file header).item.dest = item.dest ∧
        (item.NulFree → (store opened item file header).item.NulFree) := by
    unfold store
    cases opened with
    | error errno => exact haccept
    | ok u => exact haccept
  subst h
  unfold answer
  split
  · exact hstore
  · exact hstore
  · unfold redirect
    cases hlocation : header.location with
    | none => exact ⟨rfl, rfl, id⟩
    | some cp =>
      refine ⟨rfl, rfl, ?_⟩
      have hcp : NulFree cp := by
        unfold Header.location at hlocation
        split at hlocation
        · rw [← Option.some.inj hlocation]
          exact nulFree_cStr _
        · cases hlocation
      intro hnul
      simp only [DownloadItem.NulFree, Answer.item, List.forall_mem_cons] at hnul ⊢
      refine ⟨?_, hnul.2⟩
      split
      · exact hcp.append (nulFree_cStr _)
      · exact hcp
  · rcases clientError_cases item header with ⟨result, -, -, heq⟩ | heq
    · rw [heq]
      exact ⟨rfl, rfl, id⟩
    · rw [heq]
      exact ⟨rfl, rfl, id⟩
  · exact ⟨rfl, rfl, id⟩
  · exact ⟨rfl, rfl, id⟩

theorem answer_returned {opened : Except Errno Unit} {item item' : DownloadItem}
    {file : Option Text} {header : Header} {result : Error}
    (h : answer opened item file header = .returned result item') : result ≠ .userCancel := by
  have hstore : store opened item file header = .returned result item' →
      result ≠ .userCancel := by
    intro h
    unfold store at h
    cases opened with
    | error errno =>
      rw [← (Answer.returned.inj h).1]
      cases errno <;> nofun
    | ok u => exact absurd h nofun
  unfold answer at h
  split at h
  · exact hstore h
  · exact hstore h
  · unfold redirect at h
    split at h
    · exact absurd h nofun
    · rw [← (Answer.returned.inj h).1]
      nofun
  · rcases clientError_cases item header with ⟨result', -, hne, heq⟩ | heq
    · rw [heq] at h
      rw [← (Answer.returned.inj h).1]
      exact hne
    · rw [heq] at h
      exact absurd h nofun
  · rw [← (Answer.returned.inj h).1]
    nofun
  · rw [← (Answer.returned.inj h).1]
    nofun

theorem parse_acts (prefs : DownloadPrefs) {s : Manager} {i : Nat} {item : DownloadItem}
    (hitem : s.items[i]? = some item) (hstate : item.state = .downloading)
    (opened : Except Errno Unit) (header : Header) :
    Acts i item (.checking .noErr) s (s.parse prefs i item opened header) := by
  unfold parse
  cases hanswer : answer opened item (s.file item) header with
  | body item' data =>
    obtain ⟨hsame, -, hnul⟩ := answer_item hanswer
    refine acts_setFile hitem (at_of_item (.inl rfl)) ?_ hnul
    rw [show item'.state = item.state from hsame, hstate, phase_network]
    exact .goOn rfl
  | again item' =>
    obtain ⟨hsame, -, hnul⟩ := answer_item hanswer
    obtain ⟨hat, hlive⟩ := download_at prefs s i item'
    refine acts_setItem hitem hat ?_ hnul
    rw [show item'.state = item.state from hsame, hstate]
    exact .goOn hlive
  | returned result item' =>
    obtain ⟨hsame, -, hnul⟩ := answer_item hanswer
    refine acts_setItem hitem (at_of_item (.inl rfl)) ?_ hnul
    rw [show item'.state = item.state from hsame, hstate, phase_returned]
    exact .goOn (bne_iff_ne.mpr (answer_returned hanswer))

/-- The request changes neither the state nor the names. -/
theorem request_item (item : DownloadItem) (file : Option Text) :
    (item.request file).state = item.state ∧ (item.request file).src = item.src ∧
      (item.request file).dest = item.dest ∧ (item.NulFree → (item.request file).NulFree) := by
  unfold DownloadItem.request
  split
  · refine ⟨rfl, rfl, rfl, ?_⟩
    intro hnul
    simp only [DownloadItem.NulFree, List.forall_mem_cons] at hnul ⊢
    exact ⟨hnul.1, hnul.2.1, hnul.2.2.1, hnul.2.2.2.1, nulFree_nil, hnul.2.2.2.2.2⟩
  · exact ⟨rfl, rfl, rfl, id⟩

theorem goOn_acts (prefs : DownloadPrefs) {s : Manager} {i : Nat} {item : DownloadItem}
    (hitem : s.items[i]? = some item) (hstate : item.state = .downloading) (memory : Bool)
    (opened : Except Errno Unit) (next : Next) :
    Acts i item (.checking .noErr) s (s.goOn prefs i item memory opened next) := by
  have hgo : ∀ phase : Phase, phase.live = true →
      Life s.exit item.state (.checking .noErr) item.state phase := by
    intro phase hlive
    rw [hstate]
    exact .goOn hlive
  cases next with
  | lookup => exact acts_goto hitem (at_of_item (.inl rfl)) (hgo _ (by rw [phase_lookup]; rfl))
  | socket => exact acts_goto hitem (at_of_item (.inl rfl)) (hgo _ (by rw [phase_socket]; rfl))
  | connect => exact acts_goto hitem (at_of_item (.inl rfl)) (hgo _ (by rw [phase_network]; rfl))
  | send =>
    obtain ⟨hsame, -, -, hnul⟩ := request_item item (s.file item)
    refine acts_setItem hitem (at_of_item (.inl rfl)) ?_ hnul
    rw [hsame, phase_network]
    exact hgo _ rfl
  | receive =>
    unfold goOn
    cases memory with
    | true => exact acts_goto hitem (receive_at i .new).1 (hgo _ (receive_at i .new).2)
    | false =>
      apply acts_goto hitem (at_of_item (.inl rfl))
      rw [if_neg Bool.false_ne_true, phase_returned]
      exact hgo _ rfl
  | header buffer => exact acts_goto hitem (receive_at i buffer).1 (hgo _ (receive_at i buffer).2)
  | parse header => exact parse_acts prefs hitem hstate opened header
  | body more =>
    exact acts_goto hitem (at_of_item (.inl rfl)) (hgo _ (by rw [phase_bodyTest]; rfl))

theorem look_acts (prefs : DownloadPrefs) {s : Manager} {i : Nat} {item : DownloadItem}
    (hitem : s.items[i]? = some item) (result : Error) (next : Next) (memory : Bool)
    (opened : Except Errno Unit) :
    Acts i item (.checking result) s (s.look prefs i item result next memory opened) := by
  unfold look
  by_cases hstate : item.state = .downloading
  · rw [if_neg (not_not_intro hstate)]
    by_cases hresult : result = .noErr
    · subst hresult
      exact goOn_acts prefs hitem hstate memory opened next
    · have herror : isError result = true := by simpa [isError] using hresult
      rw [if_pos herror]
      apply acts_goto hitem (at_of_item (.inl rfl))
      rw [hstate, phase_returned]
      exact .fail hresult
  · rw [if_pos hstate]
    apply acts_goto hitem (at_of_item (.inl rfl))
    rw [phase_returned]
    exact .cancel result hstate

theorem interrupted_iff {s : Manager} {item : DownloadItem} :
    s.interrupted item = true ↔ s.exit = true ∨ item.state ≠ .downloading := by
  unfold interrupted
  rw [Bool.or_eq_true, bne_iff_ne]

/-- A call reports that the user has cancelled only when it has been interrupted. -/
theorem callResult_cancel {s : Manager} {item : DownloadItem}
    (h : s.callResult item = .userCancel) : s.exit = true ∨ item.state ≠ .downloading := by
  unfold callResult at h
  split at h
  · exact interrupted_iff.mp ‹_›
  · exact absurd h nofun

theorem check_acts {s : Manager} {i : Nat} {item : DownloadItem} (hitem : s.items[i]? = some item)
    {result : Error} {next : Next}
    (hresult : result = .userCancel → s.exit = true ∨ item.state ≠ .downloading) :
    Acts i item .working s (s.goto (.check i result next)) := by
  apply acts_goto hitem (at_of_item (.inl rfl))
  rw [phase_check]
  exact .report _ hresult

theorem afterSelect_acts {s t : Manager} {i : Nat} {item : DownloadItem}
    (hitem : s.items[i]? = some item) {call : NetworkCall} {r : Ready}
    (h : s.afterSelect i item call r = some t) : Acts i item .working s t := by
  have hagain : ∀ call, Acts i item .working s (s.goto (.network i call)) := by
    intro call
    apply acts_goto hitem (at_of_item (.inl rfl))
    rw [phase_network]
    exact .work _
  unfold afterSelect at h
  split at h
  · exact Option.some.inj h ▸ check_acts hitem callResult_cancel
  · exact Option.some.inj h ▸ check_acts hitem callResult_cancel
  · exact Option.some.inj h ▸ check_acts hitem callResult_cancel
  · exact Option.some.inj h ▸ check_acts hitem callResult_cancel
  · exact Option.some.inj h ▸ check_acts hitem nofun
  · split at h
    · rename_i hinterrupted
      exact Option.some.inj h ▸ check_acts hitem fun _ => interrupted_iff.mp hinterrupted
    · rw [← Option.some.inj h]
      refine acts_setFile hitem (at_of_item (.inl rfl)) ?_ id
      rw [phase_check]
      exact .report _ nofun
  · exact Option.some.inj h ▸ check_acts hitem callResult_cancel
  · exact Option.some.inj h ▸ check_acts hitem nofun
  · refine Option.some.inj h ▸ check_acts hitem ?_
    unfold failedResult
    split <;> nofun
  · exact Option.some.inj h ▸ hagain _
  · exact absurd h nofun

theorem finish_acts {s : Manager} {i : Nat} {item : DownloadItem}
    (hitem : s.items[i]? = some item) (result : Error) :
    Acts i item (.returned result) s (s.finish i item result) := by
  have herror : ∀ place, At i place → result ≠ .noErr → result ≠ .userCancel →
      Acts i item (.returned result) s
        ((s.setItem i { item with state := .error }).goto place) := by
    intro place hat hok hcancel
    exact acts_setItem hitem hat (.error _ _ hok hcancel) id
  unfold finish
  split
  · refine acts_setItem hitem (at_of_item (.inr rfl)) ?_ id
    rw [phase_loop]
    exact .done _
  · split
    · rename_i hstate
      apply acts_goto hitem (at_of_item (.inl rfl))
      rw [hstate, phase_cleanUp]
      exact .discard
    · rename_i hstate
      apply acts_goto hitem (at_of_item (.inr rfl))
      rw [phase_loop]
      exact .keep hstate
  · exact herror _ (at_of_item (.inr rfl)) nofun nofun
  · rename_i hok hcancel _
    exact herror _ (at_of_item (.inl rfl)) hok hcancel

/-- A step of the thread at an item is a step of its life. -/
theorem workOn_acts (prefs : DownloadPrefs) {s t : Manager} {i : Nat} {item : DownloadItem}
    (hitem : s.items[i]? = some item) {place : Place} (hplace : place.item = some i)
    {e : ThreadEvent} (h : s.workOn prefs item place e = some t) :
    Acts i item (place.phase i) s t := by
  unfold workOn at h
  split at h
  · obtain rfl := Option.some.inj hplace
    rw [← Option.some.inj h, phase_starting]
    obtain ⟨hat, hlive⟩ := download_at prefs s _ { item with state := .downloading }
    exact acts_setItem hitem hat (.start _ hlive) id
  · obtain rfl := Option.some.inj hplace
    rw [← Option.some.inj h, phase_check]
    exact look_acts prefs hitem _ _ _ _
  · obtain rfl := Option.some.inj hplace
    rw [← Option.some.inj h, phase_lookup]
    apply check_acts hitem
    split <;> nofun
  · obtain rfl := Option.some.inj hplace
    rw [← Option.some.inj h, phase_socket]
    apply check_acts hitem
    split <;> nofun
  · obtain rfl := Option.some.inj hplace
    rw [phase_network]
    split at h
    · rename_i hinterrupted
      rw [← Option.some.inj h]
      exact check_acts hitem fun _ => interrupted_iff.mp hinterrupted
    · rw [← Option.some.inj h]
      apply acts_goto hitem (at_of_item (.inl rfl))
      rw [phase_select]
      exact .work _
  · obtain rfl := Option.some.inj hplace
    rw [← Option.some.inj h, phase_network]
    apply check_acts hitem
    split
    · exact callResult_cancel
    · nofun
  · obtain rfl := Option.some.inj hplace
    rw [phase_select]
    exact afterSelect_acts hitem h
  · obtain rfl := Option.some.inj hplace
    rw [phase_bodyTest]
    split at h
    · rw [← Option.some.inj h]
      apply acts_goto hitem (at_of_item (.inl rfl))
      rw [phase_network]
      exact .more _
    · rw [← Option.some.inj h]
      apply acts_goto hitem (at_of_item (.inl rfl))
      rw [phase_returned]
      exact .passOver _
  · obtain rfl := Option.some.inj hplace
    rw [← Option.some.inj h, phase_returned]
    exact finish_acts hitem _
  · obtain rfl := Option.some.inj hplace
    rw [← Option.some.inj h, phase_cleanUp]
    refine acts_setFile hitem (at_of_item (.inr rfl)) ?_ id
    rw [phase_loop]
    exact .clean _
  · exact absurd h nofun

/-- A step of the thread is one at an item, or one that finds an item, or neither. -/
theorem threadStep_cases {prefs : DownloadPrefs} {s t : Manager} {e : ThreadEvent}
    (h : s.threadStep prefs e = some t) :
    (∃ i item, s.place.item = some i ∧ s.items[i]? = some item ∧
        s.workOn prefs item s.place e = some t) ∨
      (t.items = s.items ∧ t.exit = s.exit ∧ t.saved = s.saved ∧ t.database = s.database ∧
        t.call = s.call ∧
        ((∃ i, s.place = .found i ∧ t.place = .starting i) ∨
          s.place.item = none ∧ (t.place.item = none ∨
            ∃ i item, s.items[i]? = some item ∧ item.state = .queued ∧ t.place = .found i))) := by
  unfold threadStep at h
  split at h
  · rename_i hplace
    split at h
    · exact absurd h nofun
    · rw [← Option.some.inj h, hplace]
      exact .inr ⟨rfl, rfl, rfl, rfl, rfl, .inr ⟨rfl, .inl rfl⟩⟩
  · rename_i hplace
    rw [← Option.some.inj h, hplace]
    refine .inr ⟨rfl, rfl, rfl, rfl, rfl, .inr ⟨rfl, .inl ?_⟩⟩
    exact Place.item_ite rfl rfl
  · rename_i hplace
    rw [← Option.some.inj h, hplace]
    refine .inr ⟨rfl, rfl, rfl, rfl, rfl, .inr ⟨rfl, .inl ?_⟩⟩
    exact Place.item_ite rfl rfl
  · rename_i hplace
    rw [← Option.some.inj h, hplace]
    exact .inr ⟨rfl, rfl, rfl, rfl, rfl, .inr ⟨rfl, .inl rfl⟩⟩
  · rename_i hplace
    split at h
    · rw [← Option.some.inj h, hplace]
      exact .inr ⟨rfl, rfl, rfl, rfl, rfl, .inr ⟨rfl, .inl rfl⟩⟩
    · exact absurd h nofun
  · rename_i hplace
    rw [← Option.some.inj h, hplace]
    refine .inr ⟨rfl, rfl, rfl, rfl, rfl, .inr ⟨rfl, .inl ?_⟩⟩
    exact Place.item_ite rfl rfl
  · rename_i i total hplace
    rw [← Option.some.inj h, hplace]
    refine .inr ⟨rfl, rfl, rfl, rfl, rfl, .inr ⟨rfl, ?_⟩⟩
    rw [goto_place]
    unfold scan
    split
    · exact .inl rfl
    · split
      · rename_i item hitem
        split
        · rename_i hqueued
          exact .inr ⟨i, item, hitem, hqueued, rfl⟩
        · exact .inl rfl
      · exact .inl rfl
  · rename_i i hplace
    rw [← Option.some.inj h, hplace]
    exact .inr ⟨rfl, rfl, rfl, rfl, rfl, .inl ⟨i, rfl, rfl⟩⟩
  · exact absurd h nofun
  · left
    split at h
    · rename_i item hitem
      obtain ⟨i, hi, hitem⟩ := Option.bind_eq_some_iff.mp hitem
      exact ⟨i, item, hi, hitem, h⟩
    · exact absurd h nofun

/-- What the thread does with an item is a step of its life. -/
theorem threadStep_life {prefs : DownloadPrefs} {s t : Manager} {e : ThreadEvent}
    (h : s.threadStep prefs e = some t) {i : Nat} {item : DownloadItem}
    (hitem : s.items[i]? = some item) :
    ∃ item', t.items[i]? = some item' ∧
      Life s.exit item.state (s.place.phase i) item'.state (t.place.phase i) ∧
        (item.NulFree → item'.NulFree) := by
  rcases threadStep_cases h with ⟨j, item', hplace, hitem', hwork⟩ | ⟨hitems, -, -, -, -, hplaces⟩
  · have hacts := workOn_acts prefs hitem' hplace hwork
    by_cases hij : i = j
    · subst hij
      obtain rfl := Option.some.inj (hitem.symm.trans hitem')
      exact hacts.life
    · refine ⟨item, by rw [hacts.frame.others i hij, hitem], ?_, id⟩
      have hs : s.place.item ≠ some i := by
        rw [hplace]
        exact fun heq => hij (Option.some.inj heq).symm
      rw [Place.phase_away hs, Place.phase_away (hacts.frame.place i hij)]
      exact .away _
  · refine ⟨item, by rw [hitems, hitem], ?_, id⟩
    rcases hplaces with ⟨j, hs, ht⟩ | ⟨hs, ht | ⟨j, item', hitem', hqueued, ht⟩⟩
    · rw [hs, ht]
      by_cases hij : j = i
      · subst hij
        rw [phase_found, phase_starting]
        exact .pick _
      · have hne : some j ≠ some i := fun heq => hij (Option.some.inj heq)
        rw [Place.phase_away (show (Place.found j).item ≠ some i from hne),
          Place.phase_away (show (Place.starting j).item ≠ some i from hne)]
        exact .away _
    · have hs' : s.place.item ≠ some i := by rw [hs]; nofun
      have ht' : t.place.item ≠ some i := by rw [ht]; nofun
      rw [Place.phase_away hs', Place.phase_away ht']
      exact .away _
    · have hs' : s.place.item ≠ some i := by rw [hs]; nofun
      rw [Place.phase_away hs', ht]
      by_cases hij : j = i
      · subst hij
        obtain rfl := Option.some.inj (hitem.symm.trans hitem')
        rw [hqueued, phase_found]
        exact .find
      · have hne : some j ≠ some i := fun heq => hij (Option.some.inj heq)
        rw [Place.phase_away (show (Place.found j).item ≠ some i from hne)]
        exact .away _

theorem threadStep_frame {prefs : DownloadPrefs} {s t : Manager} {e : ThreadEvent}
    (h : s.threadStep prefs e = some t) :
    t.items.length = s.items.length ∧ t.exit = s.exit ∧ t.saved = s.saved ∧
      t.database = s.database ∧ t.call = s.call := by
  rcases threadStep_cases h with ⟨j, item, hplace, hitem, hwork⟩ | ⟨hitems, h₁, h₂, h₃, h₄, -⟩
  · have hframe := (workOn_acts prefs hitem hplace hwork).frame
    exact ⟨hframe.length, hframe.exit, hframe.saved, hframe.database, hframe.call⟩
  · exact ⟨by rw [hitems], h₁, h₂, h₃, h₄⟩

end Manager

end FreeAmp.Base
