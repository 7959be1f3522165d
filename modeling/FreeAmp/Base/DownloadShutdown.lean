/-
  Base/DownloadShutdown.lean --- what becomes of the items when the download manager is
  destroyed, from `base/src/downloadmanager.cpp`.

  `m_exit` makes `Connect`, `Send` and `Recv` return `kError_Interrupt`, which `Download`
  turns into `kError_UserCancel`, unless it finds another error behind it.  With
  `kError_UserCancel` the thread leaves the item as it is, and an item that is still
  `kDownloadItemState_Downloading` is not saved.
-/
import FreeAmp.Base.DownloadCancel

namespace FreeAmp.Base

open FreeAmp.Lib

namespace Manager

/-! ## What keeps an item -/

/-- After `m_exit` is set: the step of the thread at `place` does not lose the item, which is
not cancelled. -/
def keepsItem (s : Manager) (item : DownloadItem) : Place → ThreadEvent → Bool
  -- an item that is picked up now is not paused
  | .starting _, _ => item.state != .paused
  | .check _ result next, .resources _ opened =>
    if item.state = .downloading ∧ result = .noErr then
      match next with
      | .send => (item.request (s.file item)).bytesReceived == item.bytesReceived
      | .parse header =>
        match answer opened item (s.file item) header with
        | .body _ _ => false
        | .again item' =>
          item'.src == item.src && item'.bytesReceived == item.bytesReceived
        | .returned _ item' =>
          item'.src == item.src && item'.bytesReceived == item.bytesReceived
      | _ => true
    else true
  -- nothing is received of a body
  | .network _ .body, _ => item.state != .downloading
  | .bodyTest _ more, _ =>
    item.state != .downloading && (more && s.runDownloadThread && item.unfinished)
  | .select _ .body, .ready r => item.state != .downloading || r == .notYet || r == .failed
  -- no connection comes about, no request is sent, no header comes
  | .network _ .connect, .atOnce ok => item.state != .downloading || !ok
  | .select _ .connect, .ready r => item.state != .downloading || r == .failed
  | .select _ .send, .ready r => item.state != .downloading || r != .done
  | .select _ (.header _), .ready (.data _) => item.state != .downloading
  -- no other result than that of the user is acted on for a paused item, and no success
  | .returned _ result, _ => result == .userCancel || (result != .noErr && item.state != .paused)
  -- what has been received is kept
  | .cleanUp _, _ => item.bytesReceived == 0
  | _, _ => true

/-- The guard of a run that keeps all items: what the steps of the thread after `m_exit` is set
come upon, and that what is saved has small numbers. -/
def keeps (s : Manager) : ManagerAction → Bool
  | .thread e =>
    !s.exit ||
      match s.place.item.bind (s.items[·]?) with
      | some item => item.state == .cancelled || s.keepsItem item s.place e
      | none => true
  | .save => s.items.all fun item => !item.state.resumable || decide item.SmallNumbers
  | _ => true

/-! ## While the manager runs -/

/-- An item that is `kDownloadItemState_Downloading` is one that the thread is at work on. -/
def Live (s : Manager) : Prop :=
  ∀ i item, s.items[i]? = some item → item.state = .downloading →
    (s.place.phase i).live = true

end Manager

/-- Before `m_exit` is set the thread does not give up an item that is being downloaded. -/
theorem Life.live {state state' : DownloadItemState} {phase phase' : Phase}
    (h : Life false state phase state' phase')
    (hlive : state = .downloading → phase.live = true) (hstate : state' = .downloading) :
    phase'.live = true := by
  cases h with
  | away => exact hlive hstate
  | find => exact absurd hstate nofun
  | pick => exact hlive hstate
  | start _ h => exact h
  | cancel _ h => exact absurd hstate h
  | fail => exact hlive rfl
  | goOn h => exact h
  | work => rfl
  | report _ h =>
    apply bne_iff_ne.mpr
    intro hcancel
    rcases h hcancel with hexit | hother
    · exact absurd hexit nofun
    · exact hother hstate
  | more => rfl
  | passOver => rfl
  | done => exact absurd hstate nofun
  | keep => exact absurd (hlive hstate) nofun
  | discard => exact absurd hstate nofun
  | error => exact absurd hstate nofun
  | clean => exact absurd (hlive hstate) nofun

namespace Manager

theorem set_items {s t : Manager} {call : UserCall} (h : s.set call = some t) (i : Nat)
    {item : DownloadItem} (hitem : s.items[i]? = some item) :
    ∃ item', t.items[i]? = some item' ∧ (item' = item ∨ item'.state ≠ .downloading) ∧
      (item.NulFree → item'.NulFree) := by
  by_cases hi : i = call.item
  · subst hi
    cases call with
    | queue j bDownloadNow =>
      obtain ⟨item', hitem', rfl⟩ := Option.map_eq_some_iff.mp h
      obtain rfl := Option.some.inj (hitem.symm.trans hitem')
      exact ⟨_, getElem?_set_self' hitem _, .inr nofun, id⟩
    | cancel j allowResume =>
      obtain ⟨item', hitem', rfl⟩ := Option.map_eq_some_iff.mp h
      obtain rfl := Option.some.inj (hitem.symm.trans hitem')
      refine ⟨_, getElem?_set_self' hitem _, .inr ?_, id⟩
      cases allowResume with
      | true => nofun
      | false => nofun
  · exact ⟨item, by rw [set_other h hi, hitem], .inl rfl, id⟩

theorem item_before {s t : Manager} (hlength : t.items.length = s.items.length) {i : Nat}
    {item' : DownloadItem} (hitem' : t.items[i]? = some item') :
    ∃ item, s.items[i]? = some item := by
  obtain ⟨hi, -⟩ := List.getElem?_eq_some_iff.mp hitem'
  exact ⟨_, List.getElem?_eq_getElem (hlength ▸ hi)⟩

theorem next_exit {prefs : DownloadPrefs} {s t : Manager} {a : ManagerAction}
    (h : s.next prefs a = some t) (hexit : s.exit = true) : t.exit = true := by
  cases next_stepped h with
  | thread h =>
    obtain ⟨-, hsame, -⟩ := threadStep_frame h
    rw [hsame, hexit]
  | set _ _ h =>
    obtain ⟨-, -, -, hsame, -⟩ := set_frame h
    rw [hsame, hexit]
  | exits => rfl
  | _ => exact hexit

/-- Once `m_exit` is set only the thread and the destructor are left. -/
theorem next_afterExit {prefs : DownloadPrefs} {s t : Manager} {a : ManagerAction}
    (hexit : s.exit = true) (h : s.next prefs a = some t) :
    (∃ e, a = .thread e ∧ s.threadStep prefs e = some t) ∨
      (a = .stop ∧
        t = { s with runDownloadThread := false, queueCount := s.queueCount + 1 }) ∨
      (∃ items db, a = .save ∧ s.saved = false ∧ (s.place = .start ∨ s.place = .ended) ∧
        saveResumableDownloadItems s.database s.items = .ok (items, db) ∧
        t = { s with items := items, database := db, saved := true }) := by
  have hbefore : s.exit ≠ false := by
    rw [hexit]
    nofun
  cases next_stepped h with
  | thread h => exact .inl ⟨_, rfl, h⟩
  | stops => exact .inr (.inl ⟨rfl, rfl⟩)
  | saves _ hsaved hplace hsave => exact .inr (.inr ⟨_, _, rfl, hsaved, hplace, hsave, rfl⟩)
  | known _ hfalse => exact absurd hfalse hbefore
  | added hfalse => exact absurd hfalse hbefore
  | entered hfalse => exact absurd hfalse hbefore
  | set hfalse => exact absurd hfalse hbefore
  | paused hfalse => exact absurd hfalse hbefore
  | resumed hfalse => exact absurd hfalse hbefore
  | exits hfalse => exact absurd hfalse hbefore

/-- Until `m_exit` is set the thread gives up no item that is `kDownloadItemState_Downloading`. -/
theorem next_live {prefs : DownloadPrefs} {s t : Manager} {a : ManagerAction} (hs : Live s)
    (hexit : s.exit = false) (h : s.next prefs a = some t) : Live t := by
  cases next_stepped h with
  | thread h =>
    obtain ⟨hlength, -⟩ := threadStep_frame h
    intro i item' hitem' hstate
    obtain ⟨item, hitem⟩ := item_before hlength hitem'
    obtain ⟨item'', hitem'', hlife, -⟩ := threadStep_life h hitem
    obtain rfl := Option.some.inj (hitem'.symm.trans hitem'')
    rw [hexit] at hlife
    exact hlife.live (hs i item hitem) hstate
  | known => exact hs
  | added =>
    intro i item' hitem' hstate
    rw [List.getElem?_append] at hitem'
    split at hitem'
    · exact hs i item' hitem' hstate
    · have hmem := List.mem_of_getElem? hitem'
      rw [List.mem_singleton.mp hmem] at hstate
      exact absurd hstate nofun
  | entered => exact hs
  | set _ _ h =>
    obtain ⟨hlength, -, -, -, hplace, -⟩ := set_frame h
    intro i item' hitem' hstate
    obtain ⟨item, hitem⟩ := item_before hlength hitem'
    obtain ⟨item'', hitem'', hsame, -⟩ := set_items h i hitem
    obtain rfl := Option.some.inj (hitem'.symm.trans hitem'')
    rw [hplace]
    rcases hsame with rfl | hother
    · exact hs i _ hitem hstate
    · exact absurd hstate hother
  | paused => exact hs
  | resumed => exact hs
  | exits => exact hs
  | stops => exact hs
  | saves hexit' =>
    rw [hexit'] at hexit
    exact absurd hexit nofun

/-- No string of an item has a NUL in it. -/
def AllNulFree (s : Manager) : Prop :=
  ∀ (i : Nat) (item : DownloadItem), s.items[i]? = some item → item.NulFree

theorem next_nulFree {prefs : DownloadPrefs} {s t : Manager} {a : ManagerAction} (hs : AllNulFree s)
    (hunsaved : Unsaved s) (h : s.next prefs a = some t) : AllNulFree t := by
  cases next_stepped h with
  | thread h =>
    obtain ⟨hlength, -⟩ := threadStep_frame h
    intro i item' hitem'
    obtain ⟨item, hitem⟩ := item_before hlength hitem'
    obtain ⟨item'', hitem'', -, hnul⟩ := threadStep_life h hitem
    obtain rfl := Option.some.inj (hitem'.symm.trans hitem'')
    exact hnul (hs i item hitem)
  | known => exact hs
  | added _ hnul =>
    intro i item' hitem'
    rw [List.getElem?_append] at hitem'
    split at hitem'
    · exact hs i item' hitem'
    · rw [List.mem_singleton.mp (List.mem_of_getElem? hitem')]
      exact hnul
  | entered => exact hs
  | set _ _ h =>
    obtain ⟨hlength, -⟩ := set_frame h
    intro i item' hitem'
    obtain ⟨item, hitem⟩ := item_before hlength hitem'
    obtain ⟨item'', hitem'', -, hnul⟩ := set_items h i hitem
    obtain rfl := Option.some.inj (hitem'.symm.trans hitem'')
    exact hnul (hs i item hitem)
  | paused => exact hs
  | resumed => exact hs
  | exits => exact hs
  | stops => exact hs
  | saves _ hsaved _ hsave =>
    obtain ⟨rfl, -⟩ := save_savedIn hunsaved hsaved hsave
    intro i item' hitem'
    rw [List.getElem?_map, Option.map_eq_some_iff] at hitem'
    obtain ⟨item, hitem, rfl⟩ := hitem'
    exact requeue_nulFree (hs i item hitem)

theorem run_sound {prefs : DownloadPrefs} {s t : Manager} {as : List ManagerAction}
    (hstart : Started s) (hidle : ∀ item ∈ s.items, item.state ≠ .downloading)
    (h : Run (Steps (next prefs)) s as t) :
    Unsaved t ∧ AllNulFree t ∧ (t.exit = false → Live t) := by
  have hlive : s.exit = false → Live s := by
    intro _ i item hitem hstate
    exact absurd hstate (hidle item (List.mem_of_getElem? hitem))
  have hnul : AllNulFree s := fun i item hitem => hstart.nulFree item (List.mem_of_getElem? hitem)
  refine h.invariant (P := fun u => Unsaved u ∧ AllNulFree u ∧ (u.exit = false → Live u)) ?_
    ⟨hstart.unsaved, hnul, hlive⟩
  rintro u a v ⟨hunsaved, hnul, hlive⟩ huv
  refine ⟨next_unsaved hunsaved huv, next_nulFree hnul hunsaved huv, ?_⟩
  intro hexit
  have hexit' : u.exit = false := by
    rw [Bool.eq_false_iff]
    intro hexits
    rw [next_exit huv hexits] at hexit
    exact absurd hexit nofun
  exact next_live (hlive hexit') hexit' huv

/-- Until the manager is told to exit at most one item is being downloaded, and the thread is at
work on it. -/
theorem oneDownload_of_run {prefs : DownloadPrefs} {s t : Manager} {as : List ManagerAction}
    (hstart : Started s) (hidle : ∀ item ∈ s.items, item.state ≠ .downloading)
    (hrun : Run (Steps (next prefs)) s as t) (hexit : t.exit = false) {i : Nat}
    {item : DownloadItem} (hitem : t.items[i]? = some item) (hstate : item.state = .downloading) :
    t.place.item = some i ∧ ∀ j item', t.items[j]? = some item' → item'.state = .downloading →
      j = i := by
  have hlive := (run_sound hstart hidle hrun).2.2 hexit
  have hat : ∀ j item', t.items[j]? = some item' → item'.state = .downloading →
      t.place.item = some j := by
    intro j item' hitem' hstate'
    by_contra haway
    have hworks := hlive j item' hitem' hstate'
    rw [Place.phase_away haway] at hworks
    exact absurd hworks nofun
  refine ⟨hat i item hitem hstate, fun j item' hitem' hstate' => ?_⟩
  exact Option.some.inj ((hat j item' hitem' hstate').symm.trans (hat i item hitem hstate))

theorem oneDownload_of_run_waiting : ∃ s, exec (next ⟨false, []⟩) queuedManager requestActions =
    some s ∧ s.place.item = some 0 := by
  have hexec : (exec (next ⟨false, []⟩) queuedManager requestActions).map
      (fun s => (s.exit, s.items.map DownloadItem.state)) = some (false, [.downloading]) := by
    decide
  obtain ⟨s, hs, heq⟩ := Option.map_eq_some_iff.mp hexec
  obtain ⟨hexit, hstates⟩ := Prod.mk.inj heq
  obtain ⟨item, hitems, hstate⟩ := List.map_eq_singleton_iff.mp hstates
  exact ⟨s, hs, (oneDownload_of_run started_queuedManager (by decide) (Run.of_exec hs) hexit
    (by rw [hitems]; rfl) hstate).1⟩

/-! ## While it shuts down -/

/-- The item will be resumable when the thread has done with it. -/
def survives (state : DownloadItemState) (phase : Phase) : Bool :=
  match state with
  | .queued => true
  | .paused => true
  | .error => true
  | .downloading => phase.live
  | _ => false

/-- What is left of an item: its names, what has been received, and whether it is paused. -/
structure SameItem (item item' : DownloadItem) : Prop where
  src : item'.src = item.src
  dest : item'.dest = item.dest
  bytesReceived : item'.bytesReceived = item.bytesReceived
  paused : item'.state = .paused ↔ item.state = .paused

theorem SameItem.refl (item : DownloadItem) : SameItem item item := ⟨rfl, rfl, rfl, Iff.rfl⟩

theorem SameItem.trans {item item' item'' : DownloadItem} (h : SameItem item item')
    (h' : SameItem item' item'') : SameItem item item'' :=
  ⟨h'.src.trans h.src, h'.dest.trans h.dest, h'.bytesReceived.trans h.bytesReceived,
    h'.paused.trans h.paused⟩

/-- What a step at the item at `i` leaves of it. -/
def Keeps (i : Nat) (item : DownloadItem) (t : Manager) : Prop :=
  ∃ item', t.items[i]? = some item' ∧ SameItem item item' ∧
    survives item'.state (t.place.phase i) = true

theorem survives_cases {state : DownloadItemState} {phase : Phase}
    (h : survives state phase = true) :
    (state ≠ .downloading ∧ ∀ phase', survives state phase' = true) ∨
      (state = .downloading ∧ phase.live = true) := by
  cases state with
  | null => exact absurd h nofun
  | queued => exact .inl ⟨nofun, fun _ => rfl⟩
  | downloading => exact .inr ⟨rfl, h⟩
  | cancelled => exact absurd h nofun
  | paused => exact .inl ⟨nofun, fun _ => rfl⟩
  | error => exact .inl ⟨nofun, fun _ => rfl⟩
  | done => exact absurd h nofun

theorem survives_live {state : DownloadItemState} {phase phase' : Phase}
    (h : survives state phase = true) (hlive : phase'.live = true) :
    survives state phase' = true := by
  rcases survives_cases h with ⟨-, hall⟩ | ⟨rfl, -⟩
  · exact hall phase'
  · exact hlive

section Keeping

variable {prefs : DownloadPrefs} {s t : Manager} {i : Nat} {item : DownloadItem} {phase : Phase}

theorem keeps_goto {place : Place} (hitem : s.items[i]? = some item)
    (h : survives item.state (place.phase i) = true) : Keeps i item (s.goto place) :=
  ⟨item, hitem, .refl item, h⟩

theorem keeps_setItem {item' : DownloadItem} {place : Place} (hitem : s.items[i]? = some item)
    (hsame : SameItem item item') (h : survives item'.state (place.phase i) = true) :
    Keeps i item ((s.setItem i item').goto place) :=
  ⟨item', getElem?_set_self' hitem item', hsame, h⟩

theorem keeps_setFile {item' item'' : DownloadItem} {data : Option Text} {place : Place}
    (hitem : s.items[i]? = some item) (hsame : SameItem item item')
    (h : survives item'.state (place.phase i) = true) :
    Keeps i item (((s.setItem i item').setFile item'' data).goto place) :=
  ⟨item', getElem?_set_self' hitem item', hsame, h⟩

theorem look_keeps (hitem : s.items[i]? = some item) {result : Error} {next : Next}
    {memory : Bool} {opened : Except Errno Unit}
    (hsurvives : survives item.state (.checking result) = true)
    (hkeeps : s.keepsItem item (.check i result next) (.resources memory opened) = true) :
    Keeps i item (s.look prefs i item result next memory opened) := by
  unfold look
  rcases survives_cases hsurvives with ⟨hstate, hall⟩ | ⟨hstate, hlive⟩
  · rw [if_pos hstate]
    exact keeps_goto hitem (hall _)
  · rw [if_neg (not_not_intro hstate)]
    have hdown : ∀ phase : Phase, phase.live = true → survives item.state phase = true :=
      fun phase h => survives_live hsurvives h
    by_cases hresult : result = .noErr
    · subst hresult
      rw [if_neg (by decide)]
      simp only [keepsItem] at hkeeps
      rw [if_pos ⟨hstate, trivial⟩] at hkeeps
      cases next with
      | lookup => exact keeps_goto hitem (hdown _ (by rw [phase_lookup]; rfl))
      | socket => exact keeps_goto hitem (hdown _ (by rw [phase_socket]; rfl))
      | connect => exact keeps_goto hitem (hdown _ (by rw [phase_network]; rfl))
      | send =>
        obtain ⟨hsame, hsrc, hdest, -⟩ := request_item item (s.file item)
        refine keeps_setItem hitem ⟨hsrc, hdest, beq_iff_eq.mp hkeeps, ?_⟩ ?_
        · rw [hsame]
        · rw [hsame, phase_network]
          exact hdown _ rfl
      | receive =>
        unfold goOn
        cases memory with
        | true => exact keeps_goto hitem (hdown _ (receive_at i .new).2)
        | false =>
          apply keeps_goto hitem
          rw [if_neg Bool.false_ne_true, phase_returned]
          exact hdown _ rfl
      | header buffer => exact keeps_goto hitem (hdown _ (receive_at i buffer).2)
      | body more => exact keeps_goto hitem (hdown _ (by rw [phase_bodyTest]; rfl))
      | parse header =>
        dsimp only at hkeeps
        rw [goOn, parse]
        cases hanswer : answer opened item (s.file item) header with
        | body item' data =>
          rw [hanswer] at hkeeps
          exact absurd hkeeps nofun
        | again item' =>
          rw [hanswer] at hkeeps
          simp only [Bool.and_eq_true, beq_iff_eq] at hkeeps
          obtain ⟨hsame, hdest, -⟩ := answer_item hanswer
          refine keeps_setItem hitem ⟨hkeeps.1, hdest, hkeeps.2, ?_⟩ ?_
          · rw [show item'.state = item.state from hsame]
          · rw [show item'.state = item.state from hsame]
            exact hdown _ (download_at prefs s i item').2
        | returned result item' =>
          rw [hanswer] at hkeeps
          simp only [Bool.and_eq_true, beq_iff_eq] at hkeeps
          obtain ⟨hsame, hdest, -⟩ := answer_item hanswer
          refine keeps_setItem hitem ⟨hkeeps.1, hdest, hkeeps.2, ?_⟩ ?_
          · rw [show item'.state = item.state from hsame]
          · rw [show item'.state = item.state from hsame, phase_returned]
            exact hdown _ (bne_iff_ne.mpr (answer_returned hanswer))
    · rw [if_pos (by simpa [isError] using hresult)]
      apply keeps_goto hitem
      rw [phase_returned]
      exact hdown _ hlive

theorem check_keeps (hitem : s.items[i]? = some item) {result : Error} {next : Next}
    (hsurvives : survives item.state .working = true)
    (hresult : result = .userCancel → item.state ≠ .downloading) :
    Keeps i item (s.goto (.check i result next)) := by
  apply keeps_goto hitem
  rw [phase_check]
  rcases survives_cases hsurvives with ⟨-, hall⟩ | ⟨hstate, -⟩
  · exact hall _
  · rw [hstate]
    exact bne_iff_ne.mpr fun hcancel => hresult hcancel hstate

theorem afterSelect_keeps (hexit : s.exit = true) (hitem : s.items[i]? = some item)
    {call : NetworkCall} {r : Ready} (hsurvives : survives item.state .working = true)
    (hkeeps : s.keepsItem item (.select i call) (.ready r) = true)
    (h : s.afterSelect i item call r = some t) : Keeps i item t := by
  have hinterrupted : s.interrupted item = true := interrupted_iff.mpr (.inl hexit)
  unfold afterSelect at h
  split at h
  · rw [← Option.some.inj h]
    apply check_keeps hitem hsurvives
    intro _
    simpa [keepsItem] using hkeeps
  · rw [← Option.some.inj h]
    apply check_keeps hitem hsurvives
    intro _
    simpa [keepsItem] using hkeeps
  · rw [← Option.some.inj h]
    apply check_keeps hitem hsurvives
    intro _
    simpa [keepsItem] using hkeeps
  · rw [← Option.some.inj h]
    apply check_keeps hitem hsurvives
    intro _
    simpa [keepsItem] using hkeeps
  · rw [← Option.some.inj h]
    exact check_keeps hitem hsurvives nofun
  · rw [if_pos hinterrupted] at h
    rw [← Option.some.inj h]
    apply check_keeps hitem hsurvives
    intro _
    simpa [keepsItem] using hkeeps
  · rw [← Option.some.inj h]
    apply check_keeps hitem hsurvives
    intro _
    simpa [keepsItem] using hkeeps
  · rw [← Option.some.inj h]
    exact check_keeps hitem hsurvives nofun
  · rw [← Option.some.inj h]
    apply check_keeps hitem hsurvives
    unfold failedResult
    split <;> nofun
  · rw [← Option.some.inj h]
    apply keeps_goto hitem
    rw [phase_network]
    exact hsurvives
  · exact absurd h nofun

theorem finish_keeps (hitem : s.items[i]? = some item) {result : Error}
    (hsurvives : survives item.state (.returned result) = true)
    (hkeeps : s.keepsItem item (.returned i result) .step = true) :
    Keeps i item (s.finish i item result) := by
  unfold keepsItem at hkeeps
  rw [Bool.or_eq_true, beq_iff_eq, Bool.and_eq_true, bne_iff_ne, bne_iff_ne] at hkeeps
  have herror : ∀ place, item.state ≠ .paused →
      Keeps i item ((s.setItem i { item with state := .error }).goto place) := by
    intro place hpaused
    exact keeps_setItem hitem
      ⟨rfl, rfl, rfl, fun h => absurd h nofun, fun h => absurd h hpaused⟩ rfl
  have hother : result ≠ .userCancel → item.state ≠ .paused := by
    intro hcancel
    rcases hkeeps with h | ⟨-, h⟩
    · exact absurd h hcancel
    · exact h
  unfold finish
  split
  · rcases hkeeps with h | ⟨h, -⟩
    · exact absurd h nofun
    · exact absurd rfl h
  · split
    · rename_i hstate
      rw [hstate] at hsurvives
      exact absurd hsurvives nofun
    · apply keeps_goto hitem
      rcases survives_cases hsurvives with ⟨-, hall⟩ | ⟨-, hlive⟩
      · exact hall _
      · exact absurd hlive nofun
  · exact herror _ (hother nofun)
  · rename_i hcancel _
    exact herror _ (hother hcancel)

/-- A step of the thread at an item, after `m_exit` is set, keeps it when the guard is met. -/
theorem workOn_keeps (hexit : s.exit = true) (hitem : s.items[i]? = some item) {place : Place}
    (hplace : place.item = some i) (hsurvives : survives item.state (place.phase i) = true)
    {e : ThreadEvent} (hkeeps : s.keepsItem item place e = true)
    (h : s.workOn prefs item place e = some t) : Keeps i item t := by
  have hinterrupted : s.interrupted item = true := interrupted_iff.mpr (.inl hexit)
  unfold workOn at h
  split at h
  · obtain rfl := Option.some.inj hplace
    rw [← Option.some.inj h]
    have hpaused : item.state ≠ .paused := bne_iff_ne.mp hkeeps
    refine keeps_setItem hitem
      ⟨rfl, rfl, rfl, fun h => absurd h nofun, fun h => absurd h hpaused⟩ ?_
    exact (download_at prefs s _ { item with state := .downloading }).2
  · obtain rfl := Option.some.inj hplace
    rw [← Option.some.inj h]
    rw [phase_check] at hsurvives
    exact look_keeps hitem hsurvives hkeeps
  · obtain rfl := Option.some.inj hplace
    rw [phase_lookup] at hsurvives
    rw [← Option.some.inj h]
    apply check_keeps hitem hsurvives
    split <;> nofun
  · obtain rfl := Option.some.inj hplace
    rw [phase_socket] at hsurvives
    rw [← Option.some.inj h]
    apply check_keeps hitem hsurvives
    split <;> nofun
  · obtain rfl := Option.some.inj hplace
    rename_i call
    rw [phase_network] at hsurvives
    rw [if_pos hinterrupted] at h
    rw [← Option.some.inj h]
    apply check_keeps hitem hsurvives
    cases call with
    | connect => nofun
    | send => nofun
    | header buffer => nofun
    | body =>
      intro _
      exact bne_iff_ne.mp hkeeps
  · obtain rfl := Option.some.inj hplace
    rename_i ok
    rw [phase_network] at hsurvives
    rw [← Option.some.inj h]
    apply check_keeps hitem hsurvives
    cases ok with
    | true =>
      intro _
      simpa [keepsItem] using hkeeps
    | false => nofun
  · obtain rfl := Option.some.inj hplace
    rw [phase_select] at hsurvives
    exact afterSelect_keeps hexit hitem hsurvives hkeeps h
  · obtain rfl := Option.some.inj hplace
    unfold keepsItem at hkeeps
    rw [Bool.and_eq_true] at hkeeps
    rw [if_pos hkeeps.2] at h
    rw [← Option.some.inj h]
    apply keeps_goto hitem
    rw [phase_network]
    exact survives_live hsurvives rfl
  · obtain rfl := Option.some.inj hplace
    rw [← Option.some.inj h]
    rw [phase_returned] at hsurvives
    exact finish_keeps hitem hsurvives hkeeps
  · obtain rfl := Option.some.inj hplace
    rw [← Option.some.inj h]
    unfold keepsItem at hkeeps
    rw [beq_iff_eq] at hkeeps
    refine keeps_setFile hitem ⟨rfl, rfl, hkeeps.symm, Iff.rfl⟩ ?_
    rw [phase_cleanUp] at hsurvives
    rcases survives_cases hsurvives with ⟨-, hall⟩ | ⟨-, hlive⟩
    · exact hall _
    · exact absurd hlive nofun
  · exact absurd h nofun

end Keeping

/-- A step of the thread after `m_exit` is set keeps every item when the guard is met. -/
theorem threadStep_keeps {prefs : DownloadPrefs} {s t : Manager} {e : ThreadEvent}
    (hexit : s.exit = true) (hguard : s.keeps (.thread e) = true)
    (h : s.threadStep prefs e = some t) {i : Nat} {item : DownloadItem}
    (hitem : s.items[i]? = some item) (hsurvives : survives item.state (s.place.phase i) = true) :
    Keeps i item t := by
  have hsame : t.items = s.items → t.place.phase i = s.place.phase i → Keeps i item t := by
    intro hitems hphase
    exact ⟨item, by rw [hitems, hitem], .refl item, by rw [hphase]; exact hsurvives⟩
  have haway : ∀ {place : Place}, place.item = none → place.phase i = .away := by
    intro place hplace
    apply Place.phase_away
    rw [hplace]
    nofun
  rcases threadStep_cases h with ⟨j, item', hplace, hitem', hwork⟩ | ⟨hitems, -, -, -, -, hplaces⟩
  · by_cases hij : i = j
    · subst hij
      obtain rfl := Option.some.inj (hitem.symm.trans hitem')
      have hkeeps : s.keepsItem item s.place e = true := by
        simp only [keeps, hexit, hplace, Option.bind_some, hitem, Bool.not_true, Bool.false_or,
          Bool.or_eq_true, beq_iff_eq] at hguard
        rcases hguard with hcancelled | hkeeps
        · rw [hcancelled] at hsurvives
          exact absurd hsurvives nofun
        · exact hkeeps
      exact workOn_keeps hexit hitem hplace hsurvives hkeeps hwork
    · have hframe := (workOn_acts prefs hitem' hplace hwork).frame
      have hs : s.place.item ≠ some i := by
        rw [hplace]
        exact fun heq => hij (Option.some.inj heq).symm
      refine ⟨item, by rw [hframe.others i hij, hitem], .refl item, ?_⟩
      rw [Place.phase_away (hframe.place i hij), ← Place.phase_away hs]
      exact hsurvives
  · rcases hplaces with ⟨j, hs, ht⟩ | ⟨hs, ht | ⟨j, item', hitem', hqueued, ht⟩⟩
    · apply hsame hitems
      rw [hs, ht]
      by_cases hij : j = i
      · subst hij
        rw [phase_found, phase_starting]
      · have hne : some j ≠ some i := fun heq => hij (Option.some.inj heq)
        rw [Place.phase_away (show (Place.found j).item ≠ some i from hne),
          Place.phase_away (show (Place.starting j).item ≠ some i from hne)]
    · apply hsame hitems
      rw [haway hs, haway ht]
    · by_cases hij : j = i
      · subst hij
        obtain rfl := Option.some.inj (hitem.symm.trans hitem')
        exact ⟨item, by rw [hitems, hitem], .refl item, by rw [hqueued]; rfl⟩
      · apply hsame hitems
        rw [haway hs, ht, Place.phase_away]
        exact fun heq => hij (Option.some.inj heq)

/-! ## What the next manager finds -/

/-- The item at `i` has been written to the database, and the next manager, in whatever order it
goes through it, loads the item with its names and what has been received of it. -/
structure Restored (i : Nat) (item : DownloadItem) (db : Database) : Prop where
  written : resumeKey i ∈ db.keys
  loaded : ∀ order : KeyOrder, ∃ items db', loadResumableDownloadItems order db = .ok (items, db') ∧
    ∃ item' ∈ items, item'.src = item.src ∧ item'.dest = item.dest ∧
      item'.bytesReceived = item.bytesReceived ∧
        item'.state = if item.state = .paused then .paused else .queued

theorem survives_away {state : DownloadItemState} (h : survives state .away = true) :
    state.resumable = true := by
  cases state with
  | queued => rfl
  | paused => rfl
  | error => rfl
  | _ => exact absurd h nofun

theorem restored_requeue {item item' : DownloadItem} (h : SameItem item item')
    (hres : item'.state.resumable = true) :
    item'.requeue.restored.src = item.src ∧ item'.requeue.restored.dest = item.dest ∧
      item'.requeue.restored.bytesReceived = item.bytesReceived ∧
        item'.requeue.restored.state = if item.state = .paused then .paused else .queued := by
  have hstate : item'.requeue.state = if item.state = .paused then .paused else .queued := by
    unfold DownloadItem.requeue
    cases hitem' : item'.state with
    | paused => rw [if_neg nofun, if_pos (h.paused.mp hitem'), hitem']
    | queued =>
      have hpaused : item.state ≠ .paused := by
        rw [Ne, ← h.paused, hitem']
        nofun
      rw [if_neg nofun, if_neg hpaused, hitem']
    | error =>
      have hpaused : item.state ≠ .paused := by
        rw [Ne, ← h.paused, hitem']
        nofun
      rw [if_pos rfl, if_neg hpaused]
    | _ =>
      rw [hitem'] at hres
      exact absurd hres nofun
  have hfields : item'.requeue.src = item'.src ∧ item'.requeue.dest = item'.dest ∧
      item'.requeue.bytesReceived = item'.bytesReceived := by
    unfold DownloadItem.requeue
    split <;> exact ⟨rfl, rfl, rfl⟩
  exact ⟨hfields.1.trans h.src, hfields.2.1.trans h.dest, hfields.2.2.trans h.bytesReceived,
    hstate⟩

/-- Saving writes every item that survives when the numbers are small. -/
theorem save_restored {s : Manager} (hunsaved : Unsaved s) (hnul : AllNulFree s)
    (hsaved : s.saved = false) {items : List DownloadItem} {db : Database}
    (hsave : saveResumableDownloadItems s.database s.items = .ok (items, db))
    (hguard : s.keeps .save = true) {i : Nat} {item item' : DownloadItem}
    (hitem' : s.items[i]? = some item') (hsame : SameItem item item')
    (hres : item'.state.resumable = true) : Restored i item db := by
  have hcount := hunsaved.count
  have hempty := hunsaved.empty hsaved
  have hnuls : ∀ a ∈ s.items, a.NulFree := by
    intro a ha
    obtain ⟨j, hj⟩ := List.getElem?_of_mem ha
    exact hnul j a hj
  have hsmall : ∀ a ∈ s.items, a.state.resumable = true → a.SmallNumbers := by
    intro a ha hares
    have hone := List.all_eq_true.mp hguard a ha
    simpa [hares] using hone
  obtain ⟨-, hin⟩ := save_savedIn hunsaved hsaved hsave
  refine ⟨?_, ?_⟩
  · have hmem : (resumeKey (0 + i), item'.requeue) ∈ savedUnder 0 s.items :=
      savedUnder_mem hitem' hres
    rw [Nat.zero_add] at hmem
    rw [hin.keys.mem_iff, List.mem_append]
    exact .inl (List.mem_map_of_mem hmem)
  · intro order
    obtain ⟨hperm, hload⟩ :=
      restored_after_save_iff order hunsaved.working hempty (by omega) hnuls hsave
    obtain ⟨db', hloaded, -⟩ := hload.mpr hsmall
    refine ⟨_, db', hloaded, item'.requeue.restored, ?_, restored_requeue hsame hres⟩
    rw [hperm.mem_iff]
    exact List.mem_map_of_mem (List.mem_filter.mpr ⟨List.mem_of_getElem? hitem', hres⟩)

/-- While the manager shuts down: until it has saved the items the item survives, and then it has
been written. -/
structure Kept (i : Nat) (item : DownloadItem) (s : Manager) : Prop where
  unsaved : Unsaved s
  nulFree : AllNulFree s
  exit : s.exit = true
  keeps : s.saved = false → Keeps i item s
  restored : s.saved = true → Restored i item s.database

theorem next_kept {prefs : DownloadPrefs} {i : Nat} {item : DownloadItem} {s t : Manager}
    {a : ManagerAction} (hs : Kept i item s) (hguard : s.keeps a = true)
    (h : s.next prefs a = some t) : Kept i item t := by
  obtain ⟨hunsaved, hnul, hexit, hkeeps, hrestored⟩ := hs
  refine ⟨next_unsaved hunsaved h, next_nulFree hnul hunsaved h, next_exit h hexit, ?_, ?_⟩
  · intro hsaved
    rcases next_afterExit hexit h with ⟨e, rfl, hstep⟩ | ⟨-, rfl⟩ | ⟨_, _, -, -, -, -, rfl⟩
    · obtain ⟨-, -, hsame, -⟩ := threadStep_frame hstep
      obtain ⟨item', hitem', hsameItem, hsurvives⟩ := hkeeps (hsame.symm.trans hsaved)
      obtain ⟨item'', hitem'', hsameItem', hsurvives'⟩ :=
        threadStep_keeps hexit hguard hstep hitem' hsurvives
      exact ⟨item'', hitem'', hsameItem.trans hsameItem', hsurvives'⟩
    · exact hkeeps hsaved
    · exact absurd hsaved nofun
  · intro hsaved
    rcases next_afterExit hexit h with
      ⟨e, rfl, hstep⟩ | ⟨-, rfl⟩ | ⟨items, db, rfl, hsaved', hplace, hsave, rfl⟩
    · obtain ⟨-, -, hsame, hdatabase, -⟩ := threadStep_frame hstep
      rw [hdatabase]
      exact hrestored (hsame.symm.trans hsaved)
    · exact hrestored hsaved
    · obtain ⟨item', hitem', hsameItem, hsurvives⟩ := hkeeps hsaved'
      -- the thread is at no item now
      have haway : s.place.phase i = .away := by
        apply Place.phase_away
        rcases hplace with hplace | hplace
        · rw [hplace]
          nofun
        · rw [hplace]
          nofun
      rw [haway] at hsurvives
      exact save_restored hunsaved hnul hsaved' hsave hguard hitem' hsameItem
        (survives_away hsurvives)

theorem run_kept {prefs : DownloadPrefs} {i : Nat} {item : DownloadItem} {s t : Manager}
    {as : List ManagerAction} (hs : Kept i item s)
    (h : Run (Guarded (fun u a => u.keeps a = true) (Steps (next prefs))) s as t) :
    Kept i item t := by
  refine h.invariant ?_ hs
  rintro u a v hu ⟨hguard, huv⟩
  exact next_kept hu hguard huv

/-- When the manager is destroyed, every item that is queued, paused, in error or being
downloaded is written and restored, in every run in which the thread, from then on, meets
nothing that loses an item. -/
theorem shutdown_restores (prefs : DownloadPrefs) (s₀ s t u : Manager)
    (as bs : List ManagerAction) (hstart : Started s₀)
    (hidle : ∀ item ∈ s₀.items, item.state ≠ .downloading)
    (hrun : Run (Steps (next prefs)) s₀ as s) (hexit : s.next prefs .setExit = some t)
    (hshut : Run (Guarded (fun v a => v.keeps a = true) (Steps (next prefs))) t bs u)
    (hsaved : u.saved = true) (i : Nat) (item : DownloadItem) (hitem : s.items[i]? = some item)
    (hstate : item.state = .queued ∨ item.state = .paused ∨ item.state = .error ∨
      item.state = .downloading) : Restored i item u.database := by
  obtain ⟨hunsaved, hnul, hlive⟩ := run_sound hstart hidle hrun
  have hunsaved' := next_unsaved hunsaved hexit
  have hnul' := next_nulFree hnul hunsaved hexit
  cases next_stepped hexit with
  | exits hfalse =>
    have hsurvives : survives item.state (s.place.phase i) = true := by
      rcases hstate with h | h | h | h
      · rw [h]; rfl
      · rw [h]; rfl
      · rw [h]; rfl
      · have hdown := hlive hfalse i item hitem h
        rw [h]
        exact hdown
    have hkept : Kept i item { s with exit := true } := by
      refine ⟨hunsaved', hnul', rfl, fun _ => ⟨item, hitem, .refl item, hsurvives⟩, ?_⟩
      intro hsaved'
      have hexits := hunsaved.exit hsaved'
      rw [hfalse] at hexits
      exact absurd hexits nofun
    exact (run_kept hkept hshut).restored hsaved

/-- The destructor, while the thread waits for the network; the thread finds out, gives the item
up and ends. -/
def shutdownActions : List ManagerAction :=
  [.stop, .thread (.ready .notYet), .thread .step, .thread (.resources true (.ok ())),
    .thread .step, .thread .step, .save]

/-- While the header has not come the item is in error, and comes back queued. -/
theorem shutdown_restores_waiting :
    ∃ s t u item, Run (Steps (next ⟨false, []⟩)) queuedManager requestActions s ∧
      s.next ⟨false, []⟩ .setExit = some t ∧
        Run (Guarded (fun v a => v.keeps a = true) (Steps (next ⟨false, []⟩))) t
          shutdownActions u ∧
        s.items[0]? = some item ∧ item.state = .downloading ∧ Restored 0 item u.database := by
  have hexec : ((exec (next ⟨false, []⟩) queuedManager requestActions).bind fun s =>
      (s.next ⟨false, []⟩ .setExit).bind fun t =>
        (exec (guardedNext (fun v a => v.keeps a = true) (next ⟨false, []⟩)) t
          shutdownActions).map fun u =>
            (u.saved, s.items.map DownloadItem.state)) = some (true, [.downloading]) := by
    decide
  obtain ⟨s, hs, hrest⟩ := Option.bind_eq_some_iff.mp hexec
  obtain ⟨t, ht, hrest⟩ := Option.bind_eq_some_iff.mp hrest
  obtain ⟨u, hu, heq⟩ := Option.map_eq_some_iff.mp hrest
  obtain ⟨hsaved, hstates⟩ := Prod.mk.inj heq
  obtain ⟨item, hitems, hstate⟩ := List.map_eq_singleton_iff.mp hstates
  have hitem : s.items[0]? = some item := by rw [hitems]; rfl
  have hrun := Run.of_exec hs
  have hshut := Run.of_guarded_exec hu
  have hidle : ∀ item ∈ queuedManager.items, item.state ≠ .downloading := by decide
  exact ⟨s, t, u, item, hrun, ht, hshut, hitem, hstate,
    shutdown_restores ⟨false, []⟩ queuedManager s t u _ _ started_queuedManager hidle hrun ht
      hshut hsaved 0 item hitem (.inr (.inr (.inr hstate)))⟩

/-- While the body is received the item is left `kDownloadItemState_Downloading`, and nothing is
saved. -/
theorem shutdown_forgets :
    Started queuedManager ∧ (∀ item ∈ queuedManager.items, item.state ≠ .downloading) ∧
      ∃ s t u item, Run (Steps (next ⟨false, []⟩)) queuedManager receivingActions s ∧
        s.next ⟨false, []⟩ .setExit = some t ∧
          Run (Steps (next ⟨false, []⟩)) t shutdownActions u ∧ u.saved = true ∧
            s.items[0]? = some item ∧ item.state = .downloading ∧
              ¬ Restored 0 item u.database := by
  have hexec : ((exec (next ⟨false, []⟩) queuedManager receivingActions).bind fun s =>
      (s.next ⟨false, []⟩ .setExit).bind fun t =>
        (exec (next ⟨false, []⟩) t shutdownActions).map fun u =>
          (u.saved, u.database.keys, s.items.map DownloadItem.state)) =
            some (true, [], [.downloading]) := by
    decide
  obtain ⟨s, hs, hrest⟩ := Option.bind_eq_some_iff.mp hexec
  obtain ⟨t, ht, hrest⟩ := Option.bind_eq_some_iff.mp hrest
  obtain ⟨u, hu, heq⟩ := Option.map_eq_some_iff.mp hrest
  obtain ⟨hsaved, heq⟩ := Prod.mk.inj heq
  obtain ⟨hkeys, hstates⟩ := Prod.mk.inj heq
  obtain ⟨item, hitems, hstate⟩ := List.map_eq_singleton_iff.mp hstates
  refine ⟨started_queuedManager, by decide, s, t, u, item, Run.of_exec hs, ht, Run.of_exec hu,
    hsaved, by rw [hitems]; rfl, hstate, ?_⟩
  intro hrestored
  have hwritten := hrestored.written
  rw [hkeys] at hwritten
  exact absurd hwritten List.not_mem_nil

end Manager

end FreeAmp.Base
