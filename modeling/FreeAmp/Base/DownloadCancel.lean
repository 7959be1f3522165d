/-
  Base/DownloadCancel.lean --- an item that is cancelled for good, from
  `base/src/downloadmanager.cpp`.

  `CancelDownload(item, false)` sets the state whatever the thread is about to do with
  the item.  The item stays cancelled exactly when the thread still looks at the state
  before it sets it, `Phase.committed`.
-/
import FreeAmp.Base.DownloadLifecycle

namespace FreeAmp.Base

open FreeAmp.Lib

/-- The thread may set the state of the item without looking at it again. -/
def Phase.committed : Phase → Bool
  | .picked => true
  | .passing => true
  | .returned result => result != .userCancel
  | _ => false

/-- A cancelled item stays so in a step of its life that is not committed to another state. -/
theorem Life.cancelled {exit : Bool} {state state' : DownloadItemState} {phase phase' : Phase}
    (h : Life exit state phase state' phase') (hstate : state = .cancelled)
    (hphase : phase.committed = false) : state' = .cancelled ∧ phase'.committed = false := by
  cases h with
  | away => exact ⟨hstate, rfl⟩
  | find => exact absurd hstate nofun
  | pick => exact absurd hphase nofun
  | start => exact absurd hphase nofun
  | cancel => exact ⟨hstate, rfl⟩
  | fail => exact absurd hstate nofun
  | goOn => exact absurd hstate nofun
  | work => exact ⟨hstate, rfl⟩
  | report => exact ⟨hstate, rfl⟩
  | more => exact absurd hphase nofun
  | passOver => exact absurd hphase nofun
  | done => exact absurd hphase nofun
  | keep h => exact absurd hstate h
  | discard => exact ⟨rfl, rfl⟩
  | error _ _ _ hcancel =>
    have hne : (Phase.returned _).committed = true := bne_iff_ne.mpr hcancel
    rw [hne] at hphase
    exact absurd hphase nofun
  | clean => exact ⟨hstate, rfl⟩

/-! ## What is saved -/

theorem saveItems_items : ∀ {items items' : List DownloadItem} {index : Nat} {db db' : Database},
    saveItems index items db = .ok (items', db') → items' = items.map DownloadItem.requeue := by
  intro items
  induction items with
  | nil =>
    intro items' index db db' h
    rw [← (Prod.mk.inj (Except.ok.inj h)).1]
    rfl
  | cons item items ih =>
    intro items' index db db' h
    rw [saveItems] at h
    split at h
    · obtain ⟨ost, hrecord, h⟩ := bind_eq_ok.mp h
      obtain ⟨r, hrest, h⟩ := bind_eq_ok.mp h
      obtain ⟨rest, db''⟩ := r
      rw [← (Prod.mk.inj (Except.ok.inj h)).1, List.map_cons, ← ih hrest]
    · rename_i hres
      obtain ⟨r, hrest, h⟩ := bind_eq_ok.mp h
      obtain ⟨rest, db''⟩ := r
      have hsame : item.requeue = item := by
        unfold DownloadItem.requeue
        rw [if_neg]
        intro herror
        rw [herror] at hres
        exact hres rfl
      rw [← (Prod.mk.inj (Except.ok.inj h)).1, List.map_cons, ← ih hrest, hsame]

/-- What is saved under the key of an item is the item. -/
theorem mem_savedUnder {items : List DownloadItem} : ∀ {index : Nat} {s : Text × DownloadItem},
    s ∈ savedUnder index items → ∃ i item, items[i]? = some item ∧
      item.state.resumable = true ∧ s = (resumeKey (index + i), item.requeue) := by
  induction items with
  | nil => exact fun h => absurd h List.not_mem_nil
  | cons item items ih =>
    intro index s h
    have hlater : s ∈ savedUnder (index + 1) items →
        ∃ i item', (item :: items)[i]? = some item' ∧ item'.state.resumable = true ∧
          s = (resumeKey (index + i), item'.requeue) := by
      intro hs
      obtain ⟨i, item', hitem, hres, heq⟩ := ih hs
      refine ⟨i + 1, item', hitem, hres, ?_⟩
      rw [heq, Nat.add_assoc, Nat.add_comm 1]
    rw [savedUnder] at h
    split at h
    · rename_i hres
      rcases List.mem_cons.mp h with rfl | h
      · exact ⟨0, item, rfl, hres, rfl⟩
      · exact hlater h
    · exact hlater h

theorem savedUnder_mem {items : List DownloadItem} : ∀ {index i : Nat} {item : DownloadItem},
    items[i]? = some item → item.state.resumable = true →
      (resumeKey (index + i), item.requeue) ∈ savedUnder index items := by
  induction items with
  | nil => exact fun h => absurd h nofun
  | cons first items ih =>
    intro index i item h hres
    rw [savedUnder]
    cases i with
    | zero =>
      obtain rfl := Option.some.inj h
      rw [if_pos hres]
      exact List.mem_cons_self
    | succ i =>
      have hmem : (resumeKey (index + 1 + i), item.requeue) ∈ savedUnder (index + 1) items :=
        ih h hres
      rw [Nat.add_assoc, Nat.add_comm 1] at hmem
      split
      · exact List.mem_cons_of_mem _ hmem
      · exact hmem

theorem resumeKey_not_mem {items : List DownloadItem} (hcount : items.length ≤ 4294967296)
    {i : Nat} {item : DownloadItem} (hitem : items[i]? = some item)
    (hres : item.state.resumable = false) :
    resumeKey i ∉ (savedUnder 0 items).map Prod.fst := by
  intro hmem
  obtain ⟨s, hs, hkey⟩ := List.mem_map.mp hmem
  obtain ⟨j, item', hitem', hres', rfl⟩ := mem_savedUnder hs
  obtain ⟨hi, -⟩ := List.getElem?_eq_some_iff.mp hitem
  obtain ⟨hj, -⟩ := List.getElem?_eq_some_iff.mp hitem'
  rw [Nat.zero_add] at hkey
  have hij := resumeKey_inj (by omega) (by omega) hkey
  subst hij
  obtain rfl := Option.some.inj (hitem.symm.trans hitem')
  rw [hres] at hres'
  exact absurd hres' nofun

namespace Manager

/-- A manager that has just been made: its items come from the resume database, which is
empty now. -/
structure Started (s : Manager) : Prop where
  started : s = init s.items s.files s.database
  count : s.items.length ≤ 4294967295
  nulFree : ∀ item ∈ s.items, item.NulFree
  working : s.database.working = true
  empty : s.database.keys = []

/-- The database is empty until the destructor saves the items, and their number is one that
a vector can have. -/
structure Unsaved (s : Manager) : Prop where
  count : s.items.length ≤ 4294967295
  working : s.database.working = true
  empty : s.saved = false → s.database.keys = []
  exit : s.saved = true → s.exit = true

theorem Started.unsaved {s : Manager} (h : Started s) : Unsaved s := by
  refine ⟨h.count, h.working, fun _ => h.empty, ?_⟩
  intro hsaved
  rw [h.started] at hsaved
  exact absurd hsaved nofun

theorem set_frame {s t : Manager} {call : UserCall} (h : s.set call = some t) :
    t.items.length = s.items.length ∧ t.saved = s.saved ∧ t.database = s.database ∧
      t.exit = s.exit ∧ t.place = s.place ∧ t.call = none := by
  cases call with
  | queue i bDownloadNow =>
    obtain ⟨item, -, rfl⟩ := Option.map_eq_some_iff.mp h
    exact ⟨List.length_set, rfl, rfl, rfl, rfl, rfl⟩
  | cancel i allowResume =>
    obtain ⟨item, -, rfl⟩ := Option.map_eq_some_iff.mp h
    exact ⟨List.length_set, rfl, rfl, rfl, rfl, rfl⟩

/-- What an action is known to have done. -/
inductive Stepped (prefs : DownloadPrefs) (s : Manager) : ManagerAction → Manager → Prop
  | thread {e : ThreadEvent} {t : Manager} (h : s.threadStep prefs e = some t) :
      Stepped prefs s (.thread e) t
  | known (item : DownloadItem) (hexit : s.exit = false) : Stepped prefs s (.addItem item) s
  | added {item : DownloadItem} (hexit : s.exit = false) (hnul : item.NulFree)
      (hcount : s.items.length < 4294967295) :
      Stepped prefs s (.addItem item)
        { s with
          items := s.items ++ [{ item with state := .queued }]
          queueCount := s.queueCount + 1 }
  | entered {call : UserCall} {item : DownloadItem} (hexit : s.exit = false)
      (hitem : s.items[call.item]? = some item) (hallowed : call.allowed item.state = true) :
      Stepped prefs s (.enter call) { s with call := some call }
  | set {call : UserCall} {t : Manager} (hexit : s.exit = false) (hcall : s.call = some call)
      (h : s.set call = some t) : Stepped prefs s (.set call) t
  | paused (hexit : s.exit = false) :
      Stepped prefs s .pauseDownloads { s with downloadsPaused := true }
  | resumed (hexit : s.exit = false) :
      Stepped prefs s .resumeDownloads
        { s with downloadsPaused := false, queueCount := s.queueCount + 1 }
  | exits (hexit : s.exit = false) : Stepped prefs s .setExit { s with exit := true }
  | stops (hexit : s.exit = true) :
      Stepped prefs s .stop
        { s with runDownloadThread := false, queueCount := s.queueCount + 1 }
  | saves {items : List DownloadItem} {db : Database} (hexit : s.exit = true)
      (hsaved : s.saved = false) (hplace : s.place = .start ∨ s.place = .ended)
      (hsave : saveResumableDownloadItems s.database s.items = .ok (items, db)) :
      Stepped prefs s .save { s with items := items, database := db, saved := true }

theorem next_stepped {prefs : DownloadPrefs} {s t : Manager} {a : ManagerAction}
    (h : s.next prefs a = some t) : Stepped prefs s a t := by
  cases a with
  | thread e => exact .thread h
  | addItem item =>
    rw [next] at h
    split at h
    · exact absurd h nofun
    · rename_i hexit
      unfold addItem at h
      split at h
      · rename_i hguard
        split at h
        · exact Option.some.inj h ▸ .known item (Bool.eq_false_iff.mpr hexit)
        · exact Option.some.inj h ▸
            .added (Bool.eq_false_iff.mpr hexit) hguard.2.2.1 hguard.2.2.2.2
      · exact absurd h nofun
  | enter call =>
    rw [next] at h
    split at h
    · exact absurd h nofun
    · rename_i hexit
      unfold enter at h
      split at h
      · rename_i item hitem
        split at h
        · rename_i hguard
          exact Option.some.inj h ▸ .entered (Bool.eq_false_iff.mpr hexit) hitem hguard.2
        · exact absurd h nofun
      · exact absurd h nofun
  | set call =>
    rw [next] at h
    split at h
    · exact absurd h nofun
    · rename_i hguard
      rw [not_or, not_not] at hguard
      exact .set (Bool.eq_false_iff.mpr hguard.1) hguard.2 h
  | pauseDownloads =>
    rw [next] at h
    split at h
    · exact absurd h nofun
    · rename_i hguard
      exact Option.some.inj h ▸ .paused (Bool.eq_false_iff.mpr fun he => hguard (.inl he))
  | resumeDownloads =>
    rw [next] at h
    split at h
    · exact absurd h nofun
    · rename_i hguard
      exact Option.some.inj h ▸ .resumed (Bool.eq_false_iff.mpr fun he => hguard (.inl he))
  | setExit =>
    rw [next] at h
    split at h
    · exact absurd h nofun
    · rename_i hguard
      exact Option.some.inj h ▸ .exits (Bool.eq_false_iff.mpr fun he => hguard (.inl he))
  | stop =>
    rw [next] at h
    split at h
    · rename_i hguard
      exact Option.some.inj h ▸ .stops (Bool.and_eq_true_iff.mp hguard).1
    · exact absurd h nofun
  | save =>
    rw [next] at h
    split at h
    · rename_i hguard
      simp only [Bool.and_eq_true, Bool.or_eq_true, beq_iff_eq, Bool.not_eq_true'] at hguard
      obtain ⟨⟨⟨hexit, -⟩, hsaved⟩, hplace⟩ := hguard
      cases hsave : saveResumableDownloadItems s.database s.items with
      | error e =>
        rw [hsave] at h
        exact absurd h nofun
      | ok r =>
        rw [hsave] at h
        exact Option.some.inj h ▸ .saves hexit hsaved hplace hsave
    · exact absurd h nofun

theorem save_savedIn {s : Manager} (h : Unsaved s) (hsaved : s.saved = false)
    {items : List DownloadItem} {db : Database}
    (hsave : saveResumableDownloadItems s.database s.items = .ok (items, db)) :
    items = s.items.map DownloadItem.requeue ∧
      SavedIn s.database db (savedUnder 0 s.items) := by
  have hcount := h.count
  unfold saveResumableDownloadItems at hsave
  rw [if_pos h.working] at hsave
  refine ⟨saveItems_items hsave, saveItems_savedIn hsave ?_ (by omega)⟩
  rw [h.empty hsaved]
  nofun

theorem next_unsaved {prefs : DownloadPrefs} {s t : Manager} {a : ManagerAction}
    (hs : Unsaved s) (h : s.next prefs a = some t) : Unsaved t := by
  obtain ⟨hcount, hworking, hempty, hexits⟩ := hs
  cases next_stepped h with
  | thread h =>
    obtain ⟨hlength, hexit, hsaved, hdatabase, -⟩ := threadStep_frame h
    exact ⟨by rw [hlength]; exact hcount, by rw [hdatabase]; exact hworking,
      by rw [hsaved, hdatabase]; exact hempty, by rw [hsaved, hexit]; exact hexits⟩
  | known => exact ⟨hcount, hworking, hempty, hexits⟩
  | added _ _ hlt =>
    refine ⟨?_, hworking, hempty, hexits⟩
    rw [List.length_append]
    exact hlt
  | entered => exact ⟨hcount, hworking, hempty, hexits⟩
  | set _ _ h =>
    obtain ⟨hlength, hsaved, hdatabase, hexit, -⟩ := set_frame h
    exact ⟨by rw [hlength]; exact hcount, by rw [hdatabase]; exact hworking,
      by rw [hsaved, hdatabase]; exact hempty, by rw [hsaved, hexit]; exact hexits⟩
  | paused => exact ⟨hcount, hworking, hempty, hexits⟩
  | resumed => exact ⟨hcount, hworking, hempty, hexits⟩
  | exits => exact ⟨hcount, hworking, hempty, fun _ => rfl⟩
  | stops => exact ⟨hcount, hworking, hempty, hexits⟩
  | saves hexit hsaved _ hsave =>
    obtain ⟨rfl, hin⟩ := save_savedIn ⟨hcount, hworking, hempty, hexits⟩ hsaved hsave
    refine ⟨?_, hin.working.trans hworking, fun h => absurd h nofun, fun _ => hexit⟩
    rw [List.length_map]
    exact hcount

/-! ## Cancelled for good -/

/-- The item at `i` is cancelled; once the items are saved it is not among them, and the next
manager does not find it. -/
structure CancelledAt (i : Nat) (s : Manager) : Prop where
  cancelled : ∃ item, s.items[i]? = some item ∧ item.state = .cancelled
  notSaved : s.saved = true → resumeKey i ∉ s.database.keys ∧
    ∀ order : KeyOrder, resumeKey i ∉ order.nextKeys s.database

/-- It is so, and nobody is about to change it. -/
structure StaysCancelled (i : Nat) (s : Manager) : Prop extends CancelledAt i s where
  unsaved : Unsaved s
  phase : (s.place.phase i).committed = false
  call : ∀ allowResume, s.call ≠ some (.cancel i allowResume)

theorem set_other {s t : Manager} {call : UserCall} (h : s.set call = some t) {i : Nat}
    (hi : i ≠ call.item) : t.items[i]? = s.items[i]? := by
  cases call with
  | queue j bDownloadNow =>
    obtain ⟨item, -, rfl⟩ := Option.map_eq_some_iff.mp h
    exact List.getElem?_set_ne (Ne.symm hi)
  | cancel j allowResume =>
    obtain ⟨item, -, rfl⟩ := Option.map_eq_some_iff.mp h
    exact List.getElem?_set_ne (Ne.symm hi)

/-- A step keeps it so, unless the user queues the item again. -/
theorem next_staysCancelled {prefs : DownloadPrefs} {i : Nat} {s t : Manager} {a : ManagerAction}
    (hs : StaysCancelled i s) (hqueue : ∀ now, a ≠ .set (.queue i now))
    (h : s.next prefs a = some t) : StaysCancelled i t := by
  obtain ⟨⟨⟨item, hitem, hstate⟩, hnotSaved⟩, hunsaved, hphase, hcall⟩ := hs
  have hunsaved' := next_unsaved hunsaved h
  cases next_stepped h with
  | thread h =>
    obtain ⟨item', hitem', hlife, -⟩ := threadStep_life h hitem
    obtain ⟨hstate', hphase'⟩ := hlife.cancelled hstate hphase
    obtain ⟨-, -, hsaved, hdatabase, hcalls⟩ := threadStep_frame h
    refine ⟨⟨⟨item', hitem', hstate'⟩, ?_⟩, hunsaved', hphase', ?_⟩
    · rw [hsaved, hdatabase]
      exact hnotSaved
    · rw [hcalls]
      exact hcall
  | known => exact ⟨⟨⟨item, hitem, hstate⟩, hnotSaved⟩, hunsaved', hphase, hcall⟩
  | added _ _ hlt =>
    obtain ⟨hi, -⟩ := List.getElem?_eq_some_iff.mp hitem
    refine ⟨⟨⟨item, ?_, hstate⟩, hnotSaved⟩, hunsaved', hphase, hcall⟩
    rw [List.getElem?_append_left hi, hitem]
  | @entered call item' _ hitem' hallowed =>
    refine ⟨⟨⟨item, hitem, hstate⟩, hnotSaved⟩, hunsaved', hphase, ?_⟩
    rintro allowResume heq
    obtain rfl := Option.some.inj heq
    obtain rfl := Option.some.inj (hitem.symm.trans hitem')
    rw [hstate] at hallowed
    exact absurd hallowed nofun
  | @set call _ _ hcall' h =>
    have hother : i ≠ call.item := by
      rintro rfl
      cases call with
      | queue j now => exact hqueue now rfl
      | cancel j allowResume => exact hcall allowResume hcall'
    obtain ⟨-, hsaved, hdatabase, -, hplace, hnone⟩ := set_frame h
    refine ⟨⟨⟨item, by rw [set_other h hother, hitem], hstate⟩, ?_⟩, hunsaved', ?_, ?_⟩
    · rw [hsaved, hdatabase]
      exact hnotSaved
    · rw [hplace]
      exact hphase
    · rw [hnone]
      nofun
  | paused => exact ⟨⟨⟨item, hitem, hstate⟩, hnotSaved⟩, hunsaved', hphase, hcall⟩
  | resumed => exact ⟨⟨⟨item, hitem, hstate⟩, hnotSaved⟩, hunsaved', hphase, hcall⟩
  | exits => exact ⟨⟨⟨item, hitem, hstate⟩, hnotSaved⟩, hunsaved', hphase, hcall⟩
  | stops => exact ⟨⟨⟨item, hitem, hstate⟩, hnotSaved⟩, hunsaved', hphase, hcall⟩
  | saves _ hsaved _ hsave =>
    obtain ⟨rfl, hin⟩ := save_savedIn hunsaved hsaved hsave
    have hcount := hunsaved.count
    have hres : item.state.resumable = false := by rw [hstate]; rfl
    have hkey := resumeKey_not_mem (by omega) hitem hres
    have hkeys := hin.keys
    rw [hunsaved.empty hsaved, List.append_nil] at hkeys
    refine ⟨⟨⟨item.requeue, ?_, ?_⟩, fun _ => ⟨?_, ?_⟩⟩, hunsaved', hphase, hcall⟩
    · rw [List.getElem?_map, hitem, Option.map_some]
    · unfold DownloadItem.requeue
      rw [if_neg (by rw [hstate]; nofun), hstate]
    · rw [hkeys.mem_iff]
      exact hkey
    · intro order hmem
      rw [KeyOrder.nextKeys, List.mem_filter, (order.perm _).mem_iff, hkeys.mem_iff] at hmem
      exact hkey hmem.1

theorem run_staysCancelled {prefs : DownloadPrefs} {i : Nat} {s t : Manager}
    {as : List ManagerAction} (h : Run (Steps (next prefs)) s as t) (hs : StaysCancelled i s)
    (hqueue : ∀ now, .set (.queue i now) ∉ as) : StaysCancelled i t := by
  refine h.invariant_mem (P := StaysCancelled i) ?_ hs
  intro u a v ha hu huv
  refine next_staysCancelled hu ?_ huv
  rintro now rfl
  exact hqueue now ha

/-! ## When the thread does not look again -/

theorem committed_place {place : Place} {i : Nat} (h : (place.phase i).committed = true) :
    place = .found i ∨ place = .starting i ∨ (∃ more, place = .bodyTest i more) ∨
      ∃ result, place = .returned i result ∧ result ≠ .userCancel := by
  by_cases hitem : place.item = some i
  · cases place with
    | found j =>
      obtain rfl := Option.some.inj hitem
      exact .inl rfl
    | starting j =>
      obtain rfl := Option.some.inj hitem
      exact .inr (.inl rfl)
    | bodyTest j more =>
      obtain rfl := Option.some.inj hitem
      exact .inr (.inr (.inl ⟨more, rfl⟩))
    | returned j result =>
      obtain rfl := Option.some.inj hitem
      rw [phase_returned] at h
      exact .inr (.inr (.inr ⟨result, rfl, bne_iff_ne.mp h⟩))
    | check j result next =>
      obtain rfl := Option.some.inj hitem
      rw [phase_check] at h
      exact absurd h nofun
    | lookup j =>
      obtain rfl := Option.some.inj hitem
      rw [phase_lookup] at h
      exact absurd h nofun
    | socket j =>
      obtain rfl := Option.some.inj hitem
      rw [phase_socket] at h
      exact absurd h nofun
    | network j call =>
      obtain rfl := Option.some.inj hitem
      rw [phase_network] at h
      exact absurd h nofun
    | select j call =>
      obtain rfl := Option.some.inj hitem
      rw [phase_select] at h
      exact absurd h nofun
    | cleanUp j =>
      obtain rfl := Option.some.inj hitem
      rw [phase_cleanUp] at h
      exact absurd h nofun
    | _ => exact absurd hitem nofun
  · rw [Place.phase_away hitem] at h
    exact absurd h nofun

theorem threadStep_workOn (prefs : DownloadPrefs) {s : Manager} {place : Place} {i : Nat}
    {item : DownloadItem} (hplace : s.place = place) (hwork : place.item = some i)
    (hfound : place ≠ .found i) (hitem : s.items[i]? = some item) (e : ThreadEvent) :
    s.threadStep prefs e = s.workOn prefs item place e := by
  unfold threadStep
  rw [hplace]
  cases place with
  | found j =>
    obtain rfl := Option.some.inj hwork
    exact absurd rfl hfound
  | start => exact absurd hwork nofun
  | loop => exact absurd hwork nofun
  | tested => exact absurd hwork nofun
  | wait => exact absurd hwork nofun
  | waiting => exact absurd hwork nofun
  | next => exact absurd hwork nofun
  | scan j total => exact absurd hwork nofun
  | ended => exact absurd hwork nofun
  | _ =>
    dsimp only
    rw [hwork, Option.bind_some, hitem]

/-- From `s` the item at `i` can be led out of `kDownloadItemState_Cancelled` without the user
queueing it again. -/
def CanLeave (prefs : DownloadPrefs) (i : Nat) (s : Manager) : Prop :=
  ∃ as t, Run (Steps (next prefs)) s as t ∧ (∀ now, .set (.queue i now) ∉ as) ∧
    ∃ item, t.items[i]? = some item ∧ item.state ≠ .cancelled

section Leaving

variable {prefs : DownloadPrefs} {i : Nat} {s : Manager} {item : DownloadItem}

theorem CanLeave.step {t : Manager} {a : ManagerAction} (h : s.next prefs a = some t)
    (ha : ∀ now, a ≠ .set (.queue i now)) (ht : CanLeave prefs i t) : CanLeave prefs i s := by
  obtain ⟨as, u, hrun, hqueue, hitem⟩ := ht
  refine ⟨a :: as, u, .cons h hrun, ?_, hitem⟩
  intro now hmem
  rcases List.mem_cons.mp hmem with heq | hmem
  · exact ha now heq.symm
  · exact hqueue now hmem

theorem CanLeave.thread {t : Manager} {e : ThreadEvent} (h : s.threadStep prefs e = some t)
    (ht : CanLeave prefs i t) : CanLeave prefs i s := by
  have hnext : s.next prefs (.thread e) = some t := h
  exact CanLeave.step hnext (fun now heq => absurd heq nofun) ht

theorem canLeave_of_setItem {item' : DownloadItem} {place : Place}
    (hitem : s.items[i]? = some item) (hstate : item'.state ≠ .cancelled) :
    CanLeave prefs i ((s.setItem i item').goto place) :=
  ⟨[], _, .refl _, nofun, item', getElem?_set_self' hitem item', hstate⟩

theorem canLeave_returned {result : Error} (hitem : s.items[i]? = some item)
    (hplace : s.place = .returned i result) (hcancel : result ≠ .userCancel) :
    CanLeave prefs i s := by
  have hstep : s.threadStep prefs .step = some (s.finish i item result) :=
    threadStep_workOn prefs hplace rfl (by nofun) hitem .step
  apply CanLeave.thread hstep
  unfold finish
  split
  · exact canLeave_of_setItem hitem nofun
  · exact absurd rfl hcancel
  · exact canLeave_of_setItem hitem nofun
  · exact canLeave_of_setItem hitem nofun

/-- The loop that receives the body ends without an error. -/
theorem canLeave_bodyTest {more : Bool} (hitem : s.items[i]? = some item)
    (hplace : s.place = .bodyTest i more)
    (hstop : (more && s.runDownloadThread && item.unfinished) = false) : CanLeave prefs i s := by
  have hstep := threadStep_workOn prefs hplace rfl (by nofun) hitem .step
  simp only [workOn, hstop, Bool.false_eq_true, if_false] at hstep
  apply CanLeave.thread hstep
  have hcancel : Error.noErr ≠ .userCancel := by nofun
  exact canLeave_returned hitem (goto_place s _) hcancel

theorem canLeave_starting (hitem : s.items[i]? = some item) (hplace : s.place = .starting i) :
    CanLeave prefs i s := by
  have hstep : s.threadStep prefs .step =
      some ((s.setItem i { item with state := .downloading }).goto
        (download prefs s i { item with state := .downloading })) :=
    threadStep_workOn prefs hplace rfl (by nofun) hitem .step
  apply CanLeave.thread hstep
  exact canLeave_of_setItem hitem nofun

/-- A thread that is committed may lead the item out of its state. -/
theorem canLeave_of_committed (hitem : s.items[i]? = some item) (hexit : s.exit = false)
    (hcall : s.call = none) (hphase : (s.place.phase i).committed = true) :
    CanLeave prefs i s := by
  rcases committed_place hphase with hplace | hplace | ⟨more, hplace⟩ | ⟨result, hplace, hcancel⟩
  · have hstep : s.next prefs (.thread .step) =
        some { s with downloadIndex := s.downloadIndex + 1, place := .starting i } := by
      rw [next, threadStep, hplace]
    apply CanLeave.step hstep (fun now heq => absurd heq nofun)
    exact canLeave_starting hitem rfl
  · exact canLeave_starting hitem hplace
  · cases hstop : (more && s.runDownloadThread && item.unfinished) with
    | false => exact canLeave_bodyTest hitem hplace hstop
    | true =>
      -- the destructor ends the loop
      simp only [Bool.and_eq_true] at hstop
      have hsetExit : s.next prefs .setExit = some { s with exit := true } := by
        rw [next, if_neg]
        rw [hexit, hcall]
        simp
      have hstops : ({ s with exit := true } : Manager).next prefs .stop =
          some { s with
            exit := true
            runDownloadThread := false
            queueCount := s.queueCount + 1 } := by
        rw [next]
        simp only [hstop.1.2]
        rfl
      apply CanLeave.step hsetExit (fun now heq => absurd heq nofun)
      apply CanLeave.step hstops (fun now heq => absurd heq nofun)
      exact canLeave_bodyTest hitem hplace (by simp)
  · exact canLeave_returned hitem hplace hcancel

end Leaving

/-- An item that is cancelled for good stays cancelled and is not saved, whatever else happens
but that the user queues it again, exactly when the thread looks at its state before it sets
it. -/
theorem cancelled_for_good_iff (prefs : DownloadPrefs) (s₀ s t : Manager)
    (as : List ManagerAction) (i : Nat) (hstart : Started s₀)
    (hrun : Run (Steps (next prefs)) s₀ as s)
    (hcancel : s.next prefs (.set (.cancel i false)) = some t) :
    (∀ bs u, Run (Steps (next prefs)) t bs u → (∀ now, .set (.queue i now) ∉ bs) →
      CancelledAt i u) ↔ (s.place.phase i).committed = false := by
  have hunsaved : Unsaved s := hrun.invariant (fun _ _ _ hu huv => next_unsaved hu huv)
    hstart.unsaved
  have hunsaved' := next_unsaved hunsaved hcancel
  cases next_stepped hcancel with
  | @set _ _ hexit _ hset =>
    obtain ⟨-, -, -, hexit', hplace, hcall⟩ := set_frame hset
    rw [hexit] at hexit'
    obtain ⟨item, hitem, rfl⟩ := Option.map_eq_some_iff.mp hset
    have hitem' := getElem?_set_self' hitem { item with state := .cancelled }
    constructor
    · intro hstays
      rw [Bool.eq_false_iff]
      intro hphase
      obtain ⟨bs, u, hbs, hqueue, item', hu, hleft⟩ : CanLeave prefs i _ :=
        canLeave_of_committed hitem' hexit' hcall hphase
      obtain ⟨item'', hu', hcancelled⟩ := (hstays bs u hbs hqueue).cancelled
      obtain rfl := Option.some.inj (hu.symm.trans hu')
      exact hleft hcancelled
    · intro hphase bs u hbs hqueue
      refine (run_staysCancelled hbs ⟨⟨⟨_, hitem', rfl⟩, ?_⟩, hunsaved', hphase, nofun⟩
        hqueue).toCancelledAt
      intro hsaved
      have hexits := hunsaved'.exit hsaved
      rw [hexit'] at hexits
      exact absurd hexits nofun

/-- A manager with one item, which is queued. -/
def queuedManager : Manager :=
  init
    [{ DownloadItem.new with
        src := bytes "http://h/f"
        dest := bytes "f"
        state := .queued }]
    (fun _ => none) .empty

theorem started_queuedManager : Started queuedManager :=
  ⟨rfl, by decide, by decide, rfl, rfl⟩

/-- The thread connects and sends the request; it waits for the header. -/
def requestActions : List ManagerAction :=
  .resumeDownloads :: List.map .thread
    [.step, .step, .step, .step, .step, .step, .step,
      .resources true (.ok ()), .outcome true, .resources true (.ok ()), .outcome true,
      .resources true (.ok ()), .step, .ready .done, .resources true (.ok ()), .step,
      .ready .done, .resources true (.ok ()), .step]

/-- The header comes, and two bytes of the body; the thread waits for more. -/
def receivingActions : List ManagerAction :=
  requestActions ++ List.map .thread
    [.ready (.data ⟨bytes "HTTP/1.1 200 OK\r\nContent-Length: 9\r\n\r\nab", [], by decide⟩),
      .resources true (.ok ()), .step]

/-- The rest of the body comes, and `Download` returns. -/
def finishingActions : List ManagerAction :=
  receivingActions ++ List.map .thread
    [.ready (.data ⟨bytes "cdefghi", [], by decide⟩), .resources true (.ok ()), .step]

/-- What the user does to cancel the item for good. -/
def cancelActions : List ManagerAction := [.enter (.cancel 0 false), .set (.cancel 0 false)]

/-- While the body is received the item can be cancelled for good. -/
theorem cancelled_for_good_receiving :
    ∃ s t, Run (Steps (next ⟨false, []⟩)) queuedManager
        (receivingActions ++ [.enter (.cancel 0 false)]) s ∧
      s.next ⟨false, []⟩ (.set (.cancel 0 false)) = some t ∧
        ((∀ bs u, Run (Steps (next ⟨false, []⟩)) t bs u → (∀ now, .set (.queue 0 now) ∉ bs) →
          CancelledAt 0 u) ↔ (s.place.phase 0).committed = false) := by
  have hexec : ((exec (next ⟨false, []⟩) queuedManager
      (receivingActions ++ [.enter (.cancel 0 false)])).bind
        fun s => s.next ⟨false, []⟩ (.set (.cancel 0 false))).isSome = true := by
    decide
  obtain ⟨t, ht⟩ := Option.isSome_iff_exists.mp hexec
  obtain ⟨s, hs, hst⟩ := Option.bind_eq_some_iff.mp ht
  have hrun := Run.of_exec hs
  exact ⟨s, t, hrun, hst, cancelled_for_good_iff ⟨false, []⟩ queuedManager s t _ 0
    started_queuedManager hrun hst⟩

/-- When `Download` has returned the item is cancelled, and then done. -/
theorem cancelled_for_good_fails :
    ((exec (next ⟨false, []⟩) queuedManager (finishingActions ++ cancelActions)).map
        fun s => s.items.map DownloadItem.state) = some [.cancelled] ∧
      ((exec (next ⟨false, []⟩) queuedManager
        (finishingActions ++ cancelActions ++ [.thread .step])).map
          fun s => s.items.map DownloadItem.state) = some [.done] := by
  decide

end Manager

end FreeAmp.Base
