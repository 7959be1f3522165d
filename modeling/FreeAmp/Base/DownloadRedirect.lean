/-
  Base/DownloadRedirect.lean --- the requests that one call of
  `DownloadManager::Download` sends, from `base/src/downloadmanager.cpp`.

  `Download` calls itself after a redirection and after a range that the server does not
  have, and nothing counts how often.  `SentOn` is such an answer.  What the source of the
  item is afterwards, the last redirection has said, however the download ends.

      downloadOnce_error_iff   when `Download` calls itself
      download_iff             what it returns, and after how many requests
-/
import FreeAmp.Base.DownloadLifecycle
import FreeAmp.Lib.Retry

namespace FreeAmp.Base

open FreeAmp.Lib

variable {prefs : DownloadPrefs} {attempt : Attempt} {item item' : DownloadItem}
  {file : Option Text}

/-! ## Answers after which `Download` calls itself -/

/-- The answer sends the player on, with another item. -/
inductive SentOn (prefs : DownloadPrefs) (file : Option Text) (item : DownloadItem)
    (attempt : Attempt) : DownloadItem → Prop
  /-- a redirection: the source becomes where it leads to -/
  | redirected {header : Header} {rest : List Chunk} {asked : DownloadItem} {cp : Text}
      (hheader : reachHeader prefs attempt item file = .ok (asked, header, rest))
      (hclass : header.statusClass = some 51) (hlocation : header.location = some cp) :
      SentOn prefs file item attempt
        { asked with src := if header.returnCode = 305 then cp ++ cStr asked.src else cp }
  /-- 416: the whole is asked for -/
  | whole {header : Header} {rest : List Chunk} {asked : DownloadItem}
      (hheader : reachHeader prefs attempt item file = .ok (asked, header, rest))
      (hclass : header.statusClass = some 52) (hcode : header.returnCode = 416) :
      SentOn prefs file item attempt { asked with bytesReceived := 0 }

theorem clientError_again {header : Header} (h : clientError item header = .again item') :
    header.returnCode = 416 ∧ item' = { item with bytesReceived := 0 } := by
  unfold clientError at h
  split at h
  · cases h
  · split at h
    · cases h
    · split at h
      · cases h
      · split at h
        · cases h
        · split at h
          · rename_i hcode
            exact ⟨hcode, (Answer.again.inj h).symm⟩
          · cases h

theorem store_again {opened : Except Errno Unit} {header : Header} :
    store opened item file header ≠ .again item' := by
  unfold store
  split <;> nofun

/-- What is done with an answer that sends the player on. -/
theorem answer_again {opened : Except Errno Unit} {header : Header}
    (h : answer opened item file header = .again item') :
    (header.statusClass = some 51 ∧ ∃ cp, header.location = some cp ∧
        item' = { item with src := if header.returnCode = 305 then cp ++ cStr item.src else cp }) ∨
      header.statusClass = some 52 ∧ header.returnCode = 416 ∧
        item' = { item with bytesReceived := 0 } := by
  unfold answer at h
  split at h
  · exact absurd h store_again
  · exact absurd h store_again
  · rename_i hclass
    unfold redirect at h
    split at h
    · rename_i cp hlocation
      exact .inl ⟨hclass, cp, hlocation, (Answer.again.inj h).symm⟩
    · cases h
  · rename_i hclass
    obtain ⟨hcode, hitem⟩ := clientError_again h
    exact .inr ⟨hclass, hcode, hitem⟩
  · cases h
  · cases h

theorem downloadOnce_error_iff :
    downloadOnce prefs attempt item file = .error item' ↔ SentOn prefs file item attempt item' := by
  constructor
  · intro h
    unfold downloadOnce at h
    split at h
    · cases h
    · rename_i asked header rest hheader
      split at h
      · cases h
      · rename_i hanswer
        obtain rfl := Except.error.inj h
        rcases answer_again hanswer with ⟨hclass, cp, hlocation, rfl⟩ | ⟨hclass, hcode, rfl⟩
        · exact .redirected hheader hclass hlocation
        · exact .whole hheader hclass hcode
      · cases h
  · intro h
    cases h with
    | redirected hheader hclass hlocation =>
      unfold downloadOnce answer redirect
      simp only [hheader, hclass, hlocation]
    | whole hheader hclass hcode =>
      unfold downloadOnce answer clientError
      simp only [hheader, hclass, hcode]
      rfl

/-! ## Requests -/

/-- A call gets to `Send`. -/
def sends (prefs : DownloadPrefs) (file : Option Text) (attempt : Attempt)
    (item : DownloadItem) : Bool :=
  !alreadyThere item file && (sourceError prefs item.src).isNone && attempt.unreachable.isNone

/-- The number of requests that are sent. -/
def requests (prefs : DownloadPrefs) (file : Option Text) : List Attempt → DownloadItem → Nat :=
  tries (fun attempt item => downloadOnce prefs attempt item file) (sends prefs file)

theorem reachHeader_ok {r : DownloadItem × Header × List Chunk}
    (h : reachHeader prefs attempt item file = .ok r) :
    sends prefs file attempt item = true ∧ r.1 = item.request file := by
  unfold reachHeader at h
  unfold sends
  split at h
  · cases h
  · rename_i hthere
    rw [Bool.eq_false_iff.mpr hthere]
    split at h
    · cases h
    · cases h
    · rename_i hsource hreached
      rw [hsource, hreached]
      refine ⟨rfl, ?_⟩
      split at h
      · cases h
      · split at h
        · cases h
        · split at h
          · cases h
          · rw [← Except.ok.inj h]

theorem SentOn.sends (h : SentOn prefs file item attempt item') :
    sends prefs file attempt item = true := by
  cases h with
  | redirected hheader => exact (reachHeader_ok hheader).1
  | whole hheader => exact (reachHeader_ok hheader).1

theorem download_eq_retry : ∀ (attempts : List Attempt) (item : DownloadItem),
    download prefs attempts item file =
      retry (fun attempt item => downloadOnce prefs attempt item file) attempts item := by
  intro attempts
  induction attempts with
  | nil => exact fun item => rfl
  | cons attempt attempts ih =>
    intro item
    rw [download, retry]
    cases downloadOnce prefs attempt item file with
    | ok r => rfl
    | error item' => exact ih item'

/-! ## The source of the item -/

theorem receiveBody_src (failed : Bool) : ∀ (chunks : List Chunk) (item : DownloadItem)
    (data : Text), (receiveBody failed item data chunks).item.src = item.src := by
  intro chunks
  induction chunks with
  | nil => exact fun item data => rfl
  | cons chunk chunks ih =>
    intro item data
    rw [receiveBody]
    split
    · exact ih _ _
    · rfl

theorem accept_src (item : DownloadItem) (header : Header) : (item.accept header).src = item.src := by
  unfold DownloadItem.accept
  split <;> rfl

theorem request_src (item : DownloadItem) (file : Option Text) :
    (item.request file).src = item.src := by
  unfold DownloadItem.request
  split <;> rfl

/-- An answer that does not send the player on leaves the source. -/
theorem answer_src {opened : Except Errno Unit} {header : Header} {a : Answer}
    (h : answer opened item file header = a) (hstays : ∀ item', a ≠ .again item') :
    a.item.src = item.src := by
  have hstore : store opened item file header = a → a.item.src = item.src := by
    intro hstore
    rw [← hstore]
    unfold store
    cases opened with
    | error errno => exact accept_src item header
    | ok u => exact accept_src item header
  unfold answer at h
  split at h
  · exact hstore h
  · exact hstore h
  · unfold redirect at h
    split at h
    · exact absurd h.symm (hstays _)
    · rw [← h]
      rfl
  · rcases clientError_cases item header with ⟨result, -, -, hresult⟩ | hagain
    · rw [← h, hresult]
      rfl
    · exact absurd (h.symm.trans hagain) (hstays _)
  · rw [← h]
    rfl
  · rw [← h]
    rfl

theorem downloadOnce_src {r : Downloaded} (h : downloadOnce prefs attempt item file = .ok r) :
    r.item.src = item.src := by
  unfold downloadOnce at h
  split at h
  · rename_i result hheader
    rw [← Except.ok.inj h]
    unfold reachHeader at hheader
    split at hheader
    · rw [← Except.error.inj hheader]
    · split at hheader
      · rw [← Except.error.inj hheader]
      · rw [← Except.error.inj hheader]
      · split at hheader
        · rw [← Except.error.inj hheader]
          exact request_src item file
        · split at hheader
          · rw [← Except.error.inj hheader]
            exact request_src item file
          · split at hheader
            · rw [← Except.error.inj hheader]
              exact request_src item file
            · cases hheader
  · rename_i asked header rest hheader
    have hasked : asked.src = item.src := by
      rw [show asked = item.request file from (reachHeader_ok hheader).2]
      exact request_src item file
    split at h
    · rename_i hanswer
      rw [← Except.ok.inj h, receiveBody_src]
      exact (answer_src hanswer nofun).trans hasked
    · cases h
    · rename_i hanswer
      rw [← Except.ok.inj h]
      exact (answer_src hanswer nofun).trans hasked

/-! ## The whole call -/

theorem run_again {before : List Attempt} :
    Run (Again fun attempt item => downloadOnce prefs attempt item file) item before item' ↔
      Run (SentOn prefs file) item before item' :=
  ⟨fun h => h.mono fun _ _ _ hagain => downloadOnce_error_iff.mp hagain,
    fun h => h.mono fun _ _ _ hsent => downloadOnce_error_iff.mpr hsent⟩

/-- `Download` returns with the first answer that does not send it on.  It has sent a request
for every answer before, and one more unless it did not get so far; and the source of the
item is the one that these answers have led to. -/
theorem download_iff {attempts : List Attempt} {r : Downloaded} :
    download prefs attempts item file = some r ↔
      ∃ before attempt after item', attempts = before ++ attempt :: after ∧
        Run (SentOn prefs file) item before item' ∧
        downloadOnce prefs attempt item' file = .ok r ∧
        requests prefs file attempts item =
          before.length + (sends prefs file attempt item').toNat ∧
        r.item.src = item'.src := by
  rw [download_eq_retry, retry_eq_some_iff]
  constructor
  · rintro ⟨before, attempt, after, item', rfl, hrun, hlast⟩
    have hcount : requests prefs file (before ++ attempt :: after) item =
        before.length + (sends prefs file attempt item').toNat :=
      tries_eq (fun _ _ _ hagain => (downloadOnce_error_iff.mp hagain).sends) hrun hlast
    exact ⟨before, attempt, after, item', rfl, run_again.mp hrun, hlast, hcount,
      downloadOnce_src hlast⟩
  · rintro ⟨before, attempt, after, item', rfl, hrun, hlast, -⟩
    exact ⟨before, attempt, after, item', rfl, run_again.mpr hrun, hlast⟩

end FreeAmp.Base
