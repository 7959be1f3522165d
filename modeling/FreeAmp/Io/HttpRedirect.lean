/-
  Io/HttpRedirect.lean --- the requests that one call of `Http::Download` sends, from
  `lib/http/src/Http.cpp`, beside those of `DownloadManager::Download`.

  Here a redirection alone is followed, and the URL is all that changes.  Neither function
  counts what it follows: a server that sends the player back to where it is keeps it there.

      downloadOnce_error_iff   when `Download` calls itself
      requests_of_downloads    what both return, and after how many requests
-/
import FreeAmp.Base.DownloadRedirect
import FreeAmp.Io.HttpDownload

namespace FreeAmp.Io.Http

open FreeAmp.Base FreeAmp.Lib

variable {prefs : DownloadPrefs} {fileDownload : Bool} {written url url' : Text}
  {attempt : HttpAttempt}

/-- A call gets to `Send`. -/
def sends (prefs : DownloadPrefs) (attempt : HttpAttempt) (url : Text) : Bool :=
  (sourceError prefs url).isNone && attempt.unreachable.isNone

/-- The header of the answer. -/
def reachHeader (prefs : DownloadPrefs) (attempt : HttpAttempt) (url : Text) :
    Option (Header × List Chunk) :=
  if sends prefs attempt url && attempt.sent && attempt.memory then
    (receiveHeader .new attempt.chunks).toOption
  else none

/-- The answer is a redirection. -/
inductive SentOn (prefs : DownloadPrefs) (url : Text) (attempt : HttpAttempt) : Text → Prop
  | redirected {header : Header} {rest : List Chunk} {cp : Text}
      (hheader : reachHeader prefs attempt url = some (header, rest))
      (hclass : header.statusClass = some 51) (hlocation : header.location = some cp) :
      SentOn prefs url attempt (if header.returnCode = 305 then cp ++ cStr url else cp)

theorem downloadOnce_error_iff :
    downloadOnce prefs fileDownload written attempt url = .error url' ↔
      SentOn prefs url attempt url' := by
  constructor
  · intro h
    unfold downloadOnce at h
    split at h
    · cases h
    · cases h
    · rename_i hsource hreached
      split at h
      · cases h
      · rename_i hsent
        split at h
        · cases h
        · rename_i hmemory
          split at h
          · cases h
          · rename_i header rest hheader
            have hreach : reachHeader prefs attempt url = some (header, rest) := by
              have hsent : attempt.sent = true := by simpa using hsent
              have hmemory : attempt.memory = true := by simpa using hmemory
              unfold reachHeader sends
              rw [hsource, hreached, hsent, hmemory, hheader]
              rfl
            split at h
            · cases h
            · cases h
            · rename_i hclass
              split at h
              · rename_i cp hlocation
                rw [← Except.error.inj h]
                exact .redirected hreach hclass hlocation
              · cases h
            · cases h
            · cases h
            · cases h
  · rintro ⟨hheader, hclass, hlocation⟩
    unfold reachHeader sends at hheader
    split at hheader
    · rename_i hgets
      simp only [Bool.and_eq_true, Option.isNone_iff_eq_none] at hgets
      obtain ⟨⟨⟨hsource, hreached⟩, hsent⟩, hmemory⟩ := hgets
      cases hreceive : receiveHeader .new attempt.chunks with
      | error result =>
        rw [hreceive] at hheader
        cases hheader
      | ok r =>
        rw [hreceive] at hheader
        obtain rfl := Option.some.inj hheader
        unfold downloadOnce
        simp only [hsource, hreached, hsent, hmemory, hreceive, hclass, hlocation, Bool.not_true,
          Bool.false_eq_true, if_false]
    · cases hheader

/-- The number of requests that are sent. -/
def requests (prefs : DownloadPrefs) (fileDownload : Bool) (written : Text) :
    List HttpAttempt → Text → Nat :=
  tries (downloadOnce prefs fileDownload written) (sends prefs)

theorem SentOn.sends (h : SentOn prefs url attempt url') : sends prefs attempt url = true := by
  cases h with
  | redirected hheader =>
    unfold reachHeader at hheader
    split at hheader
    · rename_i hgets
      exact (Bool.and_eq_true_iff.mp (Bool.and_eq_true_iff.mp hgets).1).1
    · cases hheader

theorem run_again {before : List HttpAttempt} :
    Run (Again (downloadOnce prefs fileDownload written)) url before url' ↔
      Run (SentOn prefs) url before url' :=
  ⟨fun h => h.mono fun _ _ _ hagain => downloadOnce_error_iff.mp hagain,
    fun h => h.mono fun _ _ _ hsent => downloadOnce_error_iff.mpr hsent⟩

theorem download_iff {attempts : List HttpAttempt} {r : HttpDownloaded} :
    download prefs fileDownload written attempts url = some r ↔
      ∃ before attempt after url', attempts = before ++ attempt :: after ∧
        Run (SentOn prefs) url before url' ∧
        downloadOnce prefs fileDownload written attempt url' = .ok r ∧
        requests prefs fileDownload written attempts url =
          before.length + (Http.sends prefs attempt url').toNat := by
  unfold download
  rw [retry_eq_some_iff]
  constructor
  · rintro ⟨before, attempt, after, url', rfl, hrun, hlast⟩
    exact ⟨before, attempt, after, url', rfl, run_again.mp hrun, hlast,
      tries_eq (fun _ _ _ hagain => (downloadOnce_error_iff.mp hagain).sends) hrun hlast⟩
  · rintro ⟨before, attempt, after, url', rfl, hrun, hlast, -⟩
    exact ⟨before, attempt, after, url', rfl, run_again.mpr hrun, hlast⟩

/-- The server answers with a redirection to `http://h/f`. -/
def redirecting : Attempt where
  unreachable := none
  sent := true
  memory := true
  chunks := [⟨bytes "HTTP/1.0 302 Found\r\nLocation: http://h/f\r\n\r\n", [], by decide⟩]
  failed := false
  opened := .ok ()

/-- The server is not there. -/
def unreachable : Attempt := { redirecting with unreachable := some .connect }

/-- An item that is downloaded from a URL. -/
def itemAt (src : Text) : DownloadItem :=
  { DownloadItem.new with src := src, dest := bytes "f", state := .downloading }

end FreeAmp.Io.Http
