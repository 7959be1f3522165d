/-
  Base/DownloadEntity.lean --- when a file that `Download` reports as downloaded is
  whole, from `base/src/downloadmanager.cpp`.

  `Download` ends in one of its calls, `lastCall`; the calls before it were sent on, by
  a redirection or by a range that the server does not have.  What the file should hold
  afterwards is read off the response of that call, `wholeFile`.
-/
import FreeAmp.Base.DownloadSplits
import Mathlib.Data.List.SplitOn

namespace FreeAmp.Base

open FreeAmp.Lib

/-! ## What the file should hold -/

/-- The `Content-Length` of a header, the case of its name aside. -/
def contentLength (head : Text) : Option Nat :=
  ((head.splitOn 10).find? fun line => (line.take 15).map toLower == bytes "content-length:").map
    fun line => (atoi (line.drop 15)).toNat

/-- What the server has sent of the entity that the header announces, if it is all there. -/
def entity (head body : Text) : Option Text :=
  match contentLength head with
  | some n => if n ≤ body.length then some (body.take n) else none
  | none => some body

/-- What the file holds up to the place that a response goes on from. -/
def resumedFrom (item : DownloadItem) (file : Option Text) (head : Text) : Option Text :=
  if (Header.mk head []).returnCode = 206 then
    let offset := (item.request file).bytesReceived.toNat
    if offset ≤ (file.getD []).length then some ((file.getD []).take offset) else none
  else some []

/-- What the file should hold after a successful response. -/
def wholeFile (attempt : Attempt) (item : DownloadItem) (file : Option Text) : Option Text :=
  match splitResponse (received attempt.chunks) with
  | some (head, body) =>
    if head[9]? = some 50 then
      match resumedFrom item file head, entity head body with
      | some data, some data' => some (data ++ data')
      | _, _ => none
    else none
  | none => none

/-- The call of `Download` with which it ends: what it meets, and the item. -/
def lastCall (prefs : DownloadPrefs) :
    List Attempt → DownloadItem → Option Text → Option (Attempt × DownloadItem)
  | [], _, _ => none
  | attempt :: attempts, item, file =>
    match downloadOnce prefs attempt item file with
    | .ok _ => some (attempt, item)
    | .error item' => lastCall prefs attempts item' file

/-- What is downloaded is what the last call downloads. -/
theorem download_lastCall {prefs : DownloadPrefs} : ∀ {attempts : List Attempt}
    {item : DownloadItem} {file : Option Text} {r : Downloaded},
      download prefs attempts item file = some r →
        ∃ attempt item', lastCall prefs attempts item file = some (attempt, item') ∧
          downloadOnce prefs attempt item' file = .ok r := by
  intro attempts
  induction attempts with
  | nil => intro item file r h; exact absurd h nofun
  | cons attempt attempts ih =>
    intro item file r h
    rw [download] at h
    rw [lastCall]
    cases honce : downloadOnce prefs attempt item file with
    | ok r' =>
      rw [honce] at h
      obtain rfl := Option.some.inj h
      exact ⟨attempt, item, rfl, honce⟩
    | error item' =>
      rw [honce] at h
      exact ih h

/-- A success is one of a successful response, and the file is whole. -/
def WholeEntity (prefs : DownloadPrefs) (attempt : Attempt) (item : DownloadItem)
    (file : Option Text) (r : Downloaded) : Prop :=
  Connected prefs attempt item file ∧ (wholeFile attempt item file).isSome = true ∧
    r.file = wholeFile attempt item file

/-! ## When the call fails -/

theorem sourceError_ne {prefs : DownloadPrefs} {src : Text} {err : Error}
    (h : sourceError prefs src = some err) : err ≠ .noErr := by
  unfold sourceError at h
  split at h
  · obtain rfl := Option.some.inj h
    nofun
  · split at h
    · obtain rfl := Option.some.inj h
      nofun
    · exact absurd h nofun

theorem Unreachable.result_ne (cause : Unreachable) : cause.result ≠ .noErr := by
  cases cause <;> nofun

theorem Errno.result_ne (errno : Errno) : errno.result ≠ .noErr := by
  cases errno <;> nofun

theorem receiveHeader_error_ne : ∀ {chunks : List Chunk} {buffer : HeaderBuffer} {err : Error},
    receiveHeader buffer chunks = .error err → err ≠ .noErr := by
  intro chunks
  induction chunks with
  | nil =>
    intro buffer err h
    rw [receiveHeader] at h
    cases hgrow : buffer.grow with
    | none =>
      rw [hgrow] at h
      obtain rfl := Except.error.inj h
      intro hsame
      cases hsame
    | some b =>
      rw [hgrow] at h
      obtain rfl := Except.error.inj h
      intro hsame
      cases hsame
  | cons chunk chunks ih =>
    intro buffer err h
    rw [receiveHeader] at h
    cases hgrow : buffer.grow with
    | none =>
      rw [hgrow] at h
      obtain rfl := Except.error.inj h
      intro hsame
      cases hsame
    | some b =>
      rw [hgrow] at h
      dsimp only at h
      split at h
      · cases h
      · exact ih h

/-- Without a terminator, and with none completed by what stands behind what has come,
the header is never complete. -/
theorem receiveHeader_of_unspoilt {n : Nat} : ∀ {chunks : List Chunk} {buffer : HeaderBuffer},
    (buffer.bytes ++ received chunks).length < n → Unspoilt n buffer.bytes chunks →
      ∃ err, receiveHeader buffer chunks = .error err := by
  intro chunks
  induction chunks with
  | nil =>
    intro buffer _ _
    rw [receiveHeader]
    cases hgrow : buffer.grow with
    | none => exact ⟨_, rfl⟩
    | some b => exact ⟨_, rfl⟩
  | cons chunk chunks ih =>
    intro buffer hlen hclean
    rw [receiveHeader]
    rw [received_cons, ← List.append_assoc] at hlen
    cases hgrow : buffer.grow with
    | none => exact ⟨_, rfl⟩
    | some b =>
      have hbytes : b.bytes = buffer.bytes := by
        unfold HeaderBuffer.grow at hgrow
        split at hgrow
        · split at hgrow
          · cases hgrow
          · rw [← Option.some.inj hgrow]
        · rw [← Option.some.inj hgrow]
      have hfirst := hclean [] chunk chunks rfl
      rw [List.nil_append, received_cons, received_nil, List.append_nil] at hfirst
      have hlen' : (buffer.bytes ++ chunk.bytes).length < n := by
        rw [List.length_append] at hlen
        omega
      dsimp only
      rw [hbytes, hfirst hlen', if_neg (by simp)]
      exact ih hlen hclean.tail

/-- The connection fails while bytes are missing. -/
def FailsInBody (failed : Bool) (item : DownloadItem) (chunks : List Chunk) : Prop :=
  failed = true ∧ ∀ read unread, chunks = read ++ unread → read ≠ [] →
    (item.receive (received read)).unfinished = true

theorem receiveBody_result (failed : Bool) : ∀ (chunks : List Chunk) (item : DownloadItem)
    (file : Text), (receiveBody failed item file chunks).result = .noErr ↔
      ¬ FailsInBody failed item chunks := by
  intro chunks
  induction chunks with
  | nil =>
    intro item file
    rw [receiveBody]
    unfold FailsInBody
    cases failed with
    | true =>
      constructor
      · intro h
        cases h
      · intro h
        exfalso
        apply h
        refine ⟨rfl, ?_⟩
        intro read unread heq hread
        exact absurd (List.append_eq_nil_iff.mp heq.symm).1 hread
    | false =>
      constructor
      · intro _ h
        exact Bool.false_ne_true h.1
      · intro _
        rfl
  | cons chunk chunks ih =>
    intro item file
    rw [receiveBody]
    by_cases hmore : (item.receive chunk.bytes).unfinished = true
    · rw [if_pos hmore, ih, not_iff_not]
      unfold FailsInBody
      constructor
      · rintro ⟨hfailed, hmissing⟩
        refine ⟨hfailed, ?_⟩
        intro read unread heq hread
        cases read with
        | nil => exact absurd rfl hread
        | cons first read =>
          obtain ⟨rfl, htail⟩ := List.cons.inj heq
          rw [received_cons, DownloadItem.receive_append]
          by_cases hnil : read = []
          · rw [hnil, received_nil]
            unfold DownloadItem.receive DownloadItem.unfinished at hmore ⊢
            simpa using hmore
          · exact hmissing read unread htail hnil
      · rintro ⟨hfailed, hmissing⟩
        refine ⟨hfailed, ?_⟩
        intro read unread heq hread
        have hcut := hmissing (chunk :: read) unread (by rw [heq]; rfl)
          (List.cons_ne_nil chunk read)
        rwa [received_cons, DownloadItem.receive_append] at hcut
    · rw [if_neg hmore]
      constructor
      · intro _ h
        apply hmore
        have hcut := h.2 [chunk] chunks rfl (List.cons_ne_nil chunk [])
        rwa [received_cons, received_nil, List.append_nil] at hcut
      · intro _
        rfl

/-! ## Where the loop stops -/

/-- The loop reads `read` and leaves `unread`: bytes are missing before each call but the
first, and not after the last one, unless nothing is left. -/
def StopsAfter (item : DownloadItem) (read unread : List Chunk) : Prop :=
  ReadsOn item read ∧
    (unread ≠ [] → read ≠ [] ∧ (item.receive (received read)).unfinished = false)

theorem receive_nil (item : DownloadItem) : item.receive [] = item := by
  unfold DownloadItem.receive
  simp

theorem readsOn_cons {item : DownloadItem} {chunk : Chunk} {chunks : List Chunk}
    (hmore : (item.receive chunk.bytes).unfinished = true)
    (h : ReadsOn (item.receive chunk.bytes) chunks) : ReadsOn item (chunk :: chunks) := by
  intro read unread heq hread hunread
  cases read with
  | nil => exact absurd rfl hread
  | cons first read =>
    obtain ⟨rfl, htail⟩ := List.cons.inj heq
    rw [received_cons, DownloadItem.receive_append]
    by_cases hnil : read = []
    · rw [hnil, received_nil, receive_nil]
      exact hmore
    · exact h read unread htail hnil hunread

/-- The loop stops somewhere, and the file holds what it has read. -/
theorem receiveBody_stops (failed : Bool) : ∀ (chunks : List Chunk) (item : DownloadItem)
    (file : Text), ∃ read unread, chunks = read ++ unread ∧ StopsAfter item read unread ∧
      (receiveBody failed item file chunks).file = some (file ++ received read) := by
  intro chunks
  induction chunks with
  | nil =>
    intro item file
    refine ⟨[], [], rfl, ⟨?_, fun h => absurd rfl h⟩, ?_⟩
    · intro read unread heq hread _
      exact absurd (List.append_eq_nil_iff.mp heq.symm).1 hread
    · rw [received_nil, List.append_nil]
      rfl
  | cons chunk chunks ih =>
    intro item file
    rw [receiveBody]
    by_cases hmore : (item.receive chunk.bytes).unfinished = true
    · rw [if_pos hmore]
      obtain ⟨read, unread, heq, ⟨hreads, hstop⟩, hfile⟩ :=
        ih (item.receive chunk.bytes) (file ++ chunk.bytes)
      refine ⟨chunk :: read, unread, by rw [heq]; rfl, ⟨readsOn_cons hmore hreads, ?_⟩, ?_⟩
      · intro hunread
        refine ⟨List.cons_ne_nil chunk read, ?_⟩
        rw [received_cons, DownloadItem.receive_append]
        exact (hstop hunread).2
      · rw [hfile, received_cons, List.append_assoc]
    · rw [if_neg hmore]
      have hone : received [chunk] = chunk.bytes := by
        rw [received_cons, received_nil, List.append_nil]
      refine ⟨[chunk], chunks, rfl, ⟨?_, ?_⟩, by rw [hone]⟩
      · intro read unread heq hread hunread
        cases read with
        | nil => exact absurd rfl hread
        | cons first read =>
          exact absurd (List.append_eq_nil_iff.mp (List.cons.inj heq).2.symm).2 hunread
      · intro _
        rw [hone]
        exact ⟨List.cons_ne_nil chunk [], Bool.eq_false_iff.mpr hmore⟩

theorem StopsAfter.unique {item : DownloadItem} {read read' unread unread' : List Chunk}
    (h : StopsAfter item read unread) (h' : StopsAfter item read' unread')
    (heq : read ++ unread = read' ++ unread') : read = read' ∧ unread = unread' := by
  -- the one that stops earlier has something missing there
  have key : ∀ {r u more v : List Chunk}, StopsAfter item r (more ++ u) →
      StopsAfter item (r ++ more) v → more = [] := by
    intro r u more v hfirst hlater
    by_contra hmore
    obtain ⟨hr, hdone⟩ := hfirst.2 fun hnil => hmore (List.append_eq_nil_iff.mp hnil).1
    have hmissing := hlater.1 r more rfl hr hmore
    rw [hdone] at hmissing
    exact absurd hmissing nofun
  rcases List.append_eq_append_iff.mp heq with ⟨more, rfl, rfl⟩ | ⟨more, rfl, rfl⟩
  · obtain rfl := key h h'
    exact ⟨(List.append_nil read).symm, rfl⟩
  · obtain rfl := key h' h
    exact ⟨List.append_nil read', rfl⟩

/-! ## When a success is one -/

/-- The item when the loop that receives the body begins. -/
def storedItem (item : DownloadItem) (file : Option Text) (came : Header) : DownloadItem :=
  ((item.request file).accept came).receive came.leftover

/-- The header of the response is received as it was sent; a response that has no end of
the header is not taken for one that has. -/
structure HeaderFaithful (chunks : List Chunk) : Prop where
  complete : ∀ head body, splitResponse (received chunks) = some (head, body) →
    HeaderReceived head chunks
  incomplete : splitResponse (received chunks) = none →
    Unspoilt ((received chunks).length + 1) [] chunks

/-- The call fails on a response: by its status, or as the file cannot be opened, or by the
connection. -/
def Refused (attempt : Attempt) (item : DownloadItem) (file : Option Text) (came : Header)
    (rest : List Chunk) : Prop :=
  came.statusClass = some 52 ∨ came.statusClass = some 53 ∨
    ((came.statusClass = some 49 ∨ came.statusClass = some 50) ∧
      ((∃ errno, attempt.opened = .error errno) ∨
        FailsInBody attempt.failed (storedItem item file came) rest))

/-- `strstr` finds the end of the header, and a partial response goes on where the file ends. -/
def Accurate (item : DownloadItem) (file : Option Text) (head : Text) (came : Header) : Prop :=
  TerminatorFound came head ∧
    ((Header.mk head []).returnCode = 206 →
      (item.request file).bytesReceived.toNat = (file.getD []).length)

/-- The response is successful; where the loop stops as much has come as the header
announces, and without a length all that the server has sent. -/
def Delivered (item : DownloadItem) (file : Option Text) (head : Text) (came : Header)
    (rest : List Chunk) : Prop :=
  head[9]? = some 50 ∧
    ∃ read unread, rest = read ++ unread ∧ StopsAfter (storedItem item file came) read unread ∧
      match contentLength head with
      | some n => (came.bytes.drop head.length ++ received read).length = n
      | none => unread = []

/-- The last call has something to download; and where it gets a response, that is received
as it was sent and is refused or delivered. -/
def SuccessEarned (prefs : DownloadPrefs) (attempt : Attempt) (item : DownloadItem)
    (file : Option Text) : Prop :=
  alreadyThere item file = false ∧
    (Connected prefs attempt item file → HeaderFaithful attempt.chunks ∧
      ∀ head body came rest, splitResponse (received attempt.chunks) = some (head, body) →
        arrive head.length [] attempt.chunks = (came, rest) →
          Refused attempt item file came rest ∨
            (Accurate item file head came ∧ Delivered item file head came rest))

theorem reachHeader_unconnected {prefs : DownloadPrefs} {attempt : Attempt} {item : DownloadItem}
    {file : Option Text} (hfresh : alreadyThere item file = false)
    (h : ¬ Connected prefs attempt item file) :
    ∃ r : Downloaded, reachHeader prefs attempt item file = .error r ∧ r.result ≠ .noErr := by
  unfold reachHeader
  rw [hfresh, if_neg Bool.false_ne_true]
  cases hsource : sourceError prefs item.src with
  | some result => exact ⟨_, rfl, sourceError_ne hsource⟩
  | none =>
    cases hreach : attempt.unreachable with
    | some cause => exact ⟨_, rfl, cause.result_ne⟩
    | none =>
      dsimp only
      by_cases hsent : attempt.sent = true
      · by_cases hmemory : attempt.memory = true
        · exact absurd ⟨hfresh, hsource, hreach, hsent, hmemory⟩ h
        · rw [hsent, Bool.eq_false_iff.mpr hmemory]
          exact ⟨_, rfl, nofun⟩
      · rw [Bool.eq_false_iff.mpr hsent]
        exact ⟨_, rfl, nofun⟩

theorem clientError_ne {item item' : DownloadItem} {came : Header} {result : Error}
    (h : clientError item came = .returned result item') : result ≠ .noErr := by
  rcases clientError_cases item came with ⟨result', hne, -, heq⟩ | heq
  · rw [heq] at h
    rw [← (Answer.returned.inj h).1]
    exact hne
  · rw [heq] at h
    exact absurd h nofun

theorem redirect_not_body {item item' : DownloadItem} {came : Header} {data : Text} :
    redirect item came ≠ .body item' data := by
  unfold redirect
  intro h
  split at h
  · exact absurd h nofun
  · exact absurd h nofun

/-- A redirection that does not lead anywhere is a success. -/
theorem redirect_returned {item item' : DownloadItem} {came : Header} {result : Error}
    (h : redirect item came = .returned result item') : result = .noErr := by
  unfold redirect at h
  split at h
  · exact absurd h nofun
  · exact (Answer.returned.inj h).1.symm

theorem clientError_not_body {item item' : DownloadItem} {came : Header} {data : Text} :
    clientError item came ≠ .body item' data := by
  rcases clientError_cases item came with ⟨result, -, -, heq⟩ | heq
  · rw [heq]
    nofun
  · rw [heq]
    nofun

/-- The file that the loop leaves is whole when it has stopped in the right place, and only
then. -/
theorem wholeFile_iff {attempt : Attempt} {item : DownloadItem} {file : Option Text}
    {head body : Text} {came : Header} {rest : List Chunk}
    (hsplit : splitResponse (received attempt.chunks) = some (head, body))
    (harrive : arrive head.length [] attempt.chunks = (came, rest))
    (hclass : head[9]? = some 50) (haccurate : Accurate item file head came) :
    ((wholeFile attempt item file).isSome = true ∧
      (receiveBody attempt.failed (storedItem item file came)
        (openedFile came file ++ came.leftover) rest).file = wholeFile attempt item file) ↔
      Delivered item file head came rest := by
  obtain ⟨hcut, hall⟩ := arrive_splitResponse hsplit harrive
  have hprefix : head <+: came.bytes := ⟨_, (splitResponse_append_eq hcut).symm⟩
  have hbody : body = came.bytes.drop head.length ++ received rest := by
    have happ := splitResponse_append_eq hcut
    rw [happ, List.append_assoc] at hall
    exact (List.append_cancel_left hall).symm
  have hleft : came.leftover = came.bytes.drop head.length :=
    (leftover_eq_iff hcut).mpr haccurate.1
  have hopened : resumedFrom item file head = some (openedFile came file) := by
    unfold resumedFrom openedFile
    rw [returnCode_eq hprefix hclass (by decide) (splitResponse_getLast hcut)]
    by_cases hcode : (Header.mk head []).returnCode = 206
    · rw [if_pos hcode, if_neg (not_not_intro hcode)]
      have hoffset := haccurate.2 hcode
      dsimp only
      rw [hoffset, if_pos (Nat.le_refl _), List.take_length]
    · rw [if_neg hcode, if_pos hcode]
  have hwhole : wholeFile attempt item file =
      (entity head body).map (openedFile came file ++ ·) := by
    unfold wholeFile
    rw [hsplit]
    dsimp only
    rw [if_pos hclass, hopened]
    cases entity head body with
    | none => rfl
    | some data => rfl
  obtain ⟨read, unread, hrest, hstop, hfile⟩ := receiveBody_stops attempt.failed rest
    (storedItem item file came) (openedFile came file ++ came.leftover)
  -- the bytes that are stored are the first of the body
  have hcutBody : body = (came.bytes.drop head.length ++ received read) ++ received unread := by
    rw [hbody, hrest, received_append, List.append_assoc]
  have hdelivered : Delivered item file head came rest ↔
      match contentLength head with
      | some n => (came.bytes.drop head.length ++ received read).length = n
      | none => unread = [] := by
    constructor
    · rintro ⟨-, read', unread', hrest', hstop', h⟩
      obtain ⟨rfl, rfl⟩ := hstop.unique hstop' (hrest ▸ hrest')
      exact h
    · intro h
      exact ⟨hclass, read, unread, hrest, hstop, h⟩
  rw [hdelivered, hwhole, hfile, hleft, List.append_assoc]
  unfold entity
  cases contentLength head with
  | none =>
    dsimp only
    rw [Option.map_some, Option.some.injEq, List.append_cancel_left_eq, hcutBody]
    constructor
    · rintro ⟨-, h⟩
      have hnil : received unread = [] := by
        have h' := List.append_cancel_left ((List.append_nil _).trans h)
        exact h'.symm
      by_contra hne
      exact received_ne_nil hne hnil
    · rintro rfl
      rw [received_nil, List.append_nil]
      exact ⟨rfl, rfl⟩
  | some n =>
    dsimp only
    by_cases hn : n ≤ body.length
    · rw [if_pos hn, Option.map_some, Option.some.injEq, List.append_cancel_left_eq]
      constructor
      · rintro ⟨-, h⟩
        rw [h, List.length_take_of_le hn]
      · intro h
        refine ⟨rfl, ?_⟩
        rw [hcutBody, List.take_append_of_le_length (Nat.le_of_eq h.symm), ← h, List.take_length]
    · rw [if_neg hn]
      constructor
      · rintro ⟨h, -⟩
        exact absurd h nofun
      · intro h
        exfalso
        apply hn
        rw [hcutBody, List.length_append, h]
        exact Nat.le_add_right _ _

section Received

variable {prefs : DownloadPrefs} {attempt : Attempt} {item : DownloadItem} {file : Option Text}
  {came : Header} {rest : List Chunk} {r : Downloaded}

theorem refused_store_iff (hstore : came.statusClass = some 49 ∨ came.statusClass = some 50) :
    Refused attempt item file came rest ↔ (∃ errno, attempt.opened = .error errno) ∨
      FailsInBody attempt.failed (storedItem item file came) rest := by
  have hne : ∀ c : UInt8, c ≠ 49 → c ≠ 50 → came.statusClass ≠ some c := by
    rintro c h49 h50 hc
    rcases hstore with h | h
    · exact h49 (Option.some.inj (hc.symm.trans h))
    · exact h50 (Option.some.inj (hc.symm.trans h))
  constructor
  · rintro (h | h | ⟨-, h⟩)
    · exact absurd h (hne 52 (by decide) (by decide))
    · exact absurd h (hne 53 (by decide) (by decide))
    · exact h
  · intro h
    exact .inr (.inr ⟨hstore, h⟩)

theorem refused_other_iff (hstore : ¬ (came.statusClass = some 49 ∨ came.statusClass = some 50)) :
    Refused attempt item file came rest ↔
      came.statusClass = some 52 ∨ came.statusClass = some 53 := by
  constructor
  · rintro (h | h | ⟨h, -⟩)
    · exact .inl h
    · exact .inr h
    · exact absurd h hstore
  · rintro (h | h)
    · exact .inl h
    · exact .inr (.inl h)

theorem downloadOnce_store
    (hreach : reachHeader prefs attempt item file = .ok (item.request file, came, rest))
    (hstore : came.statusClass = some 49 ∨ came.statusClass = some 50)
    (honce : downloadOnce prefs attempt item file = .ok r) :
    Refused attempt item file came rest ∧ r.result ≠ .noErr ∨
      ¬ Refused attempt item file came rest ∧ r.result = .noErr ∧
        r.file = (receiveBody attempt.failed (storedItem item file came)
          (openedFile came file ++ came.leftover) rest).file := by
  unfold downloadOnce at honce
  rw [hreach] at honce
  dsimp only at honce
  rw [answer_store hstore] at honce
  unfold store at honce
  rw [refused_store_iff hstore]
  cases hopened : attempt.opened with
  | error errno =>
    rw [hopened] at honce
    obtain rfl := Except.ok.inj honce
    exact .inl ⟨.inl ⟨errno, rfl⟩, errno.result_ne⟩
  | ok u =>
    rw [hopened] at honce
    obtain rfl := Except.ok.inj honce
    have hresult := receiveBody_result attempt.failed rest (storedItem item file came)
      (openedFile came file ++ came.leftover)
    by_cases hfails : FailsInBody attempt.failed (storedItem item file came) rest
    · exact .inl ⟨.inr hfails, fun hok => hresult.mp hok hfails⟩
    · refine .inr ⟨?_, hresult.mpr hfails, rfl⟩
      rintro (⟨errno, h⟩ | h)
      · exact absurd h nofun
      · exact hfails h

theorem downloadOnce_other
    (hreach : reachHeader prefs attempt item file = .ok (item.request file, came, rest))
    (hstore : ¬ (came.statusClass = some 49 ∨ came.statusClass = some 50))
    (honce : downloadOnce prefs attempt item file = .ok r) :
    Refused attempt item file came rest ∧ r.result ≠ .noErr ∨
      ¬ Refused attempt item file came rest ∧ r.result = .noErr := by
  unfold downloadOnce at honce
  rw [hreach] at honce
  dsimp only at honce
  rw [refused_other_iff hstore]
  cases hanswer : answer attempt.opened (item.request file) file came with
  | body item' data =>
    exfalso
    unfold answer at hanswer
    split at hanswer
    · exact hstore (.inl ‹_›)
    · exact hstore (.inr ‹_›)
    · exact redirect_not_body hanswer
    · exact clientError_not_body hanswer
    · exact absurd hanswer nofun
    · exact absurd hanswer nofun
  | again item' =>
    rw [hanswer] at honce
    exact absurd honce nofun
  | returned result item' =>
    rw [hanswer] at honce
    obtain rfl := Except.ok.inj honce
    dsimp only
    unfold answer at hanswer
    split at hanswer
    · exact absurd (.inl ‹_›) hstore
    · exact absurd (.inr ‹_›) hstore
    · rename_i hclass
      -- a redirection without a place to go to
      right
      rw [hclass]
      exact ⟨by decide, redirect_returned hanswer⟩
    · rename_i hclass
      exact .inl ⟨.inl hclass, clientError_ne hanswer⟩
    · rename_i hclass
      obtain ⟨rfl, -⟩ := Answer.returned.inj hanswer
      exact .inl ⟨.inr hclass, nofun⟩
    · rename_i h49 h50 h51 h52 h53
      right
      obtain ⟨rfl, -⟩ := Answer.returned.inj hanswer
      refine ⟨?_, rfl⟩
      rintro (h | h)
      · exact h52 h
      · exact h53 h

/-- What a call of `Download` returns when it has received the header. -/
theorem downloadOnce_received {head body : Text} (hconnected : Connected prefs attempt item file)
    (hsplit : splitResponse (received attempt.chunks) = some (head, body))
    (harrive : arrive head.length [] attempt.chunks = (came, rest))
    (hheader : HeaderReceived head attempt.chunks)
    (honce : downloadOnce prefs attempt item file = .ok r) :
    Refused attempt item file came rest ∧ r.result ≠ .noErr ∨
      ¬ Refused attempt item file came rest ∧ r.result = .noErr ∧
        ((came.statusClass = some 49 ∨ came.statusClass = some 50) ∧
          r.file = (receiveBody attempt.failed (storedItem item file came)
            (openedFile came file ++ came.leftover) rest).file ∨
        came.statusClass ≠ some 50) := by
  have hreach := reachHeader_received hconnected hsplit harrive hheader
  by_cases hstore : came.statusClass = some 49 ∨ came.statusClass = some 50
  · rcases downloadOnce_store hreach hstore honce with hrefused | ⟨hnot, hok, hfile⟩
    · exact .inl hrefused
    · exact .inr ⟨hnot, hok, .inl ⟨hstore, hfile⟩⟩
  · rcases downloadOnce_other hreach hstore honce with hrefused | ⟨hnot, hok⟩
    · exact .inl hrefused
    · exact .inr ⟨hnot, hok, .inr fun h => hstore (.inr h)⟩

end Received

/-- A call that reports a success has received a response. -/
theorem response_of_noErr {prefs : DownloadPrefs} {attempt : Attempt} {item : DownloadItem}
    {file : Option Text} {r : Downloaded} (hconnected : Connected prefs attempt item file)
    (hfaithful : HeaderFaithful attempt.chunks)
    (honce : downloadOnce prefs attempt item file = .ok r) (hok : r.result = .noErr) :
    ∃ head body came rest, splitResponse (received attempt.chunks) = some (head, body) ∧
      arrive head.length [] attempt.chunks = (came, rest) := by
  cases hsplit : splitResponse (received attempt.chunks) with
  | some split => exact ⟨split.1, split.2, _, _, rfl, rfl⟩
  | none =>
    exfalso
    have hlen : (HeaderBuffer.new.bytes ++ received attempt.chunks).length <
        (received attempt.chunks).length + 1 := Nat.lt_succ_self _
    obtain ⟨err, herr⟩ := receiveHeader_of_unspoilt hlen (hfaithful.incomplete hsplit)
    unfold downloadOnce at honce
    rw [reachHeader_eq hconnected, herr] at honce
    obtain rfl := Except.ok.inj honce
    exact receiveHeader_error_ne herr hok

instance (prefs : DownloadPrefs) (attempt : Attempt) (item : DownloadItem) (file : Option Text)
    (r : Downloaded) : Decidable (WholeEntity prefs attempt item file r) :=
  inferInstanceAs (Decidable (_ ∧ _ ∧ _))

end FreeAmp.Base
