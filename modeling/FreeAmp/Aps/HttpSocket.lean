/-
  Aps/HttpSocket.lean --- the response to a request as `base/aps/comhttpsocket.cpp` reads
  it from a `COMSocket`.

  `NBRead` receives into a buffer of 1023 bytes until the header is complete, and hands out
  the body from the byte on that `strstr` leads to; what is left of the buffer is kept for
  `Read`, which goes on with the socket.  The two agree on the end of the header exactly
  when it is a `"\r\n\r\n"`; and the loop of `NBRead` ends without a header only when the
  first call of `recv` fills the buffer.

  A server that neither sends nor closes is left out: `poll` gives up on it in `NBRead`,
  and `recv` waits for it in `Read`.
-/
import FreeAmp.Base.DownloadSplits

namespace FreeAmp.Aps

open FreeAmp.Base FreeAmp.Lib

/-! ## The socket -/

/-- A connected `COMSocket`: what the server has still to say, how the connection ends
after it, and how many bytes each call of `recv` can have. -/
structure Sock where
  stream : Text
  /-- the connection is reset, and not closed -/
  reset : Bool
  /-- at most `chunks n + 1` bytes are there for the call `n` -/
  chunks : Nat → Nat
  calls : Nat

namespace Sock

/-- `recv`, where -1 is `none`. -/
def recv (sock : Sock) (nLen : Nat) : Option (Text × Sock) :=
  if nLen ≠ 0 ∧ sock.stream = [] ∧ sock.reset = true then none
  else
    let n := min nLen (sock.chunks sock.calls + 1)
    some (sock.stream.take n,
      { sock with stream := sock.stream.drop n, calls := sock.calls + 1 })

end Sock

/-- What a call of `Read` does: whether it returns 0, what it puts into `pBuffer`, and what
it leaves in `*nBytesWritten`. -/
structure Reading where
  ok : Bool
  bytes : Text
  nBytesWritten : Nat
  deriving DecidableEq, Repr

/-- `COMSocket::Read`: an error leaves `*nBytesWritten` as it was. -/
def Sock.read (sock : Sock) (nLen nBytesWritten : Nat) : Reading × Sock :=
  match sock.recv nLen with
  | some (bytes, sock) => (⟨true, bytes, bytes.length⟩, sock)
  | none => (⟨false, [], nBytesWritten⟩, sock)

/-! ## `COMHTTPSocket` -/

/-- `m_pSock`, and `m_pTempBuf` with its `m_nBufLen` bytes. -/
structure HttpSocket where
  sock : Sock
  tempBuf : Option Text

/-- How a call of `NBRead` goes wrong. -/
inductive Failure where
  /-- it returns -1 -/
  | error
  /-- the bytes behind a null pointer are read -/
  | fault
  deriving DecidableEq, Repr

namespace HttpSocket

/-- `Connect`: nothing of an earlier response is kept. -/
def connect (stream : Text) (reset : Bool) (chunks : Nat → Nat) : HttpSocket :=
  ⟨⟨stream, reset, chunks, 0⟩, none⟩

/-- `while(!IsHTTPHeaderComplete(HeaderBuffer, nTotal) && ...)`, which goes on as long as
there is fuel.  Behind what has come `HeaderBuffer` holds zeros. -/
def fillHeaderBuffer : Nat → Text → Sock → Option (Except Failure (Text × Sock))
  | 0, _, _ => none
  | fuel + 1, total, sock =>
    if isHTTPHeaderComplete total [] = true ∨ 1023 < total.length then some (.ok (total, sock))
    else
      match sock.recv (1023 - total.length) with
      | none => some (.error .error)
      | some (bytes, sock) => fillHeaderBuffer fuel (total ++ bytes) sock

/-- `NBRead` once the header is complete: what is put into `pBuffer`. -/
def deliver (h : HttpSocket) (total : Text) (sock : Sock) (nLen : Nat) :
    Except Failure (Text × HttpSocket) :=
  match strstr total "\r\n\r\n" with
  | none => .error .fault
  | some place =>
    let data := total.drop (place + 4)
    if nLen ≤ data.length then
      .ok (data.take nLen,
        ⟨sock, if nLen < data.length then some (data.drop nLen) else h.tempBuf⟩)
    else
      match sock.recv (nLen - data.length) with
      | none => .error .error
      | some (bytes, sock) => .ok (data ++ bytes, ⟨sock, h.tempBuf⟩)

def nbRead (fuel nLen : Nat) (h : HttpSocket) :
    Option (Except Failure (Text × HttpSocket)) :=
  match h.sock.recv 1023 with
  | none => some (.error .error)
  | some (total, sock) =>
    if isHTTPHeaderComplete total [] = true then some (h.deliver total sock nLen)
    else if total.length = 1023 then some (.error .error)
    else
      match fillHeaderBuffer fuel total sock with
      | none => none
      | some (.error failure) => some (.error failure)
      | some (.ok (total, sock)) =>
        if isHTTPHeaderComplete total [] = true then some (h.deliver total sock nLen)
        else some (.error .error)

def read (h : HttpSocket) (nLen nBytesWritten : Nat) : Reading × HttpSocket :=
  match h.tempBuf with
  | some left =>
    if nLen ≤ left.length then
      (⟨true, left.take nLen, nLen⟩,
        ⟨h.sock, if nLen < left.length then some (left.drop nLen) else none⟩)
    else
      let (r, sock) := h.sock.read (nLen - left.length) left.length
      (⟨r.ok, left ++ r.bytes, r.nBytesWritten + left.length⟩, ⟨sock, none⟩)
  | none =>
    let (r, sock) := h.sock.read nLen nBytesWritten
    (r, ⟨sock, none⟩)

/-- Calls of `Read` of these sizes, one after the other, with one `nBytesWritten`. -/
def reads : Nat → List Nat → HttpSocket → List Reading × HttpSocket
  | _, [], h => ([], h)
  | nBytesWritten, nLen :: sizes, h =>
    let (r, h) := h.read nLen nBytesWritten
    let (rs, h) := reads r.nBytesWritten sizes h
    (r :: rs, h)

/-! ## What is still to be read -/

/-- The bytes that no call has handed out. -/
def left (h : HttpSocket) : Text := h.tempBuf.getD [] ++ h.sock.stream

end HttpSocket

theorem Sock.recv_cases (sock : Sock) (nLen : Nat) :
    (sock.recv nLen = none ∧ nLen ≠ 0 ∧ sock.stream = [] ∧ sock.reset = true) ∨
    ∃ sock', sock.recv nLen =
        some (sock.stream.take (min nLen (sock.chunks sock.calls + 1)), sock') ∧
      sock'.stream = sock.stream.drop (min nLen (sock.chunks sock.calls + 1)) ∧
      sock'.reset = sock.reset := by
  unfold recv
  split
  · rename_i hreset
    exact .inl ⟨rfl, hreset⟩
  · exact .inr ⟨_, rfl, rfl, rfl⟩

namespace HttpSocket

/-- A call of `Read` that returns 0 and takes what it hands out from what is left. -/
structure ReadsOff (h : HttpSocket) (nLen : Nat) (r : Reading) (h' : HttpSocket) : Prop where
  ok : r.ok = true
  count : r.nBytesWritten = r.bytes.length
  split : r.bytes ++ h'.left = h.left
  bound : r.bytes.length ≤ nLen
  progress : 0 < nLen → r.bytes = [] → h.left = []

/-- A call of `Read` returns 0 unless it meets a reset with bytes still to be read. -/
theorem read_of_open {h : HttpSocket} {nLen : Nat}
    (hopen : h.sock.reset = false ∨ nLen ≤ h.left.length) (nBytesWritten : Nat) :
    ReadsOff h nLen (h.read nLen nBytesWritten).1 (h.read nLen nBytesWritten).2 ∧
      (h.read nLen nBytesWritten).2.sock.reset = h.sock.reset := by
  unfold read
  cases htemp : h.tempBuf with
  | none =>
    rcases h.sock.recv_cases nLen with ⟨-, hpos, hnil, hreset⟩ | ⟨sock, hrecv, hstream, hsame⟩
    · simp [left, htemp, hnil, hreset] at hopen
      exact absurd hopen hpos
    · simp only [Sock.read, hrecv]
      refine ⟨⟨rfl, rfl, ?_, ?_, ?_⟩, hsame⟩
      · simp [left, htemp, hstream]
      · rw [List.length_take]
        omega
      · intro hlen hnil
        rw [List.take_eq_nil_iff] at hnil
        rcases hnil with hzero | hnil
        · omega
        · simp [left, htemp, hnil]
  | some kept =>
    simp only
    split
    · rename_i hle
      refine ⟨⟨rfl, ?_, ?_, ?_, ?_⟩, rfl⟩
      · exact (List.length_take_of_le hle).symm
      · by_cases hlt : nLen < kept.length
        · simp [left, htemp, hlt, ← List.append_assoc]
        · have hall : kept.take nLen = kept := List.take_of_length_le (by omega)
          simp [left, htemp, hlt, hall]
      · exact List.length_take_le _ _
      · intro hlen hnil
        rw [List.take_eq_nil_iff] at hnil
        rcases hnil with hzero | hnil
        · omega
        · simp [hnil] at hle
          omega
    · rename_i hlt
      rcases h.sock.recv_cases (nLen - kept.length) with
        ⟨-, hpos, hnil, hreset⟩ | ⟨sock, hrecv, hstream, hsame⟩
      · simp [left, htemp, hnil, hreset] at hopen
        omega
      · simp only [Sock.read, hrecv]
        refine ⟨⟨rfl, ?_, ?_, ?_, ?_⟩, hsame⟩
        · simp only [List.length_append]
          omega
        · simp [left, htemp, hstream]
        · simp only [List.length_append, List.length_take]
          omega
        · intro hlen hnil
          rw [List.append_eq_nil_iff, List.take_eq_nil_iff] at hnil
          obtain ⟨hkept, hzero | hnil⟩ := hnil
          · omega
          · simp [left, htemp, hnil, hkept]

theorem read_of_close {h : HttpSocket} (hreset : h.sock.reset = false)
    (nLen nBytesWritten : Nat) :
    ReadsOff h nLen (h.read nLen nBytesWritten).1 (h.read nLen nBytesWritten).2 ∧
      (h.read nLen nBytesWritten).2.sock.reset = false := by
  obtain ⟨hread, hsame⟩ := read_of_open (.inl hreset) nBytesWritten
  exact ⟨hread, hsame.trans hreset⟩

theorem reads_of_close : ∀ {sizes : List Nat} {h : HttpSocket} (nBytesWritten : Nat),
    h.sock.reset = false →
      (∀ r ∈ (reads nBytesWritten sizes h).1, r.ok = true ∧ r.nBytesWritten = r.bytes.length) ∧
      ((reads nBytesWritten sizes h).1.map Reading.bytes).flatten ++
        (reads nBytesWritten sizes h).2.left = h.left ∧
      (reads nBytesWritten sizes h).2.sock.reset = false := by
  intro sizes
  induction sizes with
  | nil =>
    intro h _ hreset
    exact ⟨nofun, rfl, hreset⟩
  | cons nLen sizes ih =>
    intro h nBytesWritten hreset
    obtain ⟨hread, hclose⟩ := read_of_close hreset nLen nBytesWritten
    obtain ⟨hall, hsplit, hend⟩ :=
      ih (h.read nLen nBytesWritten).1.nBytesWritten hclose
    refine ⟨?_, ?_, hend⟩
    · intro r hr
      rcases List.mem_cons.mp hr with rfl | hr
      · exact ⟨hread.ok, hread.count⟩
      · exact hall r hr
    · simp only [reads, List.map_cons, List.flatten_cons, List.append_assoc]
      rw [hsplit, hread.split]

/-! ## The calls that fill the buffer -/

section Header

variable (stream : Text) (reset : Bool) (chunks : Nat → Nat)

/-- How many bytes are in `HeaderBuffer` after `n` calls of `recv`, of a response of
`length` bytes. -/
def came (length : Nat) (chunks : Nat → Nat) : Nat → Nat
  | 0 => 0
  | n + 1 =>
    came length chunks n +
      min (min (1023 - came length chunks n) (chunks n + 1)) (length - came length chunks n)

/-- What is in `HeaderBuffer` after `n` calls. -/
def headerBuffer (n : Nat) : Text := stream.take (came stream.length chunks n)

/-- The socket after `n` calls. -/
def sockAfter (n : Nat) : Sock :=
  ⟨stream.drop (came stream.length chunks n), reset, chunks, n⟩

variable {stream reset chunks}

theorem came_le (chunks : Nat → Nat) (length n : Nat) :
    came length chunks n ≤ 1023 ∧ came length chunks n ≤ length := by
  induction n with
  | zero => exact ⟨Nat.zero_le _, Nat.zero_le _⟩
  | succ n ih => rw [came]; omega

/-- A call brings something as long as there is room and the response goes on. -/
theorem came_lt_succ {length n : Nat} (hroom : came length chunks n < 1023)
    (hmore : came length chunks n < length) :
    came length chunks n < came length chunks (n + 1) := by
  rw [came]
  omega

theorem length_headerBuffer (n : Nat) :
    (headerBuffer stream chunks n).length = came stream.length chunks n := by
  rw [headerBuffer, List.length_take_of_le (came_le chunks stream.length n).2]

/-- The bytes up to the end of what `n + 1` calls bring, where the end of the response does
not matter. -/
theorem min_came_succ (n : Nat) :
    min (came stream.length chunks (n + 1)) stream.length =
      min (came stream.length chunks n + min (1023 - came stream.length chunks n) (chunks n + 1))
        stream.length := by
  have hle := came_le chunks stream.length n
  rw [came]
  omega

/-- The call after `n` others brings the bytes that follow. -/
theorem recv_sockAfter {n : Nat}
    (h : came stream.length chunks n = 1023 ∨ came stream.length chunks n < stream.length ∨
      reset = false) :
    ∃ bytes, (sockAfter stream reset chunks n).recv
        (1023 - (headerBuffer stream chunks n).length) =
          some (bytes, sockAfter stream reset chunks (n + 1)) ∧
      headerBuffer stream chunks n ++ bytes = headerBuffer stream chunks (n + 1) := by
  have hle := came_le chunks stream.length n
  rw [length_headerBuffer]
  refine ⟨(stream.drop (came stream.length chunks n)).take
    (min (1023 - came stream.length chunks n) (chunks n + 1)), ?_, ?_⟩
  · rw [Sock.recv, if_neg]
    · have hdrop : stream.drop (came stream.length chunks n +
          min (1023 - came stream.length chunks n) (chunks n + 1)) =
            stream.drop (came stream.length chunks (n + 1)) := by
        rw [List.drop_eq_drop_min, ← min_came_succ, ← List.drop_eq_drop_min]
      simp only [sockAfter, List.drop_drop, hdrop]
    · simp only [sockAfter, List.drop_eq_nil_iff]
      rintro ⟨hne, hnil, hreset⟩
      rcases h with h | h | h
      · omega
      · omega
      · simp [h] at hreset
  · rw [headerBuffer, headerBuffer, ← List.take_add, List.take_eq_take_iff]
    exact (min_came_succ n).symm

theorem complete_headerBuffer {head body : Text}
    (hsplit : splitResponse stream = some (head, body)) (n : Nat) :
    isHTTPHeaderComplete (headerBuffer stream chunks n) [] = true ↔
      head.length ≤ came stream.length chunks n := by
  rw [headerBuffer, complete_take_iff, hsplit]
  constructor
  · rintro ⟨head', body', heq, hle⟩
    obtain ⟨rfl, rfl⟩ := Prod.mk.inj (Option.some.inj heq)
    exact hle
  · intro hle
    exact ⟨head, body, rfl, hle⟩

/-! ## The loop of `NBRead` -/

theorem fillHeaderBuffer_mono : ∀ {fuel : Nat} {total : Text} {sock : Sock}
    {r : Except Failure (Text × Sock)}, fillHeaderBuffer fuel total sock = some r →
      ∀ more, fillHeaderBuffer (fuel + more) total sock = some r := by
  intro fuel
  induction fuel with
  | zero => intro total sock r h; exact absurd h nofun
  | succ fuel ih =>
    intro total sock r h more
    rw [Nat.succ_add, fillHeaderBuffer]
    rw [fillHeaderBuffer] at h
    split at h
    · rename_i hend
      rw [if_pos hend, h]
    · rename_i hgoes
      rw [if_neg hgoes]
      cases hrecv : sock.recv (1023 - total.length) with
      | none => rwa [hrecv] at h
      | some got =>
        rw [hrecv] at h
        exact ih h more

/-- The result of `NBRead` does not depend on how long one waits for it. -/
theorem nbRead_mono {fuel nLen : Nat} {h : HttpSocket}
    {r : Except Failure (Text × HttpSocket)} (hr : nbRead fuel nLen h = some r) (more : Nat) :
    nbRead (fuel + more) nLen h = some r := by
  unfold nbRead at hr ⊢
  cases hrecv : h.sock.recv 1023 with
  | none => rwa [hrecv] at hr
  | some got =>
    simp only [hrecv] at hr ⊢
    split
    · rename_i hcomplete
      rwa [if_pos hcomplete] at hr
    · rename_i hcomplete
      rw [if_neg hcomplete] at hr
      split
      · rename_i hfull
        rwa [if_pos hfull] at hr
      · rename_i hfull
        rw [if_neg hfull] at hr
        cases hfill : fillHeaderBuffer fuel got.1 got.2 with
        | none =>
          rw [hfill] at hr
          exact absurd hr nofun
        | some filled =>
          rw [fillHeaderBuffer_mono hfill more]
          rwa [hfill] at hr

theorem nbRead_unique {fuel fuel' nLen : Nat} {h : HttpSocket}
    {r r' : Except Failure (Text × HttpSocket)} (hr : nbRead fuel nLen h = some r)
    (hr' : nbRead fuel' nLen h = some r') : r = r' := by
  have hfar := nbRead_mono hr fuel'
  have hfar' := nbRead_mono hr' fuel
  rw [Nat.add_comm, hfar] at hfar'
  exact Option.some.inj hfar'

theorem fillHeaderBuffer_step {fuel n : Nat}
    (hopen : isHTTPHeaderComplete (headerBuffer stream chunks n) [] ≠ true)
    (h : came stream.length chunks n = 1023 ∨ came stream.length chunks n < stream.length ∨
      reset = false) :
    fillHeaderBuffer (fuel + 1) (headerBuffer stream chunks n) (sockAfter stream reset chunks n) =
      fillHeaderBuffer fuel (headerBuffer stream chunks (n + 1))
        (sockAfter stream reset chunks (n + 1)) := by
  obtain ⟨got, hrecv, happ⟩ := recv_sockAfter h
  have hle := came_le chunks stream.length n
  rw [fillHeaderBuffer, if_neg, hrecv]
  · simp only [happ]
  · rw [length_headerBuffer]
    rintro (hcomplete | hover)
    · exact hopen hcomplete
    · omega

/-- The header is complete after `n` calls and not before. -/
structure CompleteAfter (stream : Text) (chunks : Nat → Nat) (head : Text) (n : Nat) : Prop where
  pos : 1 ≤ n
  reached : head.length ≤ came stream.length chunks n
  before : ∀ i, 1 ≤ i → i < n → came stream.length chunks i < head.length

theorem came_ge (chunks : Nat → Nat) (length n : Nat) :
    min n (min 1023 length) ≤ came length chunks n := by
  induction n with
  | zero => simp
  | succ n ih => rw [came]; omega

theorem CompleteAfter.unique {head : Text} {n n' : Nat} (h : CompleteAfter stream chunks head n)
    (h' : CompleteAfter stream chunks head n') : n = n' := by
  rcases Nat.lt_trichotomy n n' with hlt | heq | hlt
  · have hbefore := h'.before n h.pos hlt
    have hreached := h.reached
    omega
  · exact heq
  · have hbefore := h.before n' h'.pos hlt
    have hreached := h'.reached
    omega

theorem exists_completeAfter {head : Text} (hfit : head.length ≤ 1023)
    (hlen : head.length ≤ stream.length) : ∃ n, CompleteAfter stream chunks head n := by
  have hexists : ∃ n, 1 ≤ n ∧ head.length ≤ came stream.length chunks n := by
    have hge := came_ge chunks stream.length (head.length + 1)
    exact ⟨head.length + 1, by omega, by omega⟩
  have hspec := Nat.find_spec hexists
  refine ⟨Nat.find hexists, hspec.1, hspec.2, ?_⟩
  intro i hpos hi
  have hmin := Nat.find_min hexists hi
  by_contra hle
  exact hmin ⟨hpos, by omega⟩

/-- The loop ends with the call that completes the header. -/
theorem fillHeaderBuffer_complete {head body : Text}
    (hsplit : splitResponse stream = some (head, body)) : ∀ {d n fuel : Nat},
      head.length ≤ came stream.length chunks (n + d) →
      (∀ i, n ≤ i → i < n + d → came stream.length chunks i < head.length) →
        fillHeaderBuffer (fuel + d + 1) (headerBuffer stream chunks n)
          (sockAfter stream reset chunks n) =
            some (.ok (headerBuffer stream chunks (n + d),
              sockAfter stream reset chunks (n + d))) := by
  intro d
  induction d with
  | zero =>
    intro n fuel hreached _
    rw [fillHeaderBuffer, if_pos (.inl ((complete_headerBuffer hsplit n).mpr hreached))]
    rfl
  | succ d ih =>
    intro n fuel hreached hbefore
    have hopen := hbefore n (Nat.le_refl n) (by omega)
    have hlen := congrArg List.length (splitResponse_append_eq hsplit)
    rw [List.length_append] at hlen
    rw [← Nat.add_assoc fuel d 1, fillHeaderBuffer_step]
    · have hnext := @ih (n + 1) fuel (by rwa [Nat.add_assoc, Nat.add_comm 1 d])
        (fun i hi hlt => hbefore i (by omega) (by omega))
      rwa [Nat.add_assoc n 1 d, Nat.add_comm 1 d] at hnext
    · rw [ne_eq, complete_headerBuffer hsplit]
      omega
    · omega

/-- A response whose header fits into the buffer is handed out from the buffer in which the
header is complete. -/
theorem nbRead_eq_deliver {head body : Text} {n : Nat}
    (hsplit : splitResponse stream = some (head, body)) (hfit : head.length ≤ 1023)
    (hn : CompleteAfter stream chunks head n) (fuel nLen : Nat) :
    nbRead (fuel + n) nLen (connect stream reset chunks) =
      some ((connect stream reset chunks).deliver (headerBuffer stream chunks n)
        (sockAfter stream reset chunks n) nLen) := by
  have hlen := congrArg List.length (splitResponse_append_eq hsplit)
  have hhead : 0 < head.length := by
    have hnot : ¬ head.length ≤ came stream.length chunks 0 := by
      rw [← complete_headerBuffer hsplit]
      simp [headerBuffer, came, isHTTPHeaderComplete]
    rw [came] at hnot
    omega
  rw [List.length_append] at hlen
  obtain ⟨got, hrecv, happ⟩ := @recv_sockAfter stream reset chunks 0
    (.inr (.inl (by rw [came]; omega)))
  have hzero : headerBuffer stream chunks 0 = [] := by simp [headerBuffer, came]
  have hsock : sockAfter stream reset chunks 0 = (connect stream reset chunks).sock := by
    simp [sockAfter, came, connect]
  rw [hzero, hsock] at hrecv
  rw [hzero, List.nil_append] at happ
  subst happ
  rw [List.length_nil, Nat.sub_zero] at hrecv
  unfold nbRead
  simp only [hrecv]
  obtain ⟨d, rfl⟩ : ∃ d, n = 1 + d := ⟨n - 1, by have := hn.pos; omega⟩
  cases d with
  | zero => rw [if_pos ((complete_headerBuffer hsplit 1).mpr hn.reached)]
  | succ d =>
    have hfirst := hn.before 1 (Nat.le_refl 1) (by omega)
    have hfill := @fillHeaderBuffer_complete stream reset chunks _ _ hsplit _ _ fuel hn.reached
      (fun i hi hlt => hn.before i hi hlt)
    have hdone := (@complete_headerBuffer _ chunks _ _ hsplit (1 + (d + 1))).mpr hn.reached
    have hopen : ¬ isHTTPHeaderComplete (headerBuffer stream chunks 1) [] = true := by
      rw [complete_headerBuffer hsplit]
      omega
    have hroom : ¬ (headerBuffer stream chunks 1).length = 1023 := by
      rw [length_headerBuffer]
      omega
    rw [if_neg hopen, if_neg hroom,
      show fuel + (1 + (d + 1)) = fuel + (d + 1) + 1 by omega, hfill]
    simp only [hdone, if_true]

/-! ## Without a header -/

/-- The response up to the end of its header and behind it, when the header fits into
`HeaderBuffer`. -/
def response (stream : Text) : Option (Text × Text) :=
  (splitResponse stream).filter fun r => decide (r.1.length ≤ 1023)

theorem response_eq_some {head body : Text} :
    response stream = some (head, body) ↔
      splitResponse stream = some (head, body) ∧ head.length ≤ 1023 := by
  simp [response, Option.filter_eq_some_iff]

theorem headerBuffer_open (h : response stream = none) (n : Nat) :
    ¬ isHTTPHeaderComplete (headerBuffer stream chunks n) [] = true := by
  rw [headerBuffer, complete_take_iff]
  rintro ⟨head, body, hsplit, hle⟩
  have hfit := (came_le chunks stream.length n).1
  rw [response_eq_some.mpr ⟨hsplit, by omega⟩] at h
  exact absurd h nofun

/-- Where the loop never ends: the header is not complete, and `recv` always returns 0 or
more. -/
theorem fillHeaderBuffer_loops (h : response stream = none)
    (hrecv : reset = false ∨ 1023 ≤ stream.length) : ∀ (fuel n : Nat),
      fillHeaderBuffer fuel (headerBuffer stream chunks n) (sockAfter stream reset chunks n) =
        none := by
  intro fuel
  induction fuel with
  | zero => intro n; rfl
  | succ fuel ih =>
    intro n
    have hle := came_le chunks stream.length n
    rw [fillHeaderBuffer_step (headerBuffer_open h n), ih]
    by_cases hroom : came stream.length chunks n = 1023
    · exact .inl hroom
    · rcases hrecv with hclose | hlong
      · exact .inr (.inr hclose)
      · exact .inr (.inl (by omega))

theorem fillHeaderBuffer_reset (h : response stream = none) (hshort : stream.length < 1023) :
    ∀ (k n : Nat), stream.length - came stream.length chunks n ≤ k →
      ∃ fuel, fillHeaderBuffer fuel (headerBuffer stream chunks n)
        (sockAfter stream true chunks n) = some (.error .error) := by
  intro k
  induction k with
  | zero =>
    intro n hk
    have hle := came_le chunks stream.length n
    refine ⟨1, ?_⟩
    rw [fillHeaderBuffer, if_neg, Sock.recv, if_pos]
    · rw [length_headerBuffer]
      refine ⟨by omega, ?_, rfl⟩
      exact List.drop_eq_nil_iff.mpr (by omega)
    · rw [length_headerBuffer]
      rintro (hcomplete | hover)
      · exact headerBuffer_open h n hcomplete
      · omega
  | succ k ih =>
    intro n hk
    by_cases hend : stream.length - came stream.length chunks n ≤ k
    · exact ih n hend
    · have hle := came_le chunks stream.length n
      have hlt : came stream.length chunks n < came stream.length chunks (n + 1) :=
        came_lt_succ (by omega) (by omega)
      obtain ⟨fuel, hfuel⟩ := ih (n + 1) (by omega)
      refine ⟨fuel + 1, ?_⟩
      rw [fillHeaderBuffer_step (headerBuffer_open h n) (.inr (.inl (by omega))), hfuel]

/-- The first call of `recv`, which can fill the buffer. -/
theorem nbRead_eq_fill (h : response stream = none) (hrecv : reset = false ∨ stream ≠ [])
    (fuel nLen : Nat) :
    nbRead fuel nLen (connect stream reset chunks) =
      if came stream.length chunks 1 = 1023 then some (.error .error)
      else
        match fillHeaderBuffer fuel (headerBuffer stream chunks 1)
          (sockAfter stream reset chunks 1) with
        | none => none
        | some (.error failure) => some (.error failure)
        | some (.ok (total, sock)) =>
          if isHTTPHeaderComplete total [] = true then
            some ((connect stream reset chunks).deliver total sock nLen)
          else some (.error .error) := by
  have hzero : headerBuffer stream chunks 0 = [] := by simp [headerBuffer, came]
  have hsock : sockAfter stream reset chunks 0 = (connect stream reset chunks).sock := by
    simp [sockAfter, came, connect]
  obtain ⟨got, hgot, happ⟩ := @recv_sockAfter stream reset chunks 0 (by
      rcases hrecv with hclose | hsome
      · exact .inr (.inr hclose)
      · exact .inr (.inl (List.length_pos_iff.mpr hsome)))
  rw [hzero, hsock, List.length_nil, Nat.sub_zero] at hgot
  rw [hzero, List.nil_append] at happ
  subst happ
  unfold nbRead
  simp only [hgot]
  rw [if_neg (headerBuffer_open h 1), length_headerBuffer]

theorem came_one (chunks : Nat → Nat) (length : Nat) :
    came length chunks 1 = min (min 1023 (chunks 0 + 1)) length := by
  rw [came, came]
  omega

end Header

/-! ## Handing out the body -/

/-- What `NBRead` and `Read` hand out follows the terminator that was found; `NBRead` returns
-1 when the connection is reset before it has all that it is asked for. -/
theorem deliver_found {kept : HttpSocket} {total : Text} {sock : Sock} {place : Nat}
    (hkept : kept.tempBuf = none) (hplace : strstr total "\r\n\r\n" = some place)
    (nLen : Nat) :
    (kept.deliver total sock nLen = .error .error ∧ (total.drop (place + 4)).length < nLen ∧
      sock.stream = [] ∧ sock.reset = true) ∨
    ∃ first h, kept.deliver total sock nLen = .ok (first, h) ∧
      first ++ h.left = total.drop (place + 4) ++ sock.stream ∧
      first.length = min nLen ((total.drop (place + 4)).length +
        min (sock.chunks sock.calls + 1) sock.stream.length) ∧
      h.sock.reset = sock.reset := by
  unfold deliver
  simp only [hplace]
  generalize total.drop (place + 4) = data
  split
  · rename_i hle
    refine .inr ⟨_, _, rfl, ?_, ?_, rfl⟩
    · by_cases hlt : nLen < data.length
      · simp [left, hlt, ← List.append_assoc]
      · have hall : data.take nLen = data := List.take_of_length_le (by omega)
        simp [left, hlt, hall, hkept]
    · rw [List.length_take]
      omega
  · rename_i hlt
    rcases Sock.recv_cases sock (nLen - data.length) with
      ⟨hrecv, -, hnil, hreset⟩ | ⟨sock', hrecv, hstream, hreset⟩
    · rw [hrecv]
      exact .inl ⟨rfl, by omega, hnil, hreset⟩
    · rw [hrecv]
      refine .inr ⟨_, _, rfl, ?_, ?_, hreset⟩
      · simp [left, hstream, hkept]
      · rw [List.length_append, List.length_take]
        omega

/-- What a run of calls of `Read` after an `NBRead` that handed out `first` shows of the
body: every call returns 0; the bytes are those of the body in their order, and what has
not been handed out is left; and a call that hands out nothing finds nothing left. -/
structure HandsOut (body first : Text) (run : List Reading × HttpSocket) : Prop where
  ok : ∀ r ∈ run.1, r.ok = true ∧ r.nBytesWritten = r.bytes.length
  inOrder : first ++ (run.1.map Reading.bytes).flatten ++ run.2.left = body
  bound : ∀ nLen nBytesWritten, (run.2.read nLen nBytesWritten).1.bytes.length ≤ nLen
  progress : ∀ nLen nBytesWritten, 0 < nLen →
    (run.2.read nLen nBytesWritten).1.bytes = [] → run.2.left = []

/-- `NBRead` returns and hands out the body, with whatever calls of `Read` come next. -/
def DeliversBody (stream : Text) (chunks : Nat → Nat) (nLen : Nat) (body : Text) : Prop :=
  ∃ fuel first h, nbRead fuel nLen (connect stream false chunks) = some (.ok (first, h)) ∧
    first.length ≤ nLen ∧
      ∀ nBytesWritten sizes, HandsOut body first (reads nBytesWritten sizes h)

/-- A response that is closed after its last byte is read as it should be: its body when the
header fits, and else -1 from `NBRead`. -/
def ReadsResponse (stream : Text) (chunks : Nat → Nat) (nLen : Nat) : Prop :=
  match response stream with
  | some (_, body) => DeliversBody stream chunks nLen body
  | none => ∃ fuel, nbRead fuel nLen (connect stream false chunks) = some (.error .error)

/-- The header is ended by `"\r\n\r\n"` and has no NUL, or the first call of `recv` fills
the buffer without a header. -/
def Readable (stream : Text) (chunks : Nat → Nat) : Prop :=
  match response stream with
  | some (head, _) => bytes "\r\n\r\n" <:+ head ∧ NulFree head
  | none => 1023 ≤ stream.length ∧ 1023 ≤ chunks 0 + 1

/-- What has come is the header and the start of the body. -/
theorem splitResponse_headerBuffer {stream head body : Text} {chunks : Nat → Nat} {n : Nat}
    (hsplit : splitResponse stream = some (head, body))
    (hn : head.length ≤ came stream.length chunks n) :
    splitResponse (headerBuffer stream chunks n) =
        some (head, (headerBuffer stream chunks n).drop head.length) ∧
      (headerBuffer stream chunks n).drop head.length ++
        stream.drop (came stream.length chunks n) = body := by
  have hwhole : headerBuffer stream chunks n ++ stream.drop (came stream.length chunks n) =
      stream := List.take_append_drop _ _
  have hstart := hsplit
  rw [← hwhole] at hstart
  have hcame := splitResponse_of_append hstart (by rwa [length_headerBuffer])
  have hgrown := splitResponse_append hcame (stream.drop (came stream.length chunks n))
  rw [hstart] at hgrown
  exact ⟨hcame, (Prod.mk.inj (Option.some.inj hgrown)).2.symm⟩

theorem delivers_of_found {stream head body : Text} {chunks : Nat → Nat}
    (hsplit : splitResponse stream = some (head, body)) (hfit : head.length ≤ 1023)
    (hend : bytes "\r\n\r\n" <:+ head ∧ NulFree head) (nLen : Nat) :
    DeliversBody stream chunks nLen body := by
  have hlen := congrArg List.length (splitResponse_append_eq hsplit)
  rw [List.length_append] at hlen
  obtain ⟨n, hn⟩ := @exists_completeAfter stream chunks _ hfit (by omega)
  obtain ⟨hcame, hbody⟩ := splitResponse_headerBuffer hsplit hn.reached
  obtain ⟨place, hplace, hat⟩ := (firstPlace_crlf_iff hcame).mpr hend
  have hread := @nbRead_eq_deliver stream false chunks _ _ _ hsplit hfit hn 0 nLen
  rcases @deliver_found (connect stream false chunks) _ (sockAfter stream false chunks n) _ rfl
      hplace nLen with ⟨-, -, -, hbad⟩ | ⟨first, h, hdeliver, hall, hcount, hclose⟩
  · exact absurd hbad nofun
  · rw [hat] at hall hcount
    refine ⟨0 + n, first, h, by rw [hread, hdeliver], by omega, ?_⟩
    intro nBytesWritten sizes
    obtain ⟨hok, hsplits, hend'⟩ :=
      @reads_of_close sizes h nBytesWritten hclose
    refine ⟨hok, ?_, ?_, ?_⟩
    · rw [List.append_assoc, hsplits, hall]
      exact hbody
    · intro size nBytesWritten'
      exact (read_of_close hend' size nBytesWritten').1.bound
    · intro size nBytesWritten'
      exact (read_of_close hend' size nBytesWritten').1.progress

theorem found_of_delivers {stream head body : Text} {chunks : Nat → Nat}
    (hsplit : splitResponse stream = some (head, body)) (hfit : head.length ≤ 1023)
    {nLen : Nat} (h : DeliversBody stream chunks nLen body) :
    bytes "\r\n\r\n" <:+ head ∧ NulFree head := by
  have hlen := congrArg List.length (splitResponse_append_eq hsplit)
  rw [List.length_append] at hlen
  obtain ⟨n, hn⟩ := @exists_completeAfter stream chunks _ hfit (by omega)
  obtain ⟨hcame, hbody⟩ := splitResponse_headerBuffer hsplit hn.reached
  have hread := @nbRead_eq_deliver stream false chunks _ _ _ hsplit hfit hn 0 nLen
  obtain ⟨fuel, first, h, hreturn, -, hrun⟩ := h
  have hdeliver := nbRead_unique hread hreturn
  have hall := (hrun 0 []).inOrder
  simp only [reads, List.map_nil, List.flatten_nil, List.append_nil] at hall
  cases hplace : strstr (headerBuffer stream chunks n) "\r\n\r\n" with
  | none =>
    -- the null pointer is read
    simp only [deliver, hplace] at hdeliver
    cases hdeliver
  | some place =>
    have hlate := firstPlace_crlf_late hcame hplace
    have hroom := firstPlace_length hplace (by decide)
    have hfour : (bytes "\r\n\r\n").length = 4 := by simp [bytes]
    have hstr : (cStr (headerBuffer stream chunks n)).length ≤
        (headerBuffer stream chunks n).length := (List.takeWhile_prefix _).length_le
    refine (firstPlace_crlf_iff hcame).mp ⟨place, hplace, ?_⟩
    rcases @deliver_found (connect stream false chunks) _ (sockAfter stream false chunks n) _ rfl
        hplace nLen with ⟨-, -, -, hbad⟩ | ⟨first', h', hdeliver', hall', -, -⟩
    · cases hbad
    · rw [hdeliver'] at hdeliver
      obtain ⟨rfl, rfl⟩ := Prod.mk.inj (Except.ok.inj hdeliver)
      rw [hall', ← hbody] at hall
      have hsame := congrArg List.length (List.append_cancel_right hall)
      rw [List.length_drop, List.length_drop] at hsame
      omega

/-- Where `NBRead` gives up a response without a header: the first call of `recv` fills the
buffer, or the connection is reset. -/
def GivesUp (stream : Text) (reset : Bool) (chunks : Nat → Nat) : Prop :=
  (1023 ≤ stream.length ∧ 1023 ≤ chunks 0 + 1) ∨ (reset = true ∧ stream.length < 1023)

/-- `NBRead` without a header returns -1 where it gives up, and else it never returns. -/
theorem nbRead_without_header {stream : Text} {reset : Bool} {chunks : Nat → Nat}
    (h : response stream = none) (nLen : Nat) :
    ((∃ fuel, nbRead fuel nLen (connect stream reset chunks) = some (.error .error)) ↔
        GivesUp stream reset chunks) ∧
      (¬ GivesUp stream reset chunks →
        ∀ fuel, nbRead fuel nLen (connect stream reset chunks) = none) := by
  have hloops : ¬ GivesUp stream reset chunks →
      ∀ fuel, nbRead fuel nLen (connect stream reset chunks) = none := by
    intro hnot fuel
    unfold GivesUp at hnot
    have hends : reset = false ∨ 1023 ≤ stream.length := by
      cases reset with
      | false => exact .inl rfl
      | true => exact .inr (by by_contra hlt; exact hnot (.inr ⟨rfl, by omega⟩))
    have hrecv : reset = false ∨ stream ≠ [] := by
      refine hends.imp_right ?_
      rintro hlen rfl
      exact absurd hlen (by simp)
    rw [nbRead_eq_fill h hrecv, came_one, if_neg (by omega), fillHeaderBuffer_loops h hends]
  refine ⟨⟨?_, ?_⟩, hloops⟩
  · rintro ⟨fuel, hreturn⟩
    by_contra hnot
    rw [hloops hnot fuel] at hreturn
    exact absurd hreturn nofun
  · rintro (⟨hlong, hfirst⟩ | ⟨rfl, hshort⟩)
    · refine ⟨0, ?_⟩
      have hsome : stream ≠ [] := by
        rintro rfl
        exact absurd hlong (by simp)
      rw [nbRead_eq_fill h (.inr hsome), came_one, if_pos (by omega)]
    · by_cases hnil : stream = []
      · subst hnil
        exact ⟨0, rfl⟩
      · obtain ⟨fuel, hfuel⟩ := @fillHeaderBuffer_reset _ chunks h hshort _ 1 (Nat.le_refl _)
        refine ⟨fuel, ?_⟩
        rw [nbRead_eq_fill h (.inr hnil), came_one, if_neg (by omega), hfuel]

/-- A response is read as it should be exactly when its header is ended by `"\r\n\r\n"` and
has no NUL in it, or fills the buffer with the first call of `recv`. -/
theorem nbRead_reads_response (stream : Text) (chunks : Nat → Nat) (nLen : Nat) :
    ReadsResponse stream chunks nLen ↔ Readable stream chunks := by
  unfold ReadsResponse Readable
  cases hresponse : response stream with
  | none =>
    dsimp only
    rw [(nbRead_without_header hresponse nLen).1, GivesUp]
    simp
  | some r =>
    obtain ⟨head, body⟩ := r
    obtain ⟨hsplit, hfit⟩ := response_eq_some.mp hresponse
    constructor
    · intro hdelivers
      exact found_of_delivers hsplit hfit hdelivers
    · intro hend
      exact delivers_of_found hsplit hfit hend nLen

/-- A response that accepts the other terminator is not read. -/
theorem lf_response_faults :
    ¬ ReadsResponse (bytes "HTTP/1.0 200 OK\n\nbody") (fun _ => 4095) 4 := by
  intro h
  have hresponse : response (bytes "HTTP/1.0 200 OK\n\nbody") =
      some (bytes "HTTP/1.0 200 OK\n\n", bytes "body") := by decide
  rw [ReadsResponse, hresponse] at h
  have hend := found_of_delivers (response_eq_some.mp hresponse).1
    (response_eq_some.mp hresponse).2 h
  exact absurd hend (by decide)

end HttpSocket

end FreeAmp.Aps
