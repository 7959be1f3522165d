/-
  Aps/HttpWrite.lean --- a request as `base/aps/comhttpsocket.cpp` writes it to a
  `COMSocket`.

      requestLength    what the buffer has room for, and how much of it is sent
      sends_iff        the request is sent, and nothing else, with eight digits

  The length of the request is the length of its format: four conversions of two
  characters are counted, and the digits of the length are not.
-/
import FreeAmp.Base.Database
import FreeAmp.Lib.Memory

namespace FreeAmp.Aps

open FreeAmp.Base FreeAmp.Lib

/-! ## `COMSocket::Write` -/

/-- How a call of `send` ends. -/
inductive Sent where
  /-- it returns -1, and `errno` is `EINTR` -/
  | interrupted
  /-- it returns -1 -/
  | failed
  /-- it takes at most that many bytes -/
  | accepted (n : Nat)
  deriving DecidableEq, Repr

/-- `COMSocket::Write` on a connected socket: whether it returns 0, and how many of the
`nLen` bytes have been accepted; `none` while the calls of `send` are interrupted. -/
def sockWrite (nLen : Nat) : List Sent → Option (Bool × Nat)
  | [] => none
  | .interrupted :: sends => sockWrite nLen sends
  | .failed :: _ => some (false, 0)
  | .accepted n :: _ => some (true, min n nLen)

/-! ## `COMHTTPSocket::Write` -/

/-- What is written: `m_pFile`, `m_hostname` and `g_strCOMVer`, and the bytes of `pBuffer`,
whose number is an `int`. -/
structure Post where
  file : Text
  hostname : Text
  comVer : Text
  body : Text
  nLen_lt : body.length < 2147483648

namespace Post

/-- The format of the header. -/
def pRequest : Text :=
  bytes "POST %s HTTP/1.0\r\n" ++ bytes "Host: %s\r\n" ++ bytes "Accept: */*\r\n" ++
    bytes "User-Agent: %s\r\n" ++ bytes "Content-type: application/octet-stream\r\n" ++
    bytes "Content-length: %d\r\n"

variable (post : Post)

/-- `sprintf(pReq, pRequest, m_pFile, m_hostname, g_strCOMVer, nLen)` -/
def printed : Text :=
  bytes "POST " ++ cStr post.file ++ bytes " HTTP/1.0\r\n" ++ bytes "Host: " ++
    cStr post.hostname ++ bytes "\r\n" ++ bytes "Accept: */*\r\n" ++ bytes "User-Agent: " ++
    cStr post.comVer ++ bytes "\r\n" ++ bytes "Content-type: application/octet-stream\r\n" ++
    bytes "Content-length: " ++ showNat post.body.length ++ bytes "\r\n"

/-- The request: the header with the empty line, and the body. -/
def request : Text := post.printed ++ bytes "\r\n" ++ post.body

def requestLength : Int :=
  Int.bmod ((pRequest.length + (cStr post.file).length + (cStr post.hostname).length +
    (cStr post.comVer).length + post.body.length + 2 : Nat) : Int) (2 ^ 32)

/-- What a call of `Write` does. -/
structure Writing where
  /-- the size of the buffer -/
  size : Nat
  /-- the end of what `sprintf`, `strcat` and `memcpy` write -/
  written : Nat
  /-- what the socket is handed -/
  handed : Text
  /-- how many bytes of it are accepted, and whether 0 is returned; `none` in `send` -/
  result : Option (Bool × Nat)

/-- `sprintf`, `strcat(pReq, "\r\n")` and `memcpy(pReq + strlen(pReq), pBuffer, nLen)` -/
def filled (mem : Memory UInt8) : Memory UInt8 :=
  ((mem.store 0 (post.printed ++ [0])).store (cStr post.printed).length (bytes "\r\n" ++ [0])).store
    (cStr (post.printed ++ bytes "\r\n")).length post.body

/-- The end of what they write. -/
def written : Nat :=
  let place := (cStr (post.printed ++ bytes "\r\n")).length
  max (place + 1) (place + post.body.length)

/-- `COMHTTPSocket::Write` on a connected socket; there is no buffer of a negative size. -/
def write (mem : Memory UInt8) (sends : List Sent) : Option Writing :=
  if post.requestLength < 0 then none
  else
    let nReqLen := post.requestLength.toNat
    some ⟨nReqLen, post.written, (post.filled mem).slice 0 nReqLen, sockWrite nReqLen sends⟩

/-- `*pnBytesWritten` after it. -/
def nBytesWritten (w : Writing) : Nat :=
  match w.result with
  | some (true, nBytes) => if nBytes = w.size then post.body.length else 0
  | _ => 0

/-- The socket is handed the request, the buffer has room for it, and with 0 all of it has
been accepted. -/
def Sends (mem : Memory UInt8) (sends : List Sent) : Prop :=
  ∃ w, post.write mem sends = some w ∧ w.handed = post.request ∧ w.written ≤ w.size ∧
    ∀ nBytes, w.result = some (true, nBytes) → w.handed.take nBytes = post.request

end Post

/-- `send` takes a part of the `nLen` bytes only. -/
def PartSent (nLen : Nat) (sends : List Sent) : Prop :=
  ∃ n, (sends.dropWhile (· = .interrupted)).head? = some (.accepted n) ∧ n < nLen

theorem partSent_or (nLen : Nat) (sends : List Sent) : PartSent nLen sends ∨
    ∀ nBytes, sockWrite nLen sends = some (true, nBytes) → nBytes = nLen := by
  induction sends with
  | nil => exact .inr fun nBytes h => nomatch h
  | cons sent sends ih =>
    cases sent with
    | interrupted => exact ih
    | failed => exact .inr fun nBytes h => nomatch h
    | accepted n =>
      by_cases hn : n < nLen
      · exact .inl ⟨n, rfl, hn⟩
      · refine .inr fun nBytes h => ?_
        have heq : min n nLen = nBytes := congrArg Prod.snd (Option.some.inj h)
        omega

theorem sockWrite_of_partSent {nLen : Nat} {sends : List Sent} (h : PartSent nLen sends) :
    ∃ nBytes < nLen, sockWrite nLen sends = some (true, nBytes) := by
  obtain ⟨n, hhead, hn⟩ := h
  induction sends with
  | nil => exact nomatch hhead
  | cons sent sends ih =>
    cases sent with
    | interrupted => exact ih hhead
    | failed => exact nomatch hhead
    | accepted m =>
      obtain rfl : m = n := by simpa using hhead
      exact ⟨min m nLen, by omega, rfl⟩

namespace Post

variable (post : Post)

/-! ## How long the request is -/

theorem length_request : post.request.length + 8 =
    pRequest.length + (cStr post.file).length + (cStr post.hostname).length +
      (cStr post.comVer).length + post.body.length + 2 + (showNat post.body.length).length := by
  have hformat : pRequest.length = 117 := rfl
  have hpost : (bytes "POST ").length = 5 := rfl
  have hversion : (bytes " HTTP/1.0\r\n").length = 11 := rfl
  have hhost : (bytes "Host: ").length = 6 := rfl
  have haccept : (bytes "Accept: */*\r\n").length = 13 := rfl
  have hagent : (bytes "User-Agent: ").length = 12 := rfl
  have htype : (bytes "Content-type: application/octet-stream\r\n").length = 40 := rfl
  have hlength : (bytes "Content-length: ").length = 16 := rfl
  have hline : (bytes "\r\n").length = 2 := rfl
  unfold request printed
  simp only [List.length_append, hformat, hpost, hversion, hhost, haccept, hagent, htype, hlength,
    hline]
  omega

/-- The length that is computed is the length of the request just with eight digits. -/
theorem requestLength_eq_iff : post.requestLength = post.request.length ↔
    (showNat post.body.length).length = 8 ∧ post.request.length < 2147483648 := by
  have hlen := post.length_request
  have hbody := post.nLen_lt
  have hdigits : (showNat post.body.length).length ≤ 10 :=
    (length_showNat_le_iff (by decide)).mpr (by omega)
  unfold requestLength
  rw [Int.bmod_def]
  omega

theorem digits_iff : (showNat post.body.length).length = 8 ↔
    10000000 ≤ post.body.length ∧ post.body.length < 100000000 := by
  have hseven := @length_showNat_le_iff post.body.length 7 (by decide)
  have height := @length_showNat_le_iff post.body.length 8 (by decide)
  omega

/-! ## What is sent -/

theorem nulFree_printed : NulFree post.printed := by
  unfold printed
  repeat' refine NulFree.append ?_ ?_
  all_goals first | exact nulFree_cStr _ | exact nulFree_showNat _ | decide

theorem slice_store_nul {mem : Memory UInt8} {s : Text} (t : Text)
    (h : mem.slice 0 s.length = s) :
    (mem.store s.length (t ++ [0])).slice 0 (s ++ t).length = s ++ t := by
  have hall := congrArg (List.take (s ++ t).length) (Memory.slice_store_append (t ++ [0]) h)
  rwa [Memory.take_slice _ _ (by simp), ← List.append_assoc, List.take_left, Nat.zero_add] at hall

theorem slice_header (mem : Memory UInt8) :
    ((mem.store 0 (post.printed ++ [0])).store post.printed.length (bytes "\r\n" ++ [0])).slice 0
      (post.printed ++ bytes "\r\n").length = post.printed ++ bytes "\r\n" :=
  slice_store_nul _ (@slice_store_nul mem [] post.printed rfl)

theorem cStr_printed : cStr (post.printed ++ bytes "\r\n") = post.printed ++ bytes "\r\n" :=
  (post.nulFree_printed.append (by decide)).cStr_eq

theorem slice_filled (mem : Memory UInt8) :
    (post.filled mem).slice 0 post.request.length = post.request := by
  unfold filled
  rw [post.nulFree_printed.cStr_eq, post.cStr_printed]
  have hbody := Memory.slice_store_append post.body (post.slice_header mem)
  rwa [Nat.zero_add] at hbody

theorem written_le (h : 0 < post.body.length) : post.written ≤ post.request.length := by
  unfold written request
  rw [post.cStr_printed, @List.length_append _ _ post.body]
  dsimp only
  omega

theorem write_of_nonneg (mem : Memory UInt8) (sends : List Sent) (h : ¬ post.requestLength < 0) :
    post.write mem sends = some ⟨post.requestLength.toNat, post.written,
      (post.filled mem).slice 0 post.requestLength.toNat,
      sockWrite post.requestLength.toNat sends⟩ := by
  unfold write
  exact if_neg h

/-- What is handed over, when it is as long as the request. -/
theorem write_eq (mem : Memory UInt8) (sends : List Sent)
    (hlength : post.requestLength = post.request.length) :
    post.write mem sends = some ⟨post.request.length, post.written, post.request,
      sockWrite post.request.length sends⟩ := by
  rw [post.write_of_nonneg mem sends (by omega), hlength, Int.toNat_natCast, post.slice_filled]

theorem requestLength_of_sends {mem : Memory UInt8} {sends : List Sent} (h : post.Sends mem sends) :
    post.requestLength = post.request.length := by
  obtain ⟨w, hwrite, hhanded, -⟩ := h
  have hnonneg : ¬ post.requestLength < 0 := by
    intro hneg
    unfold write at hwrite
    rw [if_pos hneg] at hwrite
    cases hwrite
  rw [post.write_of_nonneg mem sends hnonneg] at hwrite
  obtain rfl := Option.some.inj hwrite
  dsimp only at hhanded
  have hlength : post.requestLength.toNat = post.request.length :=
    (Memory.length_slice (post.filled mem) 0 _).symm.trans (congrArg List.length hhanded)
  omega

/-- The request is sent, and nothing else, just when its length has eight digits and `send`
does not take a part of it. -/
theorem sends_iff (mem : Memory UInt8) (sends : List Sent) : post.Sends mem sends ↔
    (10000000 ≤ post.body.length ∧ post.body.length < 100000000) ∧
      post.request.length < 2147483648 ∧ ¬ PartSent post.request.length sends := by
  rw [← digits_iff, ← and_assoc, ← requestLength_eq_iff]
  constructor
  · intro h
    have hlength := post.requestLength_of_sends h
    obtain ⟨w, hwrite, -, -, haccepted⟩ := h
    refine ⟨hlength, fun hpart => ?_⟩
    obtain ⟨nBytes, hlt, hsock⟩ := sockWrite_of_partSent hpart
    obtain rfl := Option.some.inj (hwrite.symm.trans (post.write_eq mem sends hlength))
    have htake := congrArg List.length (haccepted nBytes hsock)
    rw [List.length_take] at htake
    omega
  · rintro ⟨hlength, hpart⟩
    have hbody := ((post.digits_iff).mp ((post.requestLength_eq_iff).mp hlength).1).1
    refine ⟨_, post.write_eq mem sends hlength, rfl, post.written_le (by omega), ?_⟩
    intro nBytes hsock
    rw [((partSent_or _ sends).resolve_left hpart) nBytes hsock, List.take_length]

/-- Without a body, seven bytes more than the request are sent. -/
theorem sends_fails : ¬ ∀ (post : Post) (mem : Memory UInt8) (sends : List Sent),
    post.Sends mem sends := by
  intro hall
  have hlength := requestLength_of_sends _
    (hall ⟨bytes "/yp", bytes "localhost", bytes "1.0", [], by decide⟩ (fun _ => 0) [])
  exact absurd ((requestLength_eq_iff _).mp hlength).1 (by decide)

end Post

end FreeAmp.Aps
