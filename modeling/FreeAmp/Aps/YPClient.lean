/-
  Aps/YPClient.lean --- the replies that `GeneratePlayList`, `GetGUID` and `GetStreams` of
  `base/aps/YPClient.cpp` read.

  A reply is five bytes (a status and a length) and as many bytes as the length says, which
  are decoded.  The three functions differ in the decoder only.  Modelled is what happens
  after `Connect` and `Write`: the request and the result of `Write` are not read, and a
  call that cannot connect returns -1.
-/
import FreeAmp.Aps.Convert
import FreeAmp.Aps.HttpSocket

namespace FreeAmp.Aps

open FreeAmp.Base FreeAmp.Lib

/-! ## When the decoders stay within the reply -/

/-- How many strings end behind an offset. -/
def terminatorsFrom (buf : List UInt8) (nOffset : Nat) : Nat := (buf.drop nOffset).count 0

theorem spends_string : Spends readString terminatorsFrom 1 := by
  intro buf nOffset
  constructor
  · intro hsome
    have hmem : 0 ∈ buf.drop nOffset := List.count_pos_iff.mp hsome
    refine ⟨_, _, by rw [readString, if_pos hmem], ?_⟩
    obtain ⟨s, t, hst, hs⟩ := List.eq_append_cons_of_mem hmem
    have hend : cStr (buf.drop nOffset) = s := by
      rw [hst, cStr_append hs, cStr_cons_zero, List.append_nil]
    have hrest : buf.drop (nOffset + s.length + 1) = t := by
      rw [Nat.add_assoc, ← List.drop_drop, hst]
      simp
    rw [terminatorsFrom, terminatorsFrom, hend, hrest, hst, List.count_append,
      List.count_eq_zero.mpr hs, List.count_cons_self, Nat.zero_add]
  · intro hshort
    refine ⟨.overread, ?_⟩
    rw [readString, if_neg]
    intro hmem
    have hpos := List.count_pos_iff.mpr hmem
    unfold terminatorsFrom at hshort
    omega

theorem spends_pair : Spends readPair terminatorsFrom 2 :=
  spends_string.bind (g := fun strOne buf nOffset =>
    readString buf nOffset >>= fun r => .ok ((strOne, r.1), r.2)) fun strOne =>
      spends_string.map (strOne, ·)

/-- The number of entries that a message begins with. -/
def nNumEntries (buf : List UInt8) : Nat :=
  (toLong (UInt32.ofNat (ofLittle (buf.take sizeofInt)))).toNat

/-- The number of entries is there, and behind it two strings end for each of them. -/
def EntriesInside (buf : List UInt8) : Prop :=
  sizeofInt ≤ buf.length ∧ nNumEntries buf * 2 ≤ (buf.drop sizeofInt).count 0

theorem readEntries_ok_iff (buf : List UInt8) :
    (∃ r, (do
      let (n, nOffset) ← readCount buf 0
      readMany readPair n buf nOffset) = .ok r) ↔ EntriesInside buf := by
  unfold EntriesInside
  by_cases hroom : sizeofInt ≤ buf.length
  · have hcount : readCount buf 0 = .ok (nNumEntries buf, sizeofInt) := by
      rw [readCount, readNumber, if_pos (by omega)]
      simp [ok_bind, nNumEntries]
    simp only [hcount, ok_bind]
    rw [(spends_pair.many (nNumEntries buf)).ok_iff buf sizeofInt]
    simp [terminatorsFrom, hroom]
  · have hcount : readCount buf 0 = .error .overread := by
      rw [readCount, readNumber, if_neg (by omega)]
      rfl
    rw [hcount]
    constructor
    · rintro ⟨r, hr⟩
      cases hr
    · rintro ⟨hlen, -⟩
      exact absurd hlen hroom

/-! ## The client -/

def statusSuccess : UInt8 := 88

/-- How a call ends when it ends. -/
inductive Ending (α : Type) where
  /-- it returns, and leaves the result in the list or the string it was given -/
  | returned (nRes : Int) (result : α)
  /-- bytes outside of a buffer are read or written, or there is no buffer of the size -/
  | fault

namespace YPClient

/-- `while((nOffset < nBufLen) && (nRes != -1))`, which goes on as long as there is fuel:
the bytes of the buffer that `Read` has put there.  A call that returns 0 counts them. -/
def receiveReply : Nat → Nat → Text → Nat → HttpSocket → Option Text
  | 0, _, _, _, _ => none
  | fuel + 1, nBufLen, received, nBytes, h =>
    if received.length < nBufLen then
      let (r, h) := h.read (nBufLen - received.length) nBytes
      if r.ok then receiveReply fuel nBufLen (received ++ r.bytes) r.nBytesWritten h
      else some (received ++ r.bytes)
    else some received

/-- The buffer of `nBufLen + 1` bytes: what was received, what the memory held before, and
the NUL. -/
def replyBuffer (heap : Nat → UInt8) (nBufLen : Nat) (received : Text) : Text :=
  received ++ (List.range' received.length (nBufLen - received.length)).map heap ++ [0]

section Reply

variable {α : Type} (decode : Text → Except ReadFault α) (result : α) (heap : Nat → UInt8)

/-- What follows the `NBRead` of the first five bytes. -/
def answer (fuel : Nat) : Except Failure (Text × HttpSocket) → Option (Ending α)
  | .error .fault => some .fault
  | .error .error => some (.returned (-1) result)
  | .ok (header, h) =>
    if header.length = 1 + sizeofInt ∧ header.head? = some statusSuccess then
      let nBufLen := toLong (UInt32.ofNat (ofLittle (header.drop 1)))
      if nBufLen = 0 then some (.returned 0 result)
      -- `new char[nBufLen+1]`, and `pBuffer[nBufLen] = '\0'` before it for -1
      else if nBufLen < 0 ∨ nBufLen = 2147483647 then some .fault
      else
        match receiveReply fuel nBufLen.toNat [] (1 + sizeofInt) h with
        | none => none
        | some received =>
          match decode (replyBuffer heap nBufLen.toNat received) with
          | .error _ => some .fault
          | .ok result => some (.returned 0 result)
    else some (.returned (-1) result)

/-- A call from the `NBRead` on. -/
def receive (fuel : Nat) (h : HttpSocket) : Option (Ending α) :=
  (h.nbRead fuel (1 + sizeofInt)).bind (answer decode result heap fuel)

end Reply

/-- `FromBuffer(ResultList, pBuffer, nTemp)` of `GeneratePlayList` -/
def decodePlayList (resultList : APSPlaylist) (pBuffer : Text) : Except ReadFault APSPlaylist :=
  (resultList.fromBuffer pBuffer).map Prod.fst

/-- `strGUID = &pBuffer[0]` -/
def decodeGUID (pBuffer : Text) : Except ReadFault Text := (readString pBuffer 0).map Prod.fst

/-- `FromBuffer(ResultList, pBuffer, nTemp)` of `GetStreams` -/
def decodeStreams (resultList : StreamList) (pBuffer : Text) : Except ReadFault StreamList :=
  (fromBufferStreams resultList pBuffer).map Prod.fst

def generatePlayList (resultList : APSPlaylist) (heap : Nat → UInt8) (fuel : Nat)
    (h : HttpSocket) : Option (Ending APSPlaylist) :=
  receive (decodePlayList resultList) resultList heap fuel h

def getGUID (strGUID : Text) (heap : Nat → UInt8) (fuel : Nat) (h : HttpSocket) :
    Option (Ending Text) :=
  receive decodeGUID strGUID heap fuel h

def getStreams (resultList : StreamList) (heap : Nat → UInt8) (fuel : Nat) (h : HttpSocket) :
    Option (Ending StreamList) :=
  receive (decodeStreams resultList) resultList heap fuel h

/-! ## The reply that a server sends -/

/-- The header of the response is complete after `n` calls of `recv`, and the terminator that
`NBRead` looks for is at `place` of what has come. -/
structure Stripped (stream : Text) (chunks : Nat → Nat) (n place : Nat) : Prop where
  complete : ∃ head body, HttpSocket.response stream = some (head, body) ∧
    HttpSocket.CompleteAfter stream chunks head n
  found : strstr (HttpSocket.headerBuffer stream chunks n) "\r\n\r\n" = some place

/-- The length that five bytes of a reply announce when their status is a success. -/
def announced (payload : Text) : Option Int :=
  if 1 + sizeofInt ≤ payload.length ∧ payload.head? = some statusSuccess then
    some (toLong (UInt32.ofNat (ofLittle ((payload.drop 1).take sizeofInt))))
  else none

/-- The bytes of a reply behind the first five. -/
def replyBytes (payload : Text) (nBufLen : Nat) : Text :=
  (payload.drop (1 + sizeofInt)).take nBufLen

section Reply

variable {α : Type} (decode : Text → Except ReadFault α) (result : α)

/-- All bytes that the reply announces are there, and `got` is what they say. -/
def Complete (payload : Text) (got : α) : Prop :=
  ∃ nBufLen : Nat, announced payload = some (nBufLen : Int) ∧
    1 + sizeofInt + nBufLen ≤ payload.length ∧
    (nBufLen = 0 → got = result) ∧
    (nBufLen ≠ 0 → decode (replyBytes payload nBufLen ++ [0]) = .ok got)

/-- A call returns 0 with a complete reply, and else leaves the result as it was. -/
def Sound (stream : Text) (chunks : Nat → Nat) : Ending α → Prop
  | .fault => False
  | .returned nRes got =>
    (nRes = 0 → ∃ n place, Stripped stream chunks n place ∧
      Complete decode result (stream.drop (place + 4)) got) ∧
    (nRes ≠ 0 → got = result)

/-- The call ends, and is sound. -/
def Trusted (call : Nat → HttpSocket → Option (Ending α)) (stream : Text) (reset : Bool)
    (chunks : Nat → Nat) : Prop :=
  ∃ fuel ending, call fuel (HttpSocket.connect stream reset chunks) = some ending ∧
    Sound decode result stream chunks ending

end Reply

/-- The first five bytes of the reply are with the header, or come with the next call of
`recv`. -/
def FiveCome (stream : Text) (chunks : Nat → Nat) (n place : Nat) : Prop :=
  1 + sizeofInt ≤ HttpSocket.came stream.length chunks n - (place + 4) +
    min (chunks n + 1) (stream.length - HttpSocket.came stream.length chunks n)

/-- A reply of success announces nothing, or as many bytes as there are and for which there
is a buffer, and the decoder stays within them. -/
def Intact (inside : Text → Prop) (payload : Text) : Prop :=
  ∀ nBufLen, announced payload = some nBufLen →
    nBufLen = 0 ∨ (0 < nBufLen ∧ nBufLen < 2147483647 ∧
      1 + sizeofInt + nBufLen.toNat ≤ payload.length ∧
      inside (replyBytes payload nBufLen.toNat ++ [0]))

/-- The servers that are answered as they should be. -/
def Served (inside : Text → Prop) (stream : Text) (reset : Bool) (chunks : Nat → Nat) : Prop :=
  (HttpSocket.response stream = none ∧ HttpSocket.GivesUp stream reset chunks) ∨
  ∃ n place, Stripped stream chunks n place ∧
    (FiveCome stream chunks n place → Intact inside (stream.drop (place + 4)))

theorem Stripped.unique {stream : Text} {chunks : Nat → Nat} {n n' place place' : Nat}
    (h : Stripped stream chunks n place) (h' : Stripped stream chunks n' place') :
    n = n' ∧ place = place' := by
  obtain ⟨head, body, hresponse, hn⟩ := h.complete
  obtain ⟨head', body', hresponse', hn'⟩ := h'.complete
  rw [hresponse] at hresponse'
  obtain ⟨rfl, rfl⟩ := Prod.mk.inj (Option.some.inj hresponse')
  obtain rfl := hn.unique hn'
  have hplace := h.found
  rw [h'.found] at hplace
  exact ⟨rfl, (Option.some.inj hplace).symm⟩

/-! ## Receiving the reply -/

theorem receiveReply_complete : ∀ {fuel nBufLen nBytes : Nat} {received : Text}
    {h : HttpSocket}, received.length ≤ nBufLen → nBufLen - received.length < fuel →
      nBufLen - received.length ≤ h.left.length →
        receiveReply fuel nBufLen received nBytes h =
          some (received ++ h.left.take (nBufLen - received.length)) := by
  intro fuel
  induction fuel with
  | zero => intro nBufLen nBytes received h _ hfuel; omega
  | succ fuel ih =>
    intro nBufLen nBytes received h hle hfuel hthere
    rw [receiveReply]
    split
    · rename_i hlt
      obtain ⟨hread, -⟩ := HttpSocket.read_of_open (.inr hthere) nBytes
      generalize h.read (nBufLen - received.length) nBytes = reading at hread
      obtain ⟨r, h'⟩ := reading
      have hsplit := hread.split
      have hbound := hread.bound
      have hlen := congrArg List.length hsplit
      have hpos : 0 < r.bytes.length := by
        rw [List.length_pos_iff]
        intro hnil
        have hleft := hread.progress (by omega) hnil
        rw [hleft, List.length_nil] at hthere
        omega
      rw [List.length_append] at hlen
      simp only at hlen hbound hsplit
      have hok : r.ok = true := hread.ok
      simp only
      rw [if_pos hok, ih]
      · rw [← hsplit, List.take_append, List.take_of_length_le hbound, List.append_assoc,
          List.length_append, Nat.sub_sub]
      all_goals rw [List.length_append]; omega
    · rename_i hfull
      have hzero : nBufLen - received.length = 0 := by omega
      rw [hzero, List.take_zero, List.append_nil]

theorem replyBuffer_full (heap : Nat → UInt8) {nBufLen : Nat} {received : Text}
    (h : received.length = nBufLen) : replyBuffer heap nBufLen received = received ++ [0] := by
  simp [replyBuffer, h]

/-- The first five bytes that `NBRead` reads of a reply. -/
theorem nbRead_five {stream : Text} {reset : Bool} {chunks : Nat → Nat} {n place : Nat}
    (h : Stripped stream chunks n place) (fuel : Nat) :
    ∃ r, (HttpSocket.connect stream reset chunks).nbRead (fuel + n) (1 + sizeofInt) = some r ∧
      ((r = .error .error ∧ ¬ FiveCome stream chunks n place) ∨
        ∃ header h, r = .ok (header, h) ∧ header ++ h.left = stream.drop (place + 4) ∧
          (header.length = 1 + sizeofInt ↔ FiveCome stream chunks n place)) := by
  obtain ⟨⟨head, body, hresponse, hn⟩, hplace⟩ := h
  obtain ⟨hsplit, hfit⟩ := HttpSocket.response_eq_some.mp hresponse
  refine ⟨_, HttpSocket.nbRead_eq_deliver hsplit hfit hn fuel _, ?_⟩
  have hroom := firstPlace_length hplace (by decide)
  have hfour : (bytes "\r\n\r\n").length = 4 := by simp [bytes]
  have hstr : (cStr (HttpSocket.headerBuffer stream chunks n)).length ≤
      (HttpSocket.headerBuffer stream chunks n).length := (List.takeWhile_prefix _).length_le
  have hdata : ((HttpSocket.headerBuffer stream chunks n).drop (place + 4)).length =
      HttpSocket.came stream.length chunks n - (place + 4) := by
    rw [List.length_drop, HttpSocket.length_headerBuffer]
  have hrest : (HttpSocket.sockAfter stream reset chunks n).stream.length =
      stream.length - HttpSocket.came stream.length chunks n := by
    rw [HttpSocket.sockAfter, List.length_drop]
  have hall : (HttpSocket.headerBuffer stream chunks n).drop (place + 4) ++
      (HttpSocket.sockAfter stream reset chunks n).stream = stream.drop (place + 4) := by
    rw [← List.drop_append_of_le_length (by omega)]
    exact congrArg (List.drop (place + 4)) (List.take_append_drop _ stream)
  unfold FiveCome
  rcases @HttpSocket.deliver_found (HttpSocket.connect stream reset chunks) _
      (HttpSocket.sockAfter stream reset chunks n) _ rfl hplace (1 + sizeofInt) with
    ⟨hdeliver, hshort, hnil, -⟩ | ⟨first, h, hdeliver, hleft, hcount, -⟩
  · refine .inl ⟨hdeliver, ?_⟩
    rw [hnil, List.length_nil] at hrest
    omega
  · refine .inr ⟨first, h, hdeliver, hleft.trans hall, ?_⟩
    have hchunks : (HttpSocket.sockAfter stream reset chunks n).chunks
        (HttpSocket.sockAfter stream reset chunks n).calls = chunks n := rfl
    rw [hdata, hrest, hchunks] at hcount
    omega

theorem announced_of_five {header rest : Text} (hlen : header.length = 1 + sizeofInt)
    (hhead : header.head? = some statusSuccess) :
    announced (header ++ rest) = some (toLong (UInt32.ofNat (ofLittle (header.drop 1)))) := by
  have hfirst : (header ++ rest).head? = some statusSuccess := by
    rw [List.head?_append, hhead]
    rfl
  have hbytes : ((header ++ rest).drop 1).take sizeofInt = header.drop 1 := by
    rw [List.drop_append_of_le_length (by omega)]
    exact List.take_left' (by rw [List.length_drop]; omega)
  rw [announced, if_pos ⟨by rw [List.length_append]; omega, hfirst⟩, hbytes]

theorem announced_of_other {header rest : Text} (hlen : header.length = 1 + sizeofInt)
    (hhead : header.head? ≠ some statusSuccess) : announced (header ++ rest) = none := by
  have hfirst : (header ++ rest).head? = header.head? := by
    cases header with
    | nil => exact absurd hlen (by simp [sizeofInt])
    | cons c header => rfl
  rw [announced, if_neg]
  rintro ⟨-, hbad⟩
  exact hhead (hfirst ▸ hbad)

section Reply

variable {α : Type} {decode : Text → Except ReadFault α} {result : α} {heap : Nat → UInt8}
  {stream : Text} {reset : Bool} {chunks : Nat → Nat} {inside : Text → Prop}

/-- An answer that is sound was to a reply that is intact. -/
theorem intact_of_answer {n place fuel : Nat} {header : Text} {h : HttpSocket}
    {ending : Ending α}
    (hdecode : ∀ bs, (∃ x, decode (bs ++ [0]) = .ok x) ↔ inside (bs ++ [0]))
    (hstripped : Stripped stream chunks n place) (hlen : header.length = 1 + sizeofInt)
    (hall : header ++ h.left = stream.drop (place + 4))
    (hanswer : answer decode result heap fuel (.ok (header, h)) = some ending)
    (hsound : Sound decode result stream chunks ending) :
    Intact inside (stream.drop (place + 4)) := by
  intro nBufLen hannounced
  have hannounced' := hannounced
  rw [← hall] at hannounced'
  by_cases hhead : header.head? = some statusSuccess
  · rw [announced_of_five hlen hhead] at hannounced'
    obtain rfl := Option.some.inj hannounced'
    rw [answer, if_pos ⟨hlen, hhead⟩] at hanswer
    have hrange := toLong_high (UInt32.ofNat (ofLittle (header.drop 1)))
    generalize toLong (UInt32.ofNat (ofLittle (header.drop 1))) = nBufLen
      at hanswer hannounced hrange
    simp only at hanswer
    split at hanswer
    · rename_i hzero
      exact .inl hzero
    · rename_i hsome
      right
      split at hanswer
      · obtain rfl := Option.some.inj hanswer
        exact hsound.elim
      · rename_i hroom
        rw [not_or] at hroom
        cases hreceived : receiveReply fuel nBufLen.toNat [] (1 + sizeofInt) h with
        | none =>
          rw [hreceived] at hanswer
          exact absurd hanswer nofun
        | some received =>
          simp only [hreceived] at hanswer
          cases hgot : decode (replyBuffer heap nBufLen.toNat received) with
          | error fault =>
            rw [hgot] at hanswer
            obtain rfl := Option.some.inj hanswer
            exact hsound.elim
          | ok got =>
            rw [hgot] at hanswer
            obtain rfl := Option.some.inj hanswer
            obtain ⟨n', place', hstripped', length, hlength, hthere, -, hdecoded⟩ :=
              hsound.1 rfl
            obtain ⟨-, rfl⟩ := hstripped.unique hstripped'
            rw [hannounced] at hlength
            obtain rfl := Option.some.inj hlength
            rw [Int.toNat_natCast]
            refine ⟨by omega, by omega, hthere, (hdecode _).mp ⟨got, hdecoded ?_⟩⟩
            omega
  · rw [announced_of_other hlen hhead] at hannounced'
    exact absurd hannounced' nofun

theorem answer_of_intact {n place : Nat} {header : Text} {h : HttpSocket}
    (hdecode : ∀ bs, (∃ x, decode (bs ++ [0]) = .ok x) ↔ inside (bs ++ [0]))
    (hstripped : Stripped stream chunks n place) (hlen : header.length = 1 + sizeofInt)
    (hall : header ++ h.left = stream.drop (place + 4))
    (hintact : Intact inside (stream.drop (place + 4))) :
    ∃ fuel, ∀ more, ∃ ending,
      answer decode result heap (fuel + more) (.ok (header, h)) = some ending ∧
        Sound decode result stream chunks ending := by
  have hleft : h.left = (stream.drop (place + 4)).drop (1 + sizeofInt) := by
    rw [← hall, List.drop_left' hlen]
  by_cases hhead : header.head? = some statusSuccess
  · have hannounced := @announced_of_five _ h.left hlen hhead
    rw [hall] at hannounced
    have hwhole := hintact _ hannounced
    generalize hsize : toLong (UInt32.ofNat (ofLittle (header.drop 1))) = nBufLen
      at hannounced hwhole
    refine ⟨nBufLen.toNat + 1, fun more => ?_⟩
    rw [answer, if_pos ⟨hlen, hhead⟩, hsize]
    simp only
    rcases hwhole with rfl | ⟨hpos, hsmall, hthere, hinside⟩
    · refine ⟨.returned 0 result, if_pos rfl, ?_, nofun⟩
      intro _
      refine ⟨n, place, hstripped, 0, hannounced, ?_, fun _ => rfl, nofun⟩
      rw [← hall, List.length_append]
      omega
    · obtain ⟨got, hgot⟩ := (hdecode _).mpr hinside
      have hcount : h.left.length = (stream.drop (place + 4)).length - (1 + sizeofInt) := by
        rw [hleft, List.length_drop]
      have hreceived := @receiveReply_complete (nBufLen.toNat + 1 + more) nBufLen.toNat
        (1 + sizeofInt) [] h (Nat.zero_le _) (by simp only [List.length_nil]; omega)
        (by simp only [List.length_nil]; omega)
      have hbytes : [] ++ h.left.take (nBufLen.toNat - ([] : Text).length) =
          replyBytes (stream.drop (place + 4)) nBufLen.toNat := by
        rw [hleft]
        rfl
      have hfull : (replyBytes (stream.drop (place + 4)) nBufLen.toNat).length =
          nBufLen.toNat := by
        rw [replyBytes, List.length_take, List.length_drop]
        omega
      rw [hbytes] at hreceived
      rw [if_neg (by omega), if_neg (by omega)]
      simp only [hreceived, replyBuffer_full heap hfull, hgot]
      refine ⟨_, rfl, ?_, nofun⟩
      intro _
      refine ⟨n, place, hstripped, nBufLen.toNat, ?_, hthere, ?_, fun _ => hgot⟩
      · rw [hannounced, Int.toNat_of_nonneg (by omega)]
      · intro hzero
        omega
  · refine ⟨0, fun more => ⟨.returned (-1) result, ?_, (fun hleft => by cases hleft), fun _ => rfl⟩⟩
    rw [answer, if_neg]
    rintro ⟨-, hbad⟩
    exact hhead hbad

/-- A call ends and is sound exactly when the server is one of those that are served. -/
theorem trusted_iff_served
    (hdecode : ∀ bs, (∃ x, decode (bs ++ [0]) = .ok x) ↔ inside (bs ++ [0])) :
    Trusted decode result (receive decode result heap) stream reset chunks ↔
      Served inside stream reset chunks := by
  constructor
  · rintro ⟨fuel, ending, hcall, hsound⟩
    obtain ⟨r, hr, hanswer⟩ := Option.bind_eq_some_iff.mp hcall
    cases hresponse : HttpSocket.response stream with
    | none =>
      refine .inl ⟨hresponse, ?_⟩
      by_contra hnot
      rw [(HttpSocket.nbRead_without_header hresponse _).2 hnot] at hr
      cases hr
    | some parts =>
      obtain ⟨head, body⟩ := parts
      obtain ⟨hsplit, hfit⟩ := HttpSocket.response_eq_some.mp hresponse
      have hlen := congrArg List.length (splitResponse_append_eq hsplit)
      rw [List.length_append] at hlen
      obtain ⟨n, hn⟩ := @HttpSocket.exists_completeAfter stream chunks _ hfit (by omega)
      cases hplace : strstr (HttpSocket.headerBuffer stream chunks n) "\r\n\r\n" with
      | none =>
        have hfault := @HttpSocket.nbRead_eq_deliver stream reset chunks _ _ _ hsplit hfit hn
          0 (1 + sizeofInt)
        rw [HttpSocket.deliver, hplace] at hfault
        obtain rfl := HttpSocket.nbRead_unique hr hfault
        obtain rfl := Option.some.inj hanswer
        exact hsound.elim
      | some place =>
        have hstripped : Stripped stream chunks n place := ⟨⟨head, body, hresponse, hn⟩, hplace⟩
        refine .inr ⟨n, place, hstripped, ?_⟩
        intro hfive
        obtain ⟨r', hr', hcases⟩ := @nbRead_five stream reset chunks _ _ hstripped 0
        obtain rfl := HttpSocket.nbRead_unique hr hr'
        rcases hcases with ⟨-, hnot⟩ | ⟨header, h, rfl, hall, hiff⟩
        · exact absurd hfive hnot
        · exact intact_of_answer hdecode hstripped (hiff.mpr hfive) hall hanswer hsound
  · rintro (⟨hresponse, hgives⟩ | ⟨n, place, hstripped, hintact⟩)
    · obtain ⟨fuel, hfuel⟩ := (HttpSocket.nbRead_without_header hresponse (1 + sizeofInt)).1.mpr hgives
      refine ⟨fuel, .returned (-1) result, ?_, (fun hleft => by cases hleft), fun _ => rfl⟩
      rw [receive, hfuel]
      rfl
    · obtain ⟨r, hr, hcases⟩ := @nbRead_five stream reset chunks _ _ hstripped 0
      rcases hcases with ⟨rfl, -⟩ | ⟨header, h, rfl, hall, hiff⟩
      · refine ⟨0 + n, .returned (-1) result, ?_, (fun hleft => by cases hleft), fun _ => rfl⟩
        rw [receive, hr]
        rfl
      · by_cases hfive : FiveCome stream chunks n place
        · obtain ⟨fuel, hfuel⟩ := @answer_of_intact _ _ result heap _ _ _ _ _ _ _ hdecode hstripped
            (hiff.mpr hfive) hall (hintact hfive)
          obtain ⟨ending, hanswer, hsound⟩ := hfuel n
          refine ⟨fuel + n, ending, ?_, hsound⟩
          have hfar := HttpSocket.nbRead_mono hr fuel
          rw [receive, show fuel + n = 0 + n + fuel by omega, hfar, Option.bind_some,
            show 0 + n + fuel = fuel + n by omega]
          exact hanswer
        · refine ⟨0 + n, .returned (-1) result, ?_, (fun hleft => by cases hleft), fun _ => rfl⟩
          rw [receive, hr, Option.bind_some, answer, if_neg]
          rintro ⟨hlen, -⟩
          exact hfive (hiff.mp hlen)

end Reply

theorem map_fst_ok_iff {α β : Type} {x : Except ReadFault (α × β)} :
    (∃ a, x.map Prod.fst = .ok a) ↔ ∃ r, x = .ok r := by
  cases x with
  | error e => exact ⟨fun ⟨a, h⟩ => absurd h nofun, fun ⟨r, h⟩ => absurd h nofun⟩
  | ok r => exact ⟨fun _ => ⟨r, rfl⟩, fun _ => ⟨r.1, rfl⟩⟩

/-- What is made of the entries of a message is made when they are read. -/
theorem entries_ok_iff {α : Type} (make : List (Text × Text) → α) (buf : List UInt8) :
    (∃ r, (do
      let (n, nOffset) ← readCount buf 0
      let (entries, nOffset) ← readMany readPair n buf nOffset
      .ok (make entries, nOffset) : Except ReadFault (α × Nat)) = .ok r) ↔ EntriesInside buf := by
  rw [← readEntries_ok_iff]
  constructor
  · rintro ⟨r, hr⟩
    obtain ⟨⟨n, nOffset⟩, hcount, hrest⟩ := bind_eq_ok.mp hr
    obtain ⟨entries, hentries, -⟩ := bind_eq_ok.mp hrest
    exact ⟨entries, by rw [hcount, ok_bind]; exact hentries⟩
  · rintro ⟨r, hr⟩
    obtain ⟨⟨n, nOffset⟩, hcount, hentries⟩ := bind_eq_ok.mp hr
    exact ⟨(make r.1, r.2), by simp only [hcount, ok_bind, hentries]⟩

theorem decodePlayList_ok_iff (resultList : APSPlaylist) (pBuffer : Text) :
    (∃ list, decodePlayList resultList pBuffer = .ok list) ↔ EntriesInside pBuffer :=
  map_fst_ok_iff.trans (entries_ok_iff APSPlaylist.mk pBuffer)

theorem decodeStreams_ok_iff (resultList : StreamList) (pBuffer : Text) :
    (∃ list, decodeStreams resultList pBuffer = .ok list) ↔ EntriesInside pBuffer :=
  map_fst_ok_iff.trans (entries_ok_iff (resultList ++ ·) pBuffer)

theorem decodeGUID_ok (bs : Text) : ∃ s, decodeGUID (bs ++ [0]) = .ok s := by
  rw [decodeGUID, map_fst_ok_iff, spends_string.ok_iff]
  exact List.count_pos_iff.mpr (by simp)

/-- A server that announces four bytes, sends two and closes the connection. -/
def closingEarly : Text := bytes "HTTP/1.0 200 OK\r\n\r\n" ++ [88, 4, 0, 0, 0] ++ bytes "ab"

end YPClient

end FreeAmp.Aps
