/-
  Plm/MbcdLookup.lean --- the requests that `MusicBrainzCD` is asked, over whole runs.

      lookupCD_spec      what a lookup leaves behind
      lookups_of_run     the handle is never used when it is gone; what is returned is of the
                         disc's last lookup, and lengths are read inside the table

  A handle is named by the request in which `mb_New` has made it, so that the answer to a
  request tells which lookup it comes from.  The ids of discs have 28 characters, so that they
  fit where `strcpy` puts them.
-/
import FreeAmp.Lib.Transition
import FreeAmp.Plm.Id3v1
import FreeAmp.Plm.MbcdCache

namespace FreeAmp.Plm.Mbcd

open FreeAmp.Base FreeAmp.Lib

/-! ## The state -/

/-- `MusicBrainzCD`, with its database and the handles of the library. -/
structure MusicBrainzCD where
  o : Option Nat
  trackLens : List Int32
  nextTrack : Int
  notFoundDiskId : Text
  notFoundDiskIdExpire : Int
  db : Records
  /-- the handles that have been made, and have not been deleted -/
  live : List Nat
  /-- the requests so far -/
  requests : Nat

/-- `m_notFoundDiskIdExpire` is not set by the constructor. -/
def MusicBrainzCD.init (expire : Int) (db : Records) : MusicBrainzCD :=
  ⟨none, [], -1, [], expire, db, [], 0⟩

/-- What the library, the server and the clock say in the course of one request. -/
structure Replies where
  /-- `mb_Query(o, MBQ_GetCDTOC)` -/
  toc : Bool
  lastTrack : Int
  numSectors : Nat → Int32
  diskId : Text
  time : Int
  setResultRDF : Bool
  /-- `mb_Query(o, MBQ_GetCDInfo)` -/
  info : Bool
  numAlbums : Int
  /-- the time at which the disc is noted as not found -/
  timeNotFound : Int
  /-- `mb_GetResultRDF` -/
  rdf : Option Text
  numTracks : Int
  album : Text
  artist : Text
  title : Text

/-- What is set in the metadata, with the request whose lookup it comes from. -/
structure CdMetaData where
  album : Text
  artist : Text
  title : Text
  track : Int
  time : Int32
  lookup : Nat

inductive MbcdFault where
  /-- the library is called with a handle that is not live -/
  | handle
  /-- `m_trackLens` is read outside -/
  | trackLens
  /-- a buffer of the cache is left -/
  | cache (f : BufferFault)
  deriving DecidableEq

/-! ## The source -/

namespace MusicBrainzCD

/-- The handle, when the library can be called with it. -/
def handle (s : MusicBrainzCD) : Except MbcdFault Nat :=
  match s.o with
  | none => .error .handle
  | some o => if o ∈ s.live then .ok o else .error .handle

/-- A call of the library. -/
def mb {α : Type} (s : MusicBrainzCD) (reply : α) : Except MbcdFault α := do
  let _ ← s.handle
  .ok reply

/-- `o = mb_New()` -/
def mbNew (s : MusicBrainzCD) : MusicBrainzCD :=
  { s with o := some s.requests, live := s.requests :: s.live }

def mbDelete (s : MusicBrainzCD) : Except MbcdFault MusicBrainzCD := do
  let o ← s.handle
  .ok { s with live := s.live.erase o }

/-- The loop over the tracks of the disc. -/
def tocLengths (lastTrack : Int) (numSectors : Nat → Int32) : List Int32 :=
  (List.range lastTrack.toNat).map fun i => numSectors (i + 2) / 75

/-- The disc has not been found a short time ago. -/
def skips (s : MusicBrainzCD) (r : Replies) : Bool :=
  r.diskId == s.notFoundDiskId && decide (r.time < s.notFoundDiskIdExpire)

/-- The part of `LookupCD` that knows the disc: from the cache, or from the server. -/
def retrieve (s : MusicBrainzCD) (r : Replies) (diskId : Text) :
    Except MbcdFault (Bool × MusicBrainzCD) := do
  match readFromCache s.db diskId s.trackLens [] with
  | .error f => .error (.cache f)
  | .ok (cached, trackLens, _) =>
    let s := { s with trackLens := trackLens }
    let set ← s.mb r.setResultRDF
    if cached && set then .ok (true, s)
    else
      let ret ← s.mb r.info
      if !ret then .ok (false, s)
      else
        let numAlbums ← s.mb r.numAlbums
        if numAlbums = 0 then
          .ok (false,
            { s with notFoundDiskId := diskId, notFoundDiskIdExpire := r.timeNotFound + 60 })
        else
          let rdf ← s.mb r.rdf
          match rdf with
          | none => .ok (true, s)
          | some result =>
            match writeToCache s.db diskId s.trackLens result with
            | .error f => .error (.cache f)
            | .ok db => .ok (true, { s with db := db })

def lookupCD (s : MusicBrainzCD) (r : Replies) : Except MbcdFault (Bool × MusicBrainzCD) := do
  let ret ← s.mb r.toc
  if !ret then .ok (false, s)
  else
    let numTracks ← s.mb r.lastTrack
    let numSectors ← s.mb r.numSectors
    let s := { s with trackLens := tocLengths numTracks numSectors }
    let diskId ← s.mb r.diskId
    if s.skips r then .ok (false, s)
    else if diskId = s.notFoundDiskId then retrieve { s with notFoundDiskId := [] } r diskId
    else s.retrieve r diskId

/-- `if (o) mb_Delete(o)` -/
def discard (s : MusicBrainzCD) : Except MbcdFault MusicBrainzCD :=
  if s.o.isSome then s.mbDelete else .ok s

/-- The part of `ReadMetaData` that looks the disc up, unless the track is the expected one. -/
def refresh (s : MusicBrainzCD) (track : Int) (r : Replies) :
    Except MbcdFault (Bool × MusicBrainzCD) := do
  if track = s.nextTrack then .ok (true, s)
  else
    let s ← s.discard
    let (found, s) ← s.mbNew.lookupCD r
    if found then .ok (true, { s with nextTrack := 1 })
    else
      let s ← s.mbDelete
      .ok (false, { s with o := none, nextTrack := 2 })

def trackLen (s : MusicBrainzCD) (i : Int) : Except MbcdFault Int32 :=
  if 0 ≤ i then
    match s.trackLens[i.toNat]? with
    | some time => .ok time
    | none => .error .trackLens
  else .error .trackLens

/-- The part of `ReadMetaData` that reads what has been found. -/
def answer (s : MusicBrainzCD) (track : Int) (r : Replies) :
    Except MbcdFault (Option CdMetaData × MusicBrainzCD) := do
  if s.o = none then .ok (none, s)
  else
    let lookup ← s.handle
    let numTracks ← s.mb r.numTracks
    let album ← s.mb r.album
    let artist ← s.mb r.artist
    let title ← s.mb r.title
    let time ← s.trackLen (track - 1)
    let metadata : CdMetaData := ⟨album, artist, title, track + 1, time, lookup⟩
    if track = numTracks then
      let s ← s.mbDelete
      .ok (some metadata, { s with o := none, nextTrack := -1 + 1 })
    else .ok (some metadata, { s with nextTrack := s.nextTrack + 1 })

/-- `ReadMetaData` behind the look at the name. -/
def request (s : MusicBrainzCD) (track : Int) (r : Replies) :
    Except MbcdFault (Option CdMetaData × MusicBrainzCD) := do
  let (ready, s) ← refresh { s with requests := s.requests + 1 } track r
  if ready then s.answer track r else .ok (none, s)

/-- The track that a name asks for; `none` for a name that is turned away. -/
def trackOf (url : Text) : Option Int :=
  match Id3v1.fromLastDot url with
  | none => none
  | some ext =>
    if (ext.take 4).map toLower = bytes ".cda" then
      if 47 ∈ url then some (atoi (url.reverse.takeWhile (· != 47)).reverse) else none
    else none

def readMetaData (s : MusicBrainzCD) (url : Text) (r : Replies) :
    Except MbcdFault (Option CdMetaData × MusicBrainzCD) :=
  match trackOf url with
  | none => .ok (none, s)
  | some track => s.request track r

/-! ## A request -/

variable {s : MusicBrainzCD}

/-- What is live is the handle that is held. -/
def Held (s : MusicBrainzCD) : Prop := s.live = s.o.toList

theorem Held.handle {o : Nat} (h : Held s) (ho : s.o = some o) : s.handle = .ok o := by
  unfold Held at h
  rw [ho] at h
  unfold MusicBrainzCD.handle
  rw [ho, h]
  exact if_pos (List.mem_singleton_self o)

/-- The library can be called as long as the handle is the same. -/
theorem mb_of_handle {α : Type} {o : Nat} (h : s.handle = .ok o) {s' : MusicBrainzCD}
    (ho : s'.o = s.o) (hlive : s'.live = s.live) (reply : α) : s'.mb reply = .ok reply := by
  have hhandle : s'.handle = .ok o := by
    rw [← h, handle, handle, ho, hlive]
  rw [mb, hhandle, ok_bind]

theorem Held.mbDelete {o : Nat} (h : Held s) (ho : s.o = some o) :
    s.mbDelete = .ok { s with live := [] } := by
  have hlive : s.live.erase o = [] := by
    unfold Held at h
    rw [h, ho]
    exact List.erase_cons_head ..
  rw [MusicBrainzCD.mbDelete, h.handle ho, ok_bind, hlive]

theorem Held.discard (h : Held s) : s.discard = .ok { s with live := [] } := by
  unfold MusicBrainzCD.discard
  obtain ho | ⟨o, ho⟩ := Option.eq_none_or_eq_some s.o
  · have hlive : s.live = [] := by
      unfold Held at h
      rw [h, ho]
      rfl
    have hnot : ¬ s.o.isSome = true := Option.not_isSome_iff_eq_none.mpr ho
    rw [if_neg hnot, ← hlive]
  · rw [if_pos (Option.isSome_of_mem ho), h.mbDelete ho]

/-- The lengths behind a look into the cache: those of the disc, or those of its record. -/
def lengthsAfter (db : Records) (diskId : Text) (trackLens : List Int32) : List Int32 :=
  match readFromCache db diskId trackLens [] with
  | .error _ => []
  | .ok (_, trackLens, _) => trackLens

/-- The cache or the server knows the disc. -/
def Known (db : Records) (r : Replies) : Prop :=
  (db r.diskId).isSome = true ∧ r.setResultRDF = true ∨ r.info = true ∧ r.numAlbums ≠ 0

theorem isSome_of_cached {db : Records} {diskId rdf rdf' : Text} {trackLens trackLens' : List Int32}
    (h : readFromCache db diskId trackLens rdf = .ok (true, trackLens', rdf')) :
    (db diskId).isSome = true := by
  unfold readFromCache at h
  split at h
  · cases h
  · rename_i data hdata
    rw [hdata]
    rfl

/-- What a lookup does not touch. -/
structure Kept (s s' : MusicBrainzCD) : Prop where
  o : s'.o = s.o
  live : s'.live = s.live
  nextTrack : s'.nextTrack = s.nextTrack
  requests : s'.requests = s.requests

/-- A search with a live handle uses nothing that is gone. -/
theorem retrieve_spec {o : Nat} (h : s.handle = .ok o) (r : Replies) :
    Meets (s.retrieve r r.diskId) (fun f => ∃ g, f = .cache g) fun x => Kept s x.2 ∧
      (x.1 = true → Known s.db r ∧ x.2.trackLens = lengthsAfter s.db r.diskId s.trackLens) := by
  have hfalse : ∀ s' : MusicBrainzCD, Kept s s' → Kept s s' ∧ (false = true → Known s.db r ∧
      s'.trackLens = lengthsAfter s.db r.diskId s.trackLens) :=
    fun s' hkept => ⟨hkept, fun hf => by cases hf⟩
  unfold retrieve
  cases hread : readFromCache s.db r.diskId s.trackLens [] with
  | error f => exact ⟨f, rfl⟩
  | ok x =>
    obtain ⟨cached, trackLens, rdf⟩ := x
    have hafter : trackLens = lengthsAfter s.db r.diskId s.trackLens := by
      rw [lengthsAfter, hread]
    have hmb : ∀ {α : Type} (reply : α),
        mb { s with trackLens := trackLens } reply = .ok reply :=
      fun reply => mb_of_handle h rfl rfl reply
    dsimp only
    rw [hmb, ok_bind]
    split
    · rename_i hcached
      rw [Bool.and_eq_true] at hcached
      rw [hcached.1] at hread
      exact ⟨⟨rfl, rfl, rfl, rfl⟩, fun _ => ⟨.inl ⟨isSome_of_cached hread, hcached.2⟩, hafter⟩⟩
    · rw [hmb, ok_bind]
      split
      · exact hfalse _ ⟨rfl, rfl, rfl, rfl⟩
      · rename_i hinfo
        rw [Bool.not_eq_true', Bool.not_eq_false] at hinfo
        rw [hmb, ok_bind]
        split
        · exact hfalse _ ⟨rfl, rfl, rfl, rfl⟩
        · rename_i halbums
          rw [hmb, ok_bind]
          split
          · exact ⟨⟨rfl, rfl, rfl, rfl⟩, fun _ => ⟨.inr ⟨hinfo, halbums⟩, hafter⟩⟩
          · split
            · rename_i f _
              exact ⟨f, rfl⟩
            · exact ⟨⟨rfl, rfl, rfl, rfl⟩, fun _ => ⟨.inr ⟨hinfo, halbums⟩, hafter⟩⟩

/-- The lengths that a lookup leaves when it finds the disc. -/
def lengthsFound (s : MusicBrainzCD) (r : Replies) : List Int32 :=
  lengthsAfter s.db r.diskId (tocLengths r.lastTrack r.numSectors)

/-- The disc is found. -/
def Found (s : MusicBrainzCD) (r : Replies) : Prop :=
  r.toc = true ∧ s.skips r = false ∧ Known s.db r

theorem lookupCD_spec {o : Nat} (h : s.handle = .ok o) (r : Replies) :
    Meets (s.lookupCD r) (fun f => ∃ g, f = .cache g) fun x => Kept s x.2 ∧
      (x.1 = true → Found s r ∧ x.2.trackLens = s.lengthsFound r) := by
  unfold lookupCD
  rw [mb_of_handle h rfl rfl, ok_bind]
  split
  · exact ⟨⟨rfl, rfl, rfl, rfl⟩, fun hf => by cases hf⟩
  · rename_i htoc
    rw [Bool.not_eq_true', Bool.not_eq_false] at htoc
    rw [mb_of_handle h rfl rfl, ok_bind, mb_of_handle h rfl rfl, ok_bind]
    dsimp only
    have hmb : mb { s with trackLens := tocLengths r.lastTrack r.numSectors } r.diskId =
        .ok r.diskId := mb_of_handle h rfl rfl r.diskId
    rw [hmb, ok_bind]
    split
    · exact ⟨⟨rfl, rfl, rfl, rfl⟩, fun hf => by cases hf⟩
    · rename_i hskips
      rw [Bool.not_eq_true] at hskips
      split
      · refine (retrieve_spec (s := { s with
          trackLens := tocLengths r.lastTrack r.numSectors, notFoundDiskId := [] })
          (o := o) h r).mono fun x hx => ?_
        exact ⟨⟨hx.1.o, hx.1.live, hx.1.nextTrack, hx.1.requests⟩,
          fun hf => ⟨⟨htoc, hskips, (hx.2 hf).1⟩, (hx.2 hf).2⟩⟩
      · refine (retrieve_spec (s := { s with
          trackLens := tocLengths r.lastTrack r.numSectors }) (o := o) h r).mono fun x hx => ?_
        exact ⟨⟨hx.1.o, hx.1.live, hx.1.nextTrack, hx.1.requests⟩,
          fun hf => ⟨⟨htoc, hskips, (hx.2 hf).1⟩, (hx.2 hf).2⟩⟩

/-- What `refresh` leaves: the lookup that there was, or the one that it has made. -/
structure Refreshed (s : MusicBrainzCD) (track : Int) (r : Replies) (ready : Bool)
    (s' : MusicBrainzCD) : Prop where
  held : s'.Held
  requests : s'.requests = s.requests
  same : track = s.nextTrack → s' = s ∧ ready = true
  other : track ≠ s.nextTrack → ready = true →
    s'.o = some s.requests ∧ s'.nextTrack = 1 ∧ Found s r ∧ s'.trackLens = s.lengthsFound r
  failed : track ≠ s.nextTrack → ready = false → s'.o = none ∧ s'.nextTrack = 2

theorem refresh_spec (h : Held s) (track : Int) (r : Replies) :
    Meets (s.refresh track r) (fun f => ∃ g, f = .cache g)
      fun x => Refreshed s track r x.1 x.2 := by
  unfold refresh
  split
  · rename_i heq
    exact ⟨h, rfl, fun _ => ⟨rfl, rfl⟩, fun hne => absurd heq hne, fun hne => absurd heq hne⟩
  · rename_i hne
    rw [h.discard, ok_bind]
    have hnew : (mbNew { s with live := [] }).handle = .ok s.requests :=
      if_pos (List.mem_singleton_self s.requests)
    rw [Meets.bind_iff]
    refine (lookupCD_spec hnew r).mono fun x hx => ?_
    obtain ⟨found, s'⟩ := x
    obtain ⟨hkept, hfound⟩ := hx
    have hheld : Held s' := by
      unfold Held
      rw [hkept.o, hkept.live]
      rfl
    cases found with
    | true =>
      refine ⟨hheld, hkept.requests, fun heq => absurd heq hne, fun _ _ => ?_,
        fun _ hf => by cases hf⟩
      exact ⟨hkept.o, rfl, (hfound rfl).1, (hfound rfl).2⟩
    | false =>
      dsimp only
      rw [if_neg Bool.false_ne_true, hheld.mbDelete hkept.o, ok_bind]
      exact ⟨rfl, hkept.requests, fun heq => absurd heq hne, (fun _ hf => by cases hf),
        fun _ _ => ⟨rfl, rfl⟩⟩

/-- What an answer leaves. -/
structure Answered (s : MusicBrainzCD) (track : Int) (m : Option CdMetaData)
    (s' : MusicBrainzCD) : Prop where
  held : s'.Held
  requests : s'.requests = s.requests
  none : s.o = none → m = none ∧ s' = s
  some : ∀ o, s.o = some o → ∃ metadata, m = some metadata ∧ metadata.lookup = o ∧
    (s'.o = Option.none ∨ s'.o = some o ∧ s'.nextTrack = s.nextTrack + 1 ∧
      s'.trackLens = s.trackLens)

/-- The track's length is in the table. -/
def InTable (trackLens : List Int32) (track : Int) : Prop := 1 ≤ track ∧ track ≤ trackLens.length

theorem answer_spec (h : Held s) (track : Int) (r : Replies) :
    Meets (s.answer track r) (fun f => f = .trackLens ∧ s.o ≠ none ∧ ¬ InTable s.trackLens track)
      fun x => Answered s track x.1 x.2 := by
  unfold answer
  obtain ho | ⟨o, ho⟩ := Option.eq_none_or_eq_some s.o
  · rw [if_pos ho]
    exact ⟨h, rfl, fun _ => ⟨rfl, rfl⟩, fun o ho' => by rw [ho] at ho'; cases ho'⟩
  · have hsome : s.o ≠ none := by
      rw [ho]
      exact Option.some_ne_none o
    have hhandle := h.handle ho
    rw [if_neg hsome, hhandle, ok_bind, mb_of_handle hhandle rfl rfl, ok_bind,
      mb_of_handle hhandle rfl rfl, ok_bind, mb_of_handle hhandle rfl rfl, ok_bind,
      mb_of_handle hhandle rfl rfl, ok_bind, Meets.bind_iff]
    refine Meets.intro (fun time _ => ?_) fun f hf => ?_
    · dsimp only
      split
      · rw [h.mbDelete ho, ok_bind]
        refine ⟨rfl, rfl, fun hn => absurd hn hsome, fun o' ho' => ⟨_, rfl, ?_, .inl rfl⟩⟩
        exact Option.some.inj (ho.symm.trans ho')
      · refine ⟨h, rfl, fun hn => absurd hn hsome, fun o' ho' => ⟨_, rfl, ?_, .inr ⟨ho', rfl, rfl⟩⟩⟩
        exact Option.some.inj (ho.symm.trans ho')
    · unfold trackLen at hf
      split at hf
      · rename_i hlow
        split at hf
        · cases hf
        · rename_i hget
          have hlen := List.getElem?_eq_none_iff.mp hget
          refine ⟨(Except.error.inj hf).symm, hsome, fun hin => ?_⟩
          unfold InTable at hin
          omega
      · refine ⟨(Except.error.inj hf).symm, hsome, fun hin => ?_⟩
        unfold InTable at hin
        omega

/-- What a request leaves. -/
structure Requested (s : MusicBrainzCD) (track : Int) (m : Option CdMetaData)
    (s' : MusicBrainzCD) : Prop where
  held : s'.Held
  requests : s'.requests = s.requests + 1
  expected : track = s.nextTrack → (∀ metadata, m = some metadata → s.o = some metadata.lookup) ∧
    ∀ o, s'.o = some o → s.o = some o ∧ s'.nextTrack = s.nextTrack + 1
  other : track ≠ s.nextTrack →
    (∀ metadata, m = some metadata → metadata.lookup = s.requests + 1) ∧
    ∀ o, s'.o = some o → o = s.requests + 1 ∧ s'.nextTrack = 2

/-- The request reads a length that is not in the table. -/
def Misses (s : MusicBrainzCD) (track : Int) (r : Replies) : Prop :=
  if track = s.nextTrack then s.o ≠ none ∧ ¬ InTable s.trackLens track
  else Found s r ∧ ¬ InTable (s.lengthsFound r) track

theorem request_spec (h : Held s) (track : Int) (r : Replies) :
    Meets (s.request track r) (fun f => (∃ g, f = .cache g) ∨ f = .trackLens ∧ Misses s track r)
      fun x => Requested s track x.1 x.2 := by
  unfold request
  rw [Meets.bind_iff]
  have hheld : Held { s with requests := s.requests + 1 } := h
  have hrefresh := refresh_spec hheld track r
  refine Meets.intro (fun x hx => ?_) fun f hf => .inl (hrefresh.of_error hf)
  obtain ⟨ready, s₁⟩ := x
  have hs₁ := hrefresh.of_ok hx
  dsimp only at hs₁ ⊢
  split
  · rename_i hready
    have hanswer := answer_spec hs₁.held track r
    refine Meets.intro (fun y hy => ?_) fun f hf => ?_
    · have hs₂ := hanswer.of_ok hy
      refine ⟨hs₂.held, hs₂.requests.trans hs₁.requests, fun heq => ?_, fun hne => ?_⟩
      · have hsame := (hs₁.same heq).1
        subst hsame
        obtain ho | ⟨o, ho⟩ := Option.eq_none_or_eq_some s.o
        · obtain ⟨hm, hs'⟩ := hs₂.none ho
          refine ⟨fun metadata hsome => ?_, fun o hsome => ?_⟩
          · rw [hm] at hsome
            cases hsome
          · rw [hs'] at hsome
            exact absurd (ho.symm.trans hsome) (Option.some_ne_none o).symm
        · obtain ⟨metadata, hm, hlookup, hleft⟩ := hs₂.some o ho
          refine ⟨fun metadata' hsome => ?_, fun o' hsome => ?_⟩
          · rw [hm] at hsome
            rw [← Option.some.inj hsome, hlookup, ho]
          · rcases hleft with hgone | ⟨hsame, hnext, -⟩
            · rw [hgone] at hsome
              cases hsome
            · rw [hsame] at hsome
              exact ⟨ho.trans hsome, hnext⟩
      · obtain ⟨ho, hnext, -, -⟩ := hs₁.other hne hready
        obtain ⟨metadata, hm, hlookup, hleft⟩ := hs₂.some _ ho
        refine ⟨fun metadata' hsome => ?_, fun o' hsome => ?_⟩
        · rw [hm] at hsome
          rw [← Option.some.inj hsome, hlookup]
        · rcases hleft with hgone | ⟨hsame, hnext', -⟩
          · rw [hgone] at hsome
            cases hsome
          · rw [hsame] at hsome
            refine ⟨(Option.some.inj hsome).symm, ?_⟩
            rw [hnext', hnext]
            rfl
    · obtain ⟨hfault, hsome, hout⟩ := hanswer.of_error hf
      refine .inr ⟨hfault, ?_⟩
      unfold Misses
      split
      · rename_i heq
        have hsame := (hs₁.same heq).1
        subst hsame
        exact ⟨hsome, hout⟩
      · rename_i hne
        obtain ⟨-, -, hfound, htable⟩ := hs₁.other hne hready
        rw [htable] at hout
        exact ⟨hfound, hout⟩
  · rename_i hready
    rw [Bool.not_eq_true] at hready
    refine ⟨hs₁.held, hs₁.requests, fun heq => ?_, fun hne => ?_⟩
    · rw [(hs₁.same heq).2] at hready
      cases hready
    · refine ⟨fun metadata hsome => (by cases hsome), fun o hsome => ?_⟩
      rw [(hs₁.failed hne hready).1] at hsome
      cases hsome

end MusicBrainzCD

/-! ## Every run -/

/-- The object, with a record of what it has been asked and has returned. -/
structure Session where
  cd : MusicBrainzCD
  /-- the track of the last request -/
  last : Option Int
  /-- the last request for track 1, or for a track that is not behind the last one -/
  anchor : Nat
  /-- the request that made the lookup of an answer, and `anchor` at that time -/
  returned : List (Nat × Nat)
  fault : Option MbcdFault

namespace Session

def init (expire : Int) (db : Records) : Session := ⟨.init expire db, none, 0, [], none⟩

/-- A request that starts anew. -/
def startsAnew (s : Session) (track : Int) : Bool :=
  decide (track = 1) || decide (s.last ≠ some (track - 1))

/-- The record of a request. -/
def asked (s : Session) (track : Int) : Session :=
  { s with
    last := some track
    anchor := if s.startsAnew track then s.cd.requests + 1 else s.anchor }

/-- What `ReadMetaData` returns. -/
def answered (s : Session) (m : Option CdMetaData) (cd : MusicBrainzCD) : Session :=
  { s with cd := cd, returned := s.returned ++ m.toList.map fun m => (m.lookup, s.anchor) }

/-- A call of `ReadMetaData`; there is none behind a fault. -/
def next (s : Session) (call : Text × Replies) : Option Session :=
  if s.fault.isSome then none
  else
    match s.cd.readMetaData call.1 call.2 with
    | .error f => some { s with fault := some f }
    | .ok (m, cd) =>
      match MusicBrainzCD.trackOf call.1 with
      | none => some (s.answered m cd)
      | some track => some ((s.asked track).answered m cd)

open MusicBrainzCD

/-- Track 2 is not asked for right behind another track than 1, as long as something is held;
and the length of every track is in the table that it is read from. -/
def ProperTrack (s : Session) (track : Int) (r : Replies) : Prop :=
  ¬ Misses s.cd track r ∧
    (track = s.cd.nextTrack → s.cd.o ≠ none → track = 2 → s.last = some 1)

def Proper (s : Session) (call : Text × Replies) : Prop :=
  ∀ track, trackOf call.1 = some track → ProperTrack s track call.2

/-- What holds in every run. -/
structure Inv (s : Session) : Prop where
  held : s.cd.Held
  fault : s.fault ≠ some .handle

/-- What holds in a run of proper calls. -/
structure Safe (s : Session) : Prop where
  anchor : s.anchor ≤ s.cd.requests
  current : ∀ o, s.cd.o = some o → s.anchor ≤ o ∧ 2 ≤ s.cd.nextTrack ∧
    (s.cd.nextTrack = 2 ∨ s.last = some (s.cd.nextTrack - 1))
  returned : ∀ x ∈ s.returned, x.2 ≤ x.1
  fault : s.fault ≠ some .trackLens

instance (trackLens : List Int32) (track : Int) : Decidable (InTable trackLens track) :=
  inferInstanceAs (Decidable (_ ∧ _))

instance (db : Records) (r : Replies) : Decidable (Known db r) :=
  inferInstanceAs (Decidable (_ ∨ _))

instance (cd : MusicBrainzCD) (r : Replies) : Decidable (Found cd r) :=
  inferInstanceAs (Decidable (_ ∧ _))

instance (cd : MusicBrainzCD) (track : Int) (r : Replies) : Decidable (Misses cd track r) :=
  inferInstanceAs (Decidable (if track = cd.nextTrack then
    cd.o ≠ none ∧ ¬ InTable cd.trackLens track
    else Found cd r ∧ ¬ InTable (cd.lengthsFound r) track))

instance (s : Session) (track : Int) (r : Replies) : Decidable (ProperTrack s track r) :=
  inferInstanceAs (Decidable (_ ∧ _))

theorem proper_of {s : Session} {call : Text × Replies} {track : Int}
    (h : trackOf call.1 = some track) (hproper : ProperTrack s track call.2) : Proper s call := by
  intro track' h'
  rw [h] at h'
  exact Option.some.inj h' ▸ hproper

theorem inv_init (expire : Int) (db : Records) : Inv (init expire db) :=
  ⟨rfl, (Option.some_ne_none _).symm⟩

theorem safe_init (expire : Int) (db : Records) : Safe (init expire db) :=
  ⟨Nat.le_refl 0, fun o ho => (by cases ho), fun x hx => absurd hx List.not_mem_nil,
    (Option.some_ne_none _).symm⟩

variable {s s' : Session}

/-- A call is turned away, ends with a fault, or is answered. -/
theorem next_cases {call : Text × Replies} (hstep : s.next call = some s') :
    s' = s.answered none s.cd ∨ ∃ track, trackOf call.1 = some track ∧
      ((∃ f, s.cd.request track call.2 = .error f ∧ s' = { s with fault := some f }) ∨
        ∃ m cd, s.cd.request track call.2 = .ok (m, cd) ∧ s' = (s.asked track).answered m cd) := by
  unfold next at hstep
  split at hstep
  · cases hstep
  · unfold MusicBrainzCD.readMetaData at hstep
    cases htrack : trackOf call.1 with
    | none =>
      rw [htrack] at hstep
      exact .inl (Option.some.inj hstep).symm
    | some track =>
      rw [htrack] at hstep
      refine .inr ⟨track, rfl, ?_⟩
      cases hrequest : s.cd.request track call.2 with
      | error f =>
        dsimp only at hstep
        rw [hrequest] at hstep
        exact .inl ⟨f, rfl, (Option.some.inj hstep).symm⟩
      | ok x =>
        dsimp only at hstep
        rw [hrequest] at hstep
        exact .inr ⟨x.1, x.2, rfl, (Option.some.inj hstep).symm⟩

theorem Inv.step (h : Inv s) {call : Text × Replies} (hstep : s.next call = some s') : Inv s' := by
  obtain rfl | ⟨track, -, ⟨f, hf, rfl⟩ | ⟨m, cd, hok, rfl⟩⟩ := next_cases hstep
  · exact ⟨h.held, h.fault⟩
  · refine ⟨h.held, fun hhandle => ?_⟩
    rw [Option.some.inj hhandle] at hf
    obtain ⟨g, hg⟩ | ⟨hg, -⟩ := (request_spec h.held track call.2).of_error hf
    · cases hg
    · cases hg
  · exact ⟨((request_spec h.held track call.2).of_ok hok).held, h.fault⟩

/-- A request that is answered from what is held does not start anew. -/
theorem Safe.anchor_le (hs : Safe s) {track : Int} {r : Replies} (hproper : ProperTrack s track r)
    {o : Nat} (heq : track = s.cd.nextTrack) (ho : s.cd.o = some o) :
    (s.asked track).anchor ≤ o := by
  obtain ⟨hanchor, hnext, hlast⟩ := hs.current o ho
  have hsome : s.cd.o ≠ none := by
    rw [ho]
    exact Option.some_ne_none o
  have hbehind : s.last = some (track - 1) := by
    rw [heq]
    rcases hlast with htwo | hlast
    · rw [htwo]
      exact hproper.2 heq hsome (heq.trans htwo)
    · exact hlast
  have hsame : s.startsAnew track = false := by
    unfold startsAnew
    rw [decide_eq_false (by omega), hbehind, decide_eq_false fun hne => hne rfl]
    rfl
  unfold asked
  rw [hsame]
  exact hanchor

theorem Safe.step (hs : Safe s) (h : Inv s) {call : Text × Replies} (hproper : Proper s call)
    (hstep : s.next call = some s') : Safe s' := by
  obtain rfl | ⟨track, htrack, ⟨f, hf, rfl⟩ | ⟨m, cd, hok, rfl⟩⟩ := next_cases hstep
  · refine ⟨hs.anchor, hs.current, ?_, hs.fault⟩
    show ∀ x ∈ s.returned ++ [], x.2 ≤ x.1
    rw [List.append_nil]
    exact hs.returned
  · refine ⟨hs.anchor, hs.current, hs.returned, fun hout => ?_⟩
    rw [Option.some.inj hout] at hf
    obtain ⟨g, hg⟩ | ⟨-, hmisses⟩ := (request_spec h.held track call.2).of_error hf
    · cases hg
    · exact (hproper track htrack).1 hmisses
  · have htrack := hproper track htrack
    have hdone := (request_spec h.held track call.2).of_ok hok
    have hasked : (s.asked track).anchor ≤ s.cd.requests + 1 := by
      have hle := hs.anchor
      unfold asked
      dsimp only
      split <;> omega
    refine ⟨?_, fun o ho => ?_, fun x hx => ?_, hs.fault⟩
    · show (s.asked track).anchor ≤ cd.requests
      rw [hdone.requests]
      exact hasked
    · show (s.asked track).anchor ≤ o ∧ 2 ≤ cd.nextTrack ∧
        (cd.nextTrack = 2 ∨ some track = some (cd.nextTrack - 1))
      by_cases heq : track = s.cd.nextTrack
      · obtain ⟨hold, hnext⟩ := (hdone.expected heq).2 o ho
        have hnext : cd.nextTrack = s.cd.nextTrack + 1 := hnext
        have hcurrent := (hs.current o hold).2.1
        refine ⟨hs.anchor_le htrack heq hold, by omega, .inr ?_⟩
        rw [hnext, heq, Int.add_sub_cancel]
      · obtain ⟨rfl, hnext⟩ := (hdone.other heq).2 o ho
        exact ⟨hasked, Int.le_of_eq hnext.symm, .inl hnext⟩
    · rcases List.mem_append.mp hx with hbefore | hnow
      · exact hs.returned x hbefore
      · obtain ⟨metadata, hm, rfl⟩ := List.mem_map.mp hnow
        have hm := Option.mem_toList.mp hm
        show (s.asked track).anchor ≤ metadata.lookup
        by_cases heq : track = s.cd.nextTrack
        · exact hs.anchor_le htrack heq ((hdone.expected heq).1 metadata hm)
        · rw [(hdone.other heq).1 metadata hm]
          exact hasked

/-- In every run the handle is live when it is used; in a run of proper calls every length is
read in the table, and every answer comes from a lookup that is not older than the last request
that starts anew. -/
theorem lookups_of_run (expire : Int) (db : Records) :
    (∀ (calls : List (Text × Replies)) (s : Session),
      Run (Steps next) (init expire db) calls s → s.fault ≠ some .handle) ∧
    ∀ (calls : List (Text × Replies)) (s : Session),
      Run (Guarded Proper (Steps next)) (init expire db) calls s →
        s.fault ≠ some .trackLens ∧ ∀ x ∈ s.returned, x.2 ≤ x.1 := by
  constructor
  · intro calls s hrun
    exact (hrun.invariant (fun s a t (hs : Inv s) hstep => hs.step hstep)
      (inv_init expire db)).fault
  · intro calls s hrun
    have hboth := hrun.invariant (P := fun s => Inv s ∧ Safe s)
      (fun s a t hs hstep => ⟨hs.1.step hstep.2, hs.2.step hs.1 hstep.1 hstep.2⟩)
      ⟨inv_init expire db, safe_init expire db⟩
    exact ⟨hboth.2.fault, hboth.2.returned⟩

/-- The server knows a disc of three tracks. -/
def threeTracks : Replies where
  toc := true
  lastTrack := 3
  numSectors := fun _ => 15000
  diskId := bytes "disc"
  time := 0
  setResultRDF := false
  info := true
  numAlbums := 1
  timeNotFound := 0
  rdf := none
  numTracks := 3
  album := bytes "album"
  artist := bytes "artist"
  title := bytes "title"

/-- The tracks of a disc, one behind the other. -/
def inOrder : List (Text × Replies) :=
  [(bytes "/1.CDA", threeTracks), (bytes "/2.CDA", threeTracks), (bytes "/3.CDA", threeTracks)]

theorem lookups_of_run_inOrder : ∃ s, exec next (init 0 fun _ => none) inOrder = some s ∧
    s.returned = [(1, 1), (1, 1), (1, 1)] ∧ (s.fault ≠ some .handle) ∧
    s.fault ≠ some .trackLens ∧ ∀ x ∈ s.returned, x.2 ≤ x.1 := by
  have hrun : ∃ s, exec next (init 0 fun _ => none) inOrder = some s ∧
      s.returned = [(1, 1), (1, 1), (1, 1)] ∧
      Run (Guarded Proper (Steps next)) (init 0 fun _ => none) inOrder s := by
    have one : trackOf (bytes "/1.CDA") = some 1 := by decide
    have two : trackOf (bytes "/2.CDA") = some 2 := by decide
    have three : trackOf (bytes "/3.CDA") = some 3 := by decide
    refine ⟨_, rfl, by decide, ?_⟩
    refine .cons ⟨proper_of one (by decide), rfl⟩ ?_
    refine .cons ⟨proper_of two (by decide), rfl⟩ ?_
    exact .single ⟨proper_of three (by decide), rfl⟩
  obtain ⟨s, hexec, hreturned, hrun⟩ := hrun
  refine ⟨s, hexec, hreturned, ?_, ?_⟩
  · exact (lookups_of_run 0 fun _ => none).1 inOrder s hrun.unguard
  · exact (lookups_of_run 0 fun _ => none).2 inOrder s hrun

/-- Track 3 is asked for, and then track 2, after the disc has been changed; and track 0. -/
theorem lookups_fail :
    (∃ s, exec next (init 0 fun _ => none)
      [(bytes "/3.CDA", { threeTracks with numTracks := 5, lastTrack := 5 }),
        (bytes "/2.CDA", threeTracks)] = some s ∧ (1, 2) ∈ s.returned) ∧
    ∃ s, exec next (init 0 fun _ => none) [(bytes "/0.CDA", threeTracks)] = some s ∧
      s.fault = some .trackLens :=
  ⟨⟨_, rfl, by decide⟩, ⟨_, rfl, by decide⟩⟩

end Session

end FreeAmp.Plm.Mbcd
