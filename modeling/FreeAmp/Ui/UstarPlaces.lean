/-
  Ui/UstarPlaces.lean --- which tar archives come back.

  If all the files of an archive come back, each of them has a place on the tour (`Placed`),
  and there is no room for more than that: the tour keeps to multiples of 512 bytes
  (`aligned`).  The place of a file cannot be one inside the contents of files, as the header
  there would have to come from a header of the archive (`exists_header`).  So every header of
  a file is read where it is, which is what `Kept` says.
-/
import FreeAmp.Ui.UstarTour
import Mathlib.Data.Finset.Card
import Mathlib.Algebra.Order.BigOperators.Group.List

namespace FreeAmp.Ui

open FreeAmp.Base FreeAmp.Lib

/-! ## There is no room for more -/

/-- Things that each have a place of their own weigh no more than all the places. -/
theorem sum_le_of_places {α β : Type} [DecidableEq β] {P : β → α → Prop} {b : α → Nat}
    {w : β → Nat} : ∀ (things : List α) (places : List β),
    (∀ a ∈ things, ∃ p ∈ places, P p a) → things.Pairwise (fun a c => ∀ p, P p a → ¬ P p c) →
    (∀ a ∈ things, ∀ p, P p a → b a ≤ w p) → (things.map b).sum ≤ (places.map w).sum := by
  intro things
  induction things with
  | nil =>
    intro places _ _ _
    exact Nat.zero_le _
  | cons a things ih =>
    intro places hfound happart hle
    obtain ⟨p, hp, hpa⟩ := hfound a List.mem_cons_self
    rw [List.pairwise_cons] at happart
    have hrest := ih (places.erase p) (fun c hc => ?_) happart.2
      fun c hc => hle c (List.mem_cons_of_mem a hc)
    · have hperm := ((List.perm_cons_erase hp).map w).sum_nat
      have hone := hle a List.mem_cons_self p hpa
      rw [List.map_cons, List.sum_cons] at hperm ⊢
      omega
    · obtain ⟨q, hq, hqc⟩ := hfound c (List.mem_cons_of_mem a hc)
      have hne : q ≠ p := fun heq => happart.1 c hc p hpa (heq ▸ hqc)
      exact ⟨q, (List.mem_erase_of_ne hne).mpr hq, hqc⟩

/-- The archive is as long as its files and its directories. -/
theorem archive_sum {entries : List Entry} (h : ∀ e ∈ entries, Standard e) :
    (ustarArchive entries).length =
      ((entries.filter fun e => !e.directory).map fun e => e.bytes.length).sum +
        512 * (entries.filter Entry.directory).length + 1024 := by
  have hsum : (entries.flatMap Entry.bytes).length =
      ((entries.filter fun e => !e.directory).map fun e => e.bytes.length).sum +
        512 * (entries.filter Entry.directory).length := by
    induction entries with
    | nil => simp
    | cons e entries ih =>
      have hrest := ih fun e' he' => h e' (List.mem_cons_of_mem e he')
      have he := h e List.mem_cons_self
      rw [List.flatMap_cons, List.length_append]
      cases hdir : e.directory with
      | true =>
        have hlength := directory_bytes he hdir
        have hsize : recordSize = 512 := by rfl
        simp only [List.filter_cons, hdir, Bool.not_true, Bool.false_eq_true, if_false, if_true,
          List.length_cons]
        omega
      | false =>
        simp only [List.filter_cons, hdir, Bool.not_false, Bool.false_eq_true, if_false,
          if_true, List.map_cons, List.sum_cons]
        omega
  rw [ustarArchive, List.length_append, List.length_replicate, hsum]

/-- All the files of an archive have places on a tour. -/
structure Placed (entries : List Entry) (rounds : List Nat) (last : Nat) : Prop where
  tarred : Tarred entries
  walk : Walk (ustarArchive entries) 0 (rounds ++ [last])
  tour : Tour (ustarArchive entries) 0 rounds last
  placed : ∀ e ∈ entries, e.directory = false →
    ∃ p ∈ rounds, ∃ r, Place (ustarArchive entries) p e.source.name e.contents r

namespace Placed

variable {entries : List Entry} {rounds : List Nat} {last : Nat}

theorem size_lt (h : Placed entries rounds last) {e : Entry} (he : e ∈ entries)
    (hdir : e.directory = false) : e.contents.length < 2147483648 := by
  obtain ⟨p, -, r, hplace⟩ := h.placed e he hdir
  have hhigh := (fromOct_bounds ((r.drop 124).take 11)).2
  have hsize : sizeOf r < 2147483648 := hhigh
  rw [← hplace.sized]
  omega

/-- The end marker is read where there are still 512 bytes. -/
theorem last_room (h : Placed entries rounds last) :
    last + recordSize ≤ (ustarArchive entries).length :=
  checkHeader_room (by
    rw [h.tour.ends]
    nofun)

theorem apart (h : Placed entries rounds last) :
    (entries.filter fun e => !e.directory).Pairwise fun e e' => ∀ p,
      (∃ r, Place (ustarArchive entries) p e.source.name e.contents r) →
        ¬ ∃ r, Place (ustarArchive entries) p e'.source.name e'.contents r := by
  have hnames := h.tarred.names
  rw [filesOf, List.map_map, List.Nodup, List.pairwise_map] at hnames
  refine hnames.imp fun {e e'} hne p => ?_
  rintro ⟨r, hr⟩ ⟨r', hr'⟩
  have hsame : r = r' := by
    have hrecord := hr.record
    rw [hr'.record] at hrecord
    cases hrecord
    rfl
  subst hsame
  exact hne (hr.named.symm.trans hr'.named)

/-- What the steps have more than the files need is little. -/
theorem surplus_le (h : Placed entries rounds last) {extra : Nat → Nat}
    (hle : ∀ x ∈ rounds, extra x ≤ stepOf (ustarArchive entries) x - x)
    (hroom : ∀ e ∈ entries, ∀ x r, Place (ustarArchive entries) x e.source.name e.contents r →
      e.bytes.length + extra x ≤ stepOf (ustarArchive entries) x - x) :
    (rounds.map extra).sum ≤ 1024 := by
  have hfiles := sum_le_of_places
    (P := fun p e => ∃ r, Place (ustarArchive entries) p e.source.name e.contents r)
    (b := fun e => e.bytes.length)
    (w := fun x => (stepOf (ustarArchive entries) x - x) - extra x)
    (entries.filter fun e => !e.directory) rounds ?_ h.apart ?_
  · have hsplit : (rounds.map fun x => (stepOf (ustarArchive entries) x - x) - extra x).sum +
        (rounds.map extra).sum = last := by
      rw [← List.sum_map_add]
      refine Eq.trans ?_ ((Nat.zero_add _).symm.trans h.tour.sum)
      refine congrArg List.sum (List.map_congr_left fun x hx => ?_)
      have hless := hle x hx
      omega
    have hlast := h.last_room
    have hsize : recordSize = 512 := by rfl
    have hdirs := h.tarred.directories
    rw [archive_sum h.tarred.standard] at hlast
    omega
  · intro e he
    rw [List.mem_filter] at he
    exact h.placed e he.1 (by simpa using he.2)
  · rintro e he x ⟨r, hplace⟩
    have hless := hroom e (List.mem_filter.mp he).1 x r hplace
    show e.bytes.length ≤ _
    omega

theorem step_own (h : Placed entries rounds last) {i : Nat} {r : Text} (hi : i ≤ entries.length)
    (hrecord : checkHeader (ustarArchive entries) (offsetOf entries i) = .record r)
    (hfile : IsFile r) :
    (stepOf (ustarArchive entries) (offsetOf entries i) - offsetOf entries i) % 512 = 0 := by
  rcases Nat.lt_or_eq_of_le hi with hlt | rfl
  · have he := List.getElem?_eq_getElem hlt
    have hmem := List.mem_of_getElem? he
    have hstd := h.tarred.standard _ hmem
    obtain ⟨-, rfl⟩ := checkHeader_offset_record hstd he hrecord
    have hdir : entries[i].directory = false := by
      cases hdir : entries[i].directory with
      | false => rfl
      | true =>
        rw [IsFile, typeflagOf_blanked hstd.length, (hstd.directory_flag hdir).1] at hfile
        exact absurd hfile (by decide)
    have hstep := stepOf_offset hstd he hdir (h.size_lt hmem hdir) hrecord
    have hnext := offsetOf_aligned h.tarred.standard (i + 1)
    have hhere := offsetOf_aligned h.tarred.standard i
    rw [hstep]
    split <;> omega
  · rw [checkHeader_ending] at hrecord
    cases hrecord

theorem le_sum_two {p q : Nat} (hp : p ∈ rounds) (hq : q ∈ rounds) (a b : Nat) :
    a + b ≤ (rounds.map fun x => (if x = q then a else 0) + (if x = p then b else 0)).sum := by
  have hsum := List.sum_map_add (l := rounds) (f := fun x => if x = q then a else 0)
    (g := fun x => if x = p then b else 0)
  have hone : ∀ (c y : Nat), y ∈ rounds →
      c ≤ (rounds.map fun x => if x = y then c else 0).sum := by
    intro c y hy
    refine List.single_le_sum (by simp) c (List.mem_map.mpr ⟨y, hy, if_pos rfl⟩)
  have ha := hone a q hq
  have hb := hone b p hp
  omega

/-- Every place is a multiple of 512: a step that is not, and the one that passed over 512 bytes
too many before, would leave too little for the files. -/
theorem aligned (h : Placed entries rounds last) : ∀ p ∈ rounds ++ [last], p % 512 = 0 := by
  have hstandard := h.tarred.standard
  have hsizes : ∀ e ∈ entries, e.directory = false → e.contents.length < 2147483648 :=
    fun e he hdir => h.size_lt he hdir
  have hend : (stepOf (ustarArchive entries) last - last) % 512 = 0 := by
    have hstep : stepOf (ustarArchive entries) last = last + recordSize := by
      simp only [stepOf, h.tour.ends]
    rw [hstep, Nat.add_sub_cancel_left]
    rfl
  refine h.walk.aligned (by simp) fun p hp => ?_
  rcases List.mem_append.mp hp with hp | hp
  swap
  · rw [List.mem_singleton.mp hp]
    exact hend
  by_contra hodd
  obtain ⟨r, hrecord, -⟩ := h.tour.record p hp
  obtain ⟨hfile, hnone, hlong⟩ := step_odd hrecord hodd
  have hown : ∀ i ≤ entries.length, p ≠ offsetOf entries i := by
    rintro i hi rfl
    exact hodd (h.step_own hi hrecord hfile)
  rcases walk_records hstandard hsizes h.walk ⟨0, Nat.zero_le _, rfl⟩ with
    ⟨q, hq, i, e, he, hdir, hmult, hqi, r', hrecord'⟩ | hall
  swap
  · obtain ⟨i, hi, hpi⟩ := hall p (List.mem_append_left _ hp)
    exact hown i hi hpi
  have hqmem : q ∈ rounds := by
    refine (List.mem_append.mp hq).resolve_right fun hlast => ?_
    rw [List.mem_singleton.mp hlast, h.tour.ends] at hrecord'
    cases hrecord'
  have hmem := List.mem_of_getElem? he
  have hpq : p ≠ q := fun heq =>
    hown i (Nat.le_of_lt (List.getElem?_eq_some_iff.mp he).1) (heq.trans hqi)
  have hstepq : stepOf (ustarArchive entries) q - q = e.bytes.length + 512 := by
    rw [hqi] at hrecord' ⊢
    rw [stepOf_offset (hstandard e hmem) he hdir (hsizes e hmem hdir) hrecord', offsetOf_succ he,
      if_pos (by simpa using hmult)]
    omega
  -- what the two steps have too much of
  have hmore := le_sum_two hp hqmem 512 513
  have hless := @surplus_le _ _ _ h
    (fun x => (if x = q then 512 else 0) + (if x = p then 513 else 0)) ?_ ?_
  · omega
  · intro x _
    by_cases hxq : x = q
    · have hxp : x ≠ p := fun heq => hpq (heq.symm.trans hxq)
      rw [if_pos hxq, if_neg hxp, hxq, hstepq]
      omega
    · rw [if_neg hxq]
      split
      · rename_i hxp
        rw [hxp]
        omega
      · omega
  · intro e' he' x r' hplace
    have hstep := hplace.step
    rw [← bytes_length (hstandard e' he')] at hstep
    by_cases hxq : x = q
    · have hxp : x ≠ p := fun heq => hpq (heq.symm.trans hxq)
      rw [if_pos hxq, if_neg hxp]
      -- the file read there is as long as the one that is there
      have hsame : e'.contents.length = e.contents.length := by
        have hread := hplace.record
        rw [hxq, hqi] at hread
        obtain ⟨-, rfl⟩ := checkHeader_offset_record (hstandard e hmem) he hread
        rw [← hplace.sized, sizeOf_of_lt (hstandard e hmem) (hsizes e hmem hdir)]
        rfl
      rw [hsame, if_pos (by simpa using hmult)] at hstep
      omega
    · rw [if_neg hxq]
      split
      · rename_i hxp
        have hread := hplace.record
        rw [hxp, hrecord] at hread
        cases hread
        have hzero := hplace.sized
        rw [hnone] at hzero
        have hlength : e'.bytes.length = 512 := by
          rw [bytes_length (hstandard e' he'), Entry.fill, ← hzero]
          rfl
        rw [hxp]
        omega
      · omega

/-! ### Where the header at a place comes from -/

theorem index_eq (h : Placed entries rounds last) {i j : Nat} {e e' : Entry}
    (he : entries[i]? = some e) (he' : entries[j]? = some e') (hdir : e.directory = false)
    (hdir' : e'.directory = false) (hname : e.source.name = e'.source.name) : i = j := by
  have hnames := h.tarred.names
  rw [filesOf, List.map_map, List.Nodup, List.pairwise_map, List.pairwise_filter] at hnames
  obtain ⟨hi, rfl⟩ := List.getElem?_eq_some_iff.mp he
  obtain ⟨hj, rfl⟩ := List.getElem?_eq_some_iff.mp he'
  have hall := List.pairwise_iff_getElem.mp hnames
  by_contra hne
  rcases Nat.lt_or_gt_of_ne hne with hlt | hlt
  · exact hall i j hi hj hlt (by simpa using hdir) (by simpa using hdir') hname
  · exact hall j i hj hi hlt (by simpa using hdir') (by simpa using hdir) hname.symm

/-- A block in the data that is read from a place is not a place, and in no other data. -/
theorem data_block (h : Placed entries rounds last) {p q j : Nat} {name name' r r' : Text}
    {e e' : Entry} (hp : p ∈ rounds) (hq : q ∈ rounds)
    (hplace : Place (ustarArchive entries) p name e.contents r)
    (hplace' : Place (ustarArchive entries) q name' e'.contents r')
    (hj : 512 * j < e.contents.length) :
    p + recordSize + 512 * j ≠ q ∧
      ∀ k, 512 * k < e'.contents.length → p + recordSize + 512 * j = q + recordSize + 512 * k →
        p = q ∧ j = k := by
  have hstep := hplace.step
  have hstep' := hplace'.step
  have hsize : recordSize = 512 := by rfl
  rcases h.tour.disjoint hp hq with rfl | hle | hle
  · refine ⟨by omega, fun k _ heq => ⟨rfl, by omega⟩⟩
  · refine ⟨by omega, fun k hk heq => absurd heq ?_⟩
    omega
  · refine ⟨by omega, fun k hk heq => absurd heq ?_⟩
    omega

theorem data_room (h : Placed entries rounds last) {p : Nat} {name r : Text} {e : Entry}
    (hplace : Place (ustarArchive entries) p name e.contents r) :
    p + recordSize + e.contents.length ≤ (ustarArchive entries).length := by
  have hlength := congrArg List.length hplace.data
  rw [dataOf, gzread_length, hplace.sized] at hlength
  have hroom := @checkHeader_room (ustarArchive entries) p (by
    rw [hplace.record]
    intro hbad
    cases hbad)
  omega

/-- The header that is read at the place of a file has the window of a header of the archive,
and of one other than that at `x`, if `x` is not that place and in nobody's data.  Otherwise
each block with that window would have a copy in the data that is read, and the header itself
is not among the copies. -/
theorem exists_header (h : Placed entries rounds last) {p : Nat} {e : Entry} {r : Text}
    (hp : p ∈ rounds) (hplace : Place (ustarArchive entries) p e.source.name e.contents r)
    (x : Nat) (hpx : p ≠ x)
    (hx : ∀ q ∈ rounds, ∀ (e' : Entry) (r' : Text), Place (ustarArchive entries) q e'.source.name e'.contents r' →
      ∀ j, 512 * j < e'.contents.length → q + recordSize + 512 * j ≠ x) :
    ∃ i z, entries[i]? = some z ∧ z.directory = false ∧ offsetOf entries i ≠ x ∧
      fileNameOf (nameOf (blanked z.header)) = e.source.name := by
  have hstandard := h.tarred.standard
  have haligned := h.aligned
  have hsize : recordSize = 512 := by rfl
  have hmagic := window_magic hplace.record
  by_contra hnone
  let same : Finset Nat := (Finset.range (ustarArchive entries).length).filter fun q =>
    q % 512 = 0 ∧ window (ustarArchive entries) q = window (ustarArchive entries) p ∧ q ≠ x
  have hmem : ∀ q, q ∈ same ↔ q < (ustarArchive entries).length ∧ q % 512 = 0 ∧
      window (ustarArchive entries) q = window (ustarArchive entries) p ∧ q ≠ x := by
    intro q
    simp only [same, Finset.mem_filter, Finset.mem_range]
  -- a block of the same window is in the contents of a file, and has its copy
  have hcopy : ∀ q ∈ same, ∃ q' ∈ same.erase p, ∃ i z j, ∃ t ∈ rounds, ∃ r',
      entries[i]? = some z ∧ z.directory = false ∧
      Place (ustarArchive entries) t z.source.name z.contents r' ∧ 512 * j < z.contents.length ∧
      q = offsetOf entries i + recordSize + 512 * j ∧ q' = t + recordSize + 512 * j := by
    intro q hq
    obtain ⟨hlt, hq512, hwindow, hqx⟩ := (hmem q).mp hq
    rw [← hwindow] at hmagic
    cases spot hstandard hq512 with
    | @header i z hz hqi =>
      have hstd := hstandard z (List.mem_of_getElem? hz)
      subst hqi
      rw [window_header hstd hz] at hwindow
      obtain ⟨hname, hflag⟩ := header_agrees hplace.record hstd hwindow
      cases hdir : z.directory with
      | false =>
        refine absurd ⟨i, z, hz, hdir, hqx, ?_⟩ hnone
        rw [hname, hplace.named]
      | true =>
        rw [(hstd.directory_flag hdir).1] at hflag
        exact absurd hflag.symm (dirType_of_isFile hplace.isFile)
    | @content i j z hz hj hqi =>
      have hzmem := List.mem_of_getElem? hz
      have hstd := hstandard z hzmem
      have hdir : z.directory = false := by
        cases hdir : z.directory with
        | false => rfl
        | true =>
          rw [(hstd.directory_flag hdir).2] at hj
          exact absurd hj (Nat.not_lt_zero _)
      obtain ⟨t, ht, r', hplace'⟩ := h.placed z hzmem hdir
      subst hqi
      obtain ⟨hroom, hcontent⟩ := window_content hstd hz hj hmagic
      refine ⟨t + recordSize + 512 * j, ?_, i, z, j, t, ht, r', hz, hdir, hplace', hj, rfl, rfl⟩
      have hdata := h.data_room hplace'
      have hwindow' : window (ustarArchive entries) (t + recordSize + 512 * j) =
          (z.contents.drop (512 * j)).take 264 := by
        have hsized := hplace'.sized
        have hread := hplace'.data
        rw [dataOf] at hread
        rw [← hread, gzread_gzread (by omega), window]
      have htaligned := haligned t (List.mem_append_left _ ht)
      rw [Finset.mem_erase, hmem]
      refine ⟨(h.data_block ht hp hplace' hplace hj).1, by omega, by omega, ?_, ?_⟩
      · rw [hwindow', ← hcontent, hwindow]
      · exact hx t ht z r' hplace' j hj
    | ending hend =>
      refine absurd ?_ hmagic
      rw [window, gzread, ustarArchive, List.drop_append, List.getD_eq_getElem?_getD,
        List.getElem?_take_of_lt (by decide), List.getElem?_append_right]
      · rw [List.getElem?_drop, List.getElem?_replicate]
        split <;> simp
      · rw [offsetOf, List.take_length] at hend
        rw [List.length_drop]
        omega
  choose! copy hcopied hfrom using hcopy
  have hpsame : p ∈ same := by
    have hroom := @checkHeader_room (ustarArchive entries) p (by
      rw [hplace.record]
      intro hbad
      cases hbad)
    exact (hmem p).mpr ⟨by omega, haligned p (List.mem_append_left _ hp), rfl, hpx⟩
  have hinj : Set.InjOn copy same := by
    intro a ha b hb hab
    obtain ⟨i, z, j, t, ht, r₁, hz, hdir, hplace₁, hj, ha', hcopy₁⟩ := hfrom a ha
    obtain ⟨k, y, l, s, hs, r₂, hy, hdir', hplace₂, hl, hb', hcopy₂⟩ := hfrom b hb
    rw [hcopy₁, hcopy₂] at hab
    obtain ⟨rfl, rfl⟩ := (h.data_block ht hs hplace₁ hplace₂ hj).2 l hl hab
    have hname : z.source.name = y.source.name := by
      have hrecord := hplace₁.record
      rw [hplace₂.record] at hrecord
      cases hrecord
      exact hplace₁.named.symm.trans hplace₂.named
    have hik := h.index_eq hz hy hdir hdir' hname
    rw [ha', hb', hik]
  have hcard := Finset.card_le_card_of_injOn copy hcopied hinj
  have hless := Finset.card_erase_lt_of_mem hpsame
  omega

/-- A name without a separator behind it makes the last part of a path longer. -/
theorem fileNameOf_append {s more : Text} (h : 47 ∉ more) :
    fileNameOf (s ++ more) = fileNameOf s ++ more := by
  have hall : ∀ c ∈ more.reverse, (c != 47) = true := by
    intro c hc
    have hmem := List.mem_reverse.mp hc
    simp only [bne_iff_ne, ne_eq]
    rintro rfl
    exact h hmem
  rw [fileNameOf, List.reverse_append, List.takeWhile_append_of_pos hall, List.reverse_append,
    List.reverse_reverse]
  rfl

/-- No name fills its field: the header at the place of such a file would come from that of
another one, of a shorter name. -/
theorem name_lt (h : Placed entries rounds last) : ∀ (n : Nat) {e : Entry}, e ∈ entries →
    e.directory = false → e.source.name.length = n → e.name.length < 100 := by
  intro n
  induction n using Nat.strongRecOn with
  | ind n ih =>
    intro e he hdir hn
    by_contra hlong
    obtain ⟨k, hk⟩ := List.mem_iff_getElem?.mp he
    obtain ⟨p, hp, r, hplace⟩ := h.placed e he hdir
    obtain ⟨i, z, hz, hzdir, -, hname⟩ := h.exists_header hp hplace (ustarArchive entries).length
      (by
        have hdata := h.data_room hplace
        have hsize : recordSize = 512 := by rfl
        omega)
      (fun q hq e' r' hplace' j hj => by
        have hdata := h.data_room hplace'
        omega)
    have hzmem := List.mem_of_getElem? hz
    obtain ⟨more, hread, hsep, hmore⟩ := nameOf_standard (h.tarred.standard z hzmem)
    rw [hread, fileNameOf_append hsep] at hname
    have hbase : z.source.name ++ more = e.source.name := hname
    cases more with
    | nil =>
      rw [List.append_nil] at hbase
      have hik := h.index_eq hz hk hzdir hdir hbase
      rw [hik, hk] at hz
      obtain rfl := Option.some.inj hz
      exact hlong (hmore.mp rfl)
    | cons c more =>
      have hlen := congrArg List.length hbase
      rw [List.length_append, List.length_cons] at hlen
      have hshort := ih z.source.name.length (by omega) hzmem hzdir rfl
      exact absurd (hmore.mpr hshort) (List.cons_ne_nil _ _)

/-- A file whose record is in nobody's data is unpacked from there. -/
theorem place_offset (h : Placed entries rounds last) {i : Nat} {e : Entry}
    (he : entries[i]? = some e) (hdir : e.directory = false)
    (hx : ∀ q ∈ rounds, ∀ (e' : Entry) (r' : Text), Place (ustarArchive entries) q e'.source.name e'.contents r' →
      ∀ j, 512 * j < e'.contents.length → q + recordSize + 512 * j ≠ offsetOf entries i) :
    offsetOf entries i ∈ rounds := by
  obtain ⟨p, hp, r, hplace⟩ := h.placed e (List.mem_of_getElem? he) hdir
  by_cases hpx : p = offsetOf entries i
  · rw [← hpx]
    exact hp
  · obtain ⟨k, z, hz, hzdir, hne, hname⟩ := h.exists_header hp hplace _ hpx hx
    have hzmem := List.mem_of_getElem? hz
    obtain ⟨more, hread, hsep, hmore⟩ := nameOf_standard (h.tarred.standard z hzmem)
    rw [hread, hmore.mpr (h.name_lt _ hzmem hzdir rfl), List.append_nil] at hname
    exact absurd (congrArg (offsetOf entries) (h.index_eq hz he hzdir hdir hname)) hne

/-- A place that is not inside a step is in nobody's data. -/
theorem outside_data {x : Nat}
    (hx : ∀ q ∈ rounds, x ≤ q ∨ stepOf (ustarArchive entries) q ≤ x) :
    ∀ q ∈ rounds, ∀ (e' : Entry) (r' : Text),
      Place (ustarArchive entries) q e'.source.name e'.contents r' →
        ∀ j, 512 * j < e'.contents.length → q + recordSize + 512 * j ≠ x := by
  intro q hq e' r' hplace j hj
  have hsize : recordSize = 512 := by rfl
  have hstep := hplace.step
  rcases hx q hq with hle | hle <;> omega

theorem outside_steps (h : Placed entries rounds last) {x : Nat} (hx : x ∈ rounds ∨ x = last) :
    ∀ q ∈ rounds, x ≤ q ∨ stepOf (ustarArchive entries) q ≤ x := by
  intro q hq
  rcases hx with hround | rfl
  · rcases h.tour.disjoint hround hq with heq | hle | hle
    · exact .inl (Nat.le_of_eq heq)
    · have hstep := le_stepOf (ustarArchive entries) x
      exact .inl (by omega)
    · exact .inr hle
  · exact .inr (h.tour.before q hq)

theorem next_mem (h : Placed entries rounds last) {p q : Nat} (hp : p ∈ rounds)
    (hstep : stepOf (ustarArchive entries) p = q) : q ∈ rounds ++ [last] := by
  have hnext := h.tour.next p hp
  rw [hstep] at hnext
  exact List.mem_append.mpr (hnext.imp_right List.mem_singleton.mpr)

/-- The record behind the directory's is that of a file. -/
theorem file_behind (h : Placed entries rounds last) {i : Nat} {e e' : Entry} {rest : List Entry}
    (hdrop : entries.drop i = e :: e' :: rest) (hdir : e.directory = true) :
    e'.directory = false := by
  cases hdir' : e'.directory with
  | false => rfl
  | true =>
    have hcount := h.tarred.directories
    have hsub : [e, e'].Sublist entries := by
      refine List.Sublist.trans ?_ (List.drop_sublist i entries)
      rw [hdrop]
      exact (List.nil_sublist rest).cons_cons e' |>.cons_cons e
    have htwo := (hsub.filter Entry.directory).length_le
    simp only [List.filter_cons, hdir, hdir', if_true, List.filter_nil, List.length_cons,
      List.length_nil] at htwo
    omega

theorem getElem?_of_drop {i : Nat} {e : Entry} {rest : List Entry}
    (hdrop : entries.drop i = e :: rest) : entries[i]? = some e := by
  rw [← Nat.add_zero i, ← List.getElem?_drop, hdrop]
  rfl

theorem drop_succ {i : Nat} {e : Entry} {rest : List Entry}
    (hdrop : entries.drop i = e :: rest) : entries.drop (i + 1) = rest := by
  rw [← List.drop_drop, hdrop]
  rfl

/-- A directory record that is taken for the end of the archive is one of zeros, and the last. -/
theorem last_directory (h : Placed entries rounds last) {i : Nat} {e : Entry} {rest : List Entry}
    (hdrop : entries.drop i = e :: rest) (hdir : e.directory = true)
    (hlast : offsetOf entries i = last) : recordSum e.header = 0 ∧ rest = [] := by
  have he := getElem?_of_drop hdrop
  have hstd := h.tarred.standard e (List.mem_of_getElem? he)
  constructor
  · have hends := h.tour.ends
    rw [← hlast] at hends
    rcases checkHeader_offset hstd he with ⟨-, hheader⟩ | ⟨-, hheader⟩
    · rw [hends] at hheader
      cases hheader
    · rw [hends] at hheader
      by_contra hsum
      rw [if_neg hsum] at hheader
      cases hheader
  · cases rest with
    | nil => rfl
    | cons e' rest =>
      have he' : entries[i + 1]? = some e' := getElem?_of_drop (drop_succ hdrop)
      have hbytes := directory_bytes hstd hdir
      have hoffset := offsetOf_succ he
      have hround := h.place_offset he' (h.file_behind hdrop hdir) (outside_data fun q hq => by
        have hbefore := h.tour.before q hq
        right
        omega)
      have hbefore := h.tour.before _ hround
      have hstep := le_stepOf (ustarArchive entries) (offsetOf entries (i + 1))
      have hsize : recordSize = 512 := by rfl
      omega

/-- A place behind which 512 bytes too many are passed over, up to the `i`-th record. -/
def PassedTo (entries : List Entry) (rounds : List Nat) (i : Nat) : Prop :=
  ∃ p ∈ rounds, p < offsetOf entries i ∧
    (∀ name contents r, Place (ustarArchive entries) p name contents r →
      p + recordSize + contents.length ≤ offsetOf entries i) ∧
    stepOf (ustarArchive entries) p = offsetOf entries i + 512

theorem directory_of_passedTo (h : Placed entries rounds last) {i : Nat} {e : Entry}
    (he : entries[i]? = some e) (hpassed : PassedTo entries rounds i) :
    e.directory = true ∧ offsetOf entries (i + 1) ∈ rounds ++ [last] := by
  obtain ⟨p, hp, hbefore, hdata, hstep⟩ := hpassed
  have hsize : recordSize = 512 := by rfl
  cases hdir : e.directory with
  | true =>
    have hlength := directory_bytes (h.tarred.standard e (List.mem_of_getElem? he)) hdir
    refine ⟨rfl, h.next_mem hp ?_⟩
    rw [hstep, offsetOf_succ he, hlength, hsize]
  | false =>
    -- the record of a file that is passed over has no other place
    have hround := h.place_offset he hdir fun q hq e' r' hplace j hj => by
      have hq' := h.tour.disjoint hp hq
      have hstep' := hplace.step
      rcases hq' with rfl | hle | hle
      · have hown := hdata _ _ _ hplace
        omega
      · omega
      · omega
    have hstep' := le_stepOf (ustarArchive entries) (offsetOf entries i)
    rcases h.tour.disjoint hp hround with heq | hle | hle <;> omega

/-- Behind a file whose size is a multiple of 512, 512 bytes too many are passed over; behind any
other one the next record is read. -/
theorem behind_file (h : Placed entries rounds last) {i : Nat} {e : Entry}
    (he : entries[i]? = some e) (hdir : e.directory = false)
    (hround : offsetOf entries i ∈ rounds) :
    if e.contents.length % 512 = 0 then PassedTo entries rounds (i + 1)
    else offsetOf entries (i + 1) ∈ rounds ++ [last] := by
  have hmem := List.mem_of_getElem? he
  have hstd := h.tarred.standard e hmem
  have hlt := h.size_lt hmem hdir
  obtain ⟨r, hrecord, -⟩ := h.tour.record _ hround
  have hstep := stepOf_offset hstd he hdir hlt hrecord
  by_cases hmult : e.contents.length % 512 = 0
  · rw [if_pos (by simpa using hmult)] at hstep
    rw [if_pos hmult]
    have hbytes := bytes_length hstd
    have hoffset := offsetOf_succ he
    have hsize : recordSize = 512 := by rfl
    refine ⟨offsetOf entries i, hround, by omega, ?_, hstep⟩
    intro name contents r' hplace
    have hsized := hplace.sized
    rw [(checkHeader_offset_record hstd he hplace.record).2, sizeOf_of_lt hstd hlt,
      Int.toNat_natCast] at hsized
    omega
  · rw [if_neg (by simpa using hmult), Nat.add_zero] at hstep
    rw [if_neg hmult]
    exact h.next_mem hround hstep

theorem kept (h : Placed entries rounds last) : ∀ (rest : List Entry) (i : Nat),
    entries.drop i = rest →
    (offsetOf entries i ∈ rounds ++ [last] → Kept false rest) ∧
    (PassedTo entries rounds i → Kept true rest) := by
  intro rest
  induction rest with
  | nil =>
    intro i _
    exact ⟨fun _ => trivial, fun _ => trivial⟩
  | cons e rest ih =>
    intro i hdrop
    have he := getElem?_of_drop hdrop
    have hmem := List.mem_of_getElem? he
    have hstd := h.tarred.standard e hmem
    have hrec := ih (i + 1) (drop_succ hdrop)
    constructor
    · intro hhere
      rw [List.mem_append, List.mem_singleton] at hhere
      cases hdir : e.directory with
      | false =>
        have hround := h.place_offset he hdir (outside_data (h.outside_steps hhere))
        obtain ⟨r, hrecord, -⟩ := h.tour.record _ hround
        have hbehind := h.behind_file he hdir hround
        rw [Kept, if_neg (by simp [hdir])]
        refine ⟨(checkHeader_offset_record hstd he hrecord).1, h.name_lt _ hmem hdir rfl,
          h.size_lt hmem hdir, ?_⟩
        by_cases hmult : e.contents.length % 512 = 0
        · rw [if_pos hmult] at hbehind
          rw [beq_iff_eq.mpr hmult]
          exact hrec.2 hbehind
        · rw [if_neg hmult] at hbehind
          rw [beq_eq_false_iff_ne.mpr hmult]
          exact hrec.1 hbehind
      | true =>
        rw [Kept, if_pos hdir]
        rcases hhere with hround | hlast
        · obtain ⟨r, hrecord, -⟩ := h.tour.record _ hround
          exact .inl ⟨(checkHeader_offset_record hstd he hrecord).1,
            hrec.1 (h.next_mem hround (stepOf_offset_directory hstd he hdir hrecord))⟩
        · exact .inr (h.last_directory hdrop hdir hlast)
    · intro hpassed
      have hdirectory := h.directory_of_passedTo he hpassed
      exact ⟨hdirectory.1, hrec.1 hdirectory.2⟩

end Placed

/-! ## What comes back -/

section Back

variable {sys : System} {dest : Text} {entries : List Entry}

theorem comesBack_kept (h : Tarred entries) (hworks : Works sys dest (filesOf entries))
    (hback : ComesBack sys (ustarArchive entries) dest (filesOf entries)) : Kept false entries := by
  obtain ⟨fuel, u, hrun, hfound, -⟩ := hback (fun _ => none) fun _ => rfl
  obtain ⟨headers, hwalk, hplace⟩ := (decompressLoop_run fuel hrun).place hworks.closes rfl
  have hstart : Walk (ustarArchive entries) 0 headers := hwalk
  obtain ⟨rounds, last, rfl, htour⟩ := hstart.tour
  have hplaced : Placed entries rounds last := by
    refine ⟨h, hstart, htour, fun e he hdir => ?_⟩
    have hmem : e.source ∈ filesOf entries :=
      List.mem_map_of_mem (List.mem_filter.mpr ⟨he, by simp [hdir]⟩)
    rcases hplace _ _ (hfound e.source hmem) with hnone | ⟨p, hp, r, hr⟩
    · cases hnone
    · refine ⟨p, (List.mem_append.mp hp).resolve_right fun hlast => ?_, r, hr⟩
      have hrecord := hr.record
      rw [List.mem_singleton.mp hlast, htour.ends] at hrecord
      cases hrecord
  have hfirst : offsetOf entries 0 ∈ rounds ++ [last] := by
    have hstart := htour.start
    simpa [offsetOf] using hstart
  exact (hplaced.kept entries 0 List.drop_zero).1 hfirst

/-- The files of a tar archive come back exactly if it is kept. -/
theorem tar_comes_back (h : Tarred entries) (hworks : Works sys dest (filesOf entries)) :
    ComesBack sys (ustarArchive entries) dest (filesOf entries) ↔ Kept false entries :=
  ⟨comesBack_kept h hworks, kept_comesBack h hworks⟩

end Back

/-! ## Two files -/

/-- Octal digits with zeros in front. -/
def zeroFilled (width n : Nat) : Text :=
  List.replicate (width - (octDigits n).length) 48 ++ octDigits n

/-- The header of a file as GNU tar writes it, with a checksum. -/
def gnuHeader (name contents checksum : Text) : Text :=
  strField 100 name ++ (bytes "0000644" ++ [0]) ++ (bytes "0001750" ++ [0]) ++
    (bytes "0001750" ++ [0]) ++ (zeroFilled 11 contents.length ++ [0]) ++
    (bytes "07064000000" ++ [0]) ++ checksum ++ [regType] ++ List.replicate 100 0 ++
    strField 8 tmagic ++ List.replicate 247 0

/-- A file as GNU tar packs it. -/
def gnuEntry (name contents : Text) : Entry where
  header := gnuHeader name contents
    (zeroFilled 6 (unsignedSum (gnuHeader name contents (List.replicate 8 32))) ++ [0, 32])
  name := name
  contents := contents
  directory := false

theorem one_byte_standard : Standard (gnuEntry (bytes "b") [1]) := by
  refine ⟨by decide +kernel, by decide, by decide, by decide +kernel,
    ⟨bytes "0000644", [], by decide +kernel, by decide, by decide, by decide⟩,
    ⟨bytes "00000000001", by decide +kernel, by decide +kernel, by decide +kernel⟩,
    ⟨zeroFilled 6 (unsignedSum (gnuHeader (bytes "b") [1] (List.replicate 8 32))),
      by decide +kernel, by decide +kernel, by decide +kernel, by decide +kernel⟩,
    fun _ => by decide +kernel, nofun, .inr (by decide +kernel)⟩

theorem tar_comes_back_one :
    ComesBack workingSystem (ustarArchive [gnuEntry (bytes "b") [1]]) (bytes "/t")
      (filesOf [gnuEntry (bytes "b") [1]]) ↔ Kept false [gnuEntry (bytes "b") [1]] :=
  tar_comes_back
    ⟨by simp [one_byte_standard], by simp [gnuEntry], List.nodup_singleton _⟩
    ⟨fun _ _ => rfl, fun _ => rfl, fun _ => rfl⟩

theorem empty_standard : Standard (gnuEntry (bytes "a") []) := by
  refine ⟨by decide +kernel, by decide, by decide, by decide +kernel,
    ⟨bytes "0000644", [], by decide +kernel, by decide, by decide, by decide⟩,
    ⟨bytes "00000000000", by decide +kernel, by decide +kernel, by decide +kernel⟩,
    ⟨zeroFilled 6 (unsignedSum (gnuHeader (bytes "a") [] (List.replicate 8 32))),
      by decide +kernel, by decide +kernel, by decide +kernel, by decide +kernel⟩,
    fun _ => by decide +kernel, nofun, .inr (by decide +kernel)⟩

/-- Behind an empty file the header of the next one is passed over. -/
theorem next_file_lost :
    Tarred [gnuEntry (bytes "a") [], gnuEntry (bytes "b") [1]] ∧
      ¬ ComesBack workingSystem
        (ustarArchive [gnuEntry (bytes "a") [], gnuEntry (bytes "b") [1]]) (bytes "/t")
        (filesOf [gnuEntry (bytes "a") [], gnuEntry (bytes "b") [1]]) := by
  have htarred : Tarred [gnuEntry (bytes "a") [], gnuEntry (bytes "b") [1]] := by
    refine ⟨?_, by simp [gnuEntry], by decide⟩
    simp [empty_standard, one_byte_standard]
  refine ⟨htarred, fun hback => ?_⟩
  have hkept := comesBack_kept htarred ⟨fun _ _ => rfl, fun _ => rfl, fun _ => rfl⟩ hback
  exact absurd hkept.2.2.2.1 (by simp [gnuEntry])

end FreeAmp.Ui
