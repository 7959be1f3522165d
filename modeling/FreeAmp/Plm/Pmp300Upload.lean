/-
  Plm/Pmp300Upload.lean --- what the uploading loop and the ordering of
  `PMP300::WritePlaylist` leave.

      uploadItems_spec    the loop, when nothing fails and when something does
      reorder_entryOrder  the files are put into the order of the items
-/
import FreeAmp.Plm.Pmp300

namespace FreeAmp.Plm.Pmp300

open FreeAmp.Base FreeAmp.Lib

/-! ## The file of an item -/

/-- What is on a card before anything is done. -/
def Device.card (d : Device) : Memory → List RioFile
  | .internal => d.internal.card
  | .external => d.external.card

/-- The file that a URL stands for. -/
def Denotes (d : Device) (files : Files) (url : Url) (f : RioFile) : Prop :=
  match url with
  | .file path => files path = some f.contents ∧ getFile path = f.name
  | .portable m index name => (d.card m)[index]? = some f ∧ f.name = name

theorem Denotes.unique {d : Device} {files : Files} {url : Url} {f g : RioFile}
    (h : Denotes d files url f) (h' : Denotes d files url g) : g = f := by
  cases url with
  | file path =>
    have hcontents := Option.some.inj (h.1.symm.trans h'.1)
    have hname := h.2.symm.trans h'.2
    cases f
    cases g
    simp_all
  | portable m index name => exact Option.some.inj (h'.1.symm.trans h.1)

/-- The files of items, one for each. -/
def AllDenote (d : Device) (files : Files) (items : List Item) (fs : List RioFile) : Prop :=
  List.Forall₂ (fun a f => Denotes d files a.url f) items fs

/-! ## Uploading -/

/-- An item that is uploaded. -/
def Item.isFile (a : Item) : Bool :=
  match a.url with
  | .file _ => true
  | .portable _ _ _ => false

/-- If the item is uploaded, it comes through. -/
def Comes (w : Wire) (files : Files) (m : Memory) (a : Item) : Prop :=
  match a.url with
  | .file path => (files path).isSome ∧ w.txFile m path = .done
  | .portable _ _ _ => True

variable {w : Wire} {d : Device} {m : Memory} {files : Files}

theorem txFile_of_comes {rio : CRio} {a : Item} {path : Text} (hurl : a.url = .file path)
    (h : Comes w files m a) :
    ∃ f, Denotes d files a.url f ∧
      rio.txFile w m files path = (.done, { rio with block := rio.block ++ [f] }) := by
  unfold Comes at h
  rw [hurl] at h ⊢
  obtain ⟨hsome, hdone⟩ := h
  obtain ⟨contents, hcontents⟩ := Option.isSome_iff_exists.mp hsome
  refine ⟨⟨getFile path, contents⟩, ⟨hcontents, rfl⟩, ?_⟩
  unfold CRio.txFile
  simp only [hcontents, hdone]

theorem txFile_of_not_comes {rio : CRio} {a : Item} {path : Text} (hurl : a.url = .file path)
    (h : ¬ Comes w files m a) :
    (rio.txFile w m files path).1 ≠ .done ∧ (rio.txFile w m files path).2 = rio := by
  unfold Comes at h
  rw [hurl] at h
  unfold CRio.txFile
  cases hcontents : files path with
  | none => exact ⟨nofun, rfl⟩
  | some contents =>
    cases hwire : w.txFile m path with
    | done => exact absurd ⟨by rw [hcontents]; rfl, hwire⟩ h
    | interrupted => exact ⟨nofun, rfl⟩
    | failed => exact ⟨nofun, rfl⟩

/-- What the uploading loop leaves when nothing fails. -/
structure Uploaded (d : Device) (files : Files) (items : List Item) (rio : CRio)
    (orig : List Item) (r : CRio × List Item) : Prop where
  card : r.1.card = rio.card
  orig : r.2 = orig ++ items.filter Item.isFile
  block : ∃ ups, r.1.block = rio.block ++ ups ∧ AllDenote d files (items.filter Item.isFile) ups

/-- What it leaves when something does. -/
structure Broken (w : Wire) (m : Memory) (files : Files) (items : List Item) (rio : CRio)
    (orig : List Item) (r : CRio × List Item) : Prop where
  card : r.1.card = rio.card
  broken : ∃ before a after, items = before ++ a :: after ∧ (∀ b ∈ before, Comes w files m b) ∧
    ¬ Comes w files m a ∧ r.2 = orig ++ before.filter Item.isFile

theorem uploadItems_spec {items orig : List Item} {rio : CRio} :
    ((uploadItems w m files items rio orig).1 = .noErr ∧ (∀ a ∈ items, Comes w files m a) ∧
        Uploaded d files items rio orig (uploadItems w m files items rio orig).2) ∨
      ((uploadItems w m files items rio orig).1 ≠ .noErr ∧
        Broken w m files items rio orig (uploadItems w m files items rio orig).2) := by
  induction items generalizing rio orig with
  | nil =>
    refine .inl ⟨rfl, fun a ha => absurd ha List.not_mem_nil, rfl, ?_, [], ?_, .nil⟩
    · exact (List.append_nil _).symm
    · exact (List.append_nil _).symm
  | cons a items ih =>
    unfold uploadItems
    cases hurl : a.url with
    | portable m' index name =>
      have hfile : a.isFile = false := by
        unfold Item.isFile
        rw [hurl]
      have hcomes : Comes w files m a := by
        unfold Comes
        rw [hurl]
        trivial
      simp only
      rcases @ih orig rio with ⟨hok, hall, hup⟩ | ⟨hfail, hbroken⟩
      · refine .inl ⟨hok, List.forall_mem_cons.mpr ⟨hcomes, hall⟩, hup.card, ?_, ?_⟩
        · rw [List.filter_cons_of_neg (by simp [hfile])]
          exact hup.orig
        · rw [List.filter_cons_of_neg (by simp [hfile])]
          exact hup.block
      · obtain ⟨before, b, after, hitems, hall, hnot, horig⟩ := hbroken.broken
        refine .inr ⟨hfail, hbroken.card, a :: before, b, after, by rw [hitems]; rfl,
          List.forall_mem_cons.mpr ⟨hcomes, hall⟩, hnot, ?_⟩
        rw [List.filter_cons_of_neg (by simp [hfile])]
        exact horig
    | file path =>
      have hfile : a.isFile = true := by
        unfold Item.isFile
        rw [hurl]
      simp only
      by_cases hcomes : Comes w files m a
      · obtain ⟨f, hdenotes, htx⟩ := @txFile_of_comes w d m files rio a path hurl hcomes
        rw [htx, if_pos rfl]
        rcases @ih (orig ++ [a]) { rio with block := rio.block ++ [f] } with
          ⟨hok, hall, hup⟩ | ⟨hfail, hbroken⟩
        · obtain ⟨ups, hblock, hups⟩ := hup.block
          refine .inl ⟨hok, List.forall_mem_cons.mpr ⟨hcomes, hall⟩, hup.card, ?_, f :: ups,
            ?_, ?_⟩
          · rw [List.filter_cons_of_pos hfile, hup.orig, List.append_assoc]
            rfl
          · rw [hblock, List.append_assoc]
            rfl
          · rw [List.filter_cons_of_pos hfile]
            exact .cons hdenotes hups
        · obtain ⟨before, b, after, hitems, hall, hnot, horig⟩ := hbroken.broken
          refine .inr ⟨hfail, hbroken.card, a :: before, b, after, by rw [hitems]; rfl,
            List.forall_mem_cons.mpr ⟨hcomes, hall⟩, hnot, ?_⟩
          rw [List.filter_cons_of_pos hfile, horig, List.append_assoc]
          rfl
      · obtain ⟨hnot, hrio⟩ := @txFile_of_not_comes w m files rio a path hurl hcomes
        rw [if_neg hnot]
        refine .inr ⟨?_, congrArg CRio.card hrio, [], a, items, rfl,
          fun b hb => absurd hb List.not_mem_nil, hcomes, (List.append_nil _).symm⟩
        cases htx : (rio.txFile w m files path).1 with
        | done => exact absurd htx hnot
        | interrupted => exact nofun
        | failed => exact nofun

/-! ## The order -/

/-- Items that are all on the device are found, and their files with them. -/
theorem entryOrder_of_subset {orig new : List Item} {block : List RioFile}
    (hblock : AllDenote d files orig block)
    (hsub : ∀ a ∈ new, a.url ∈ orig.map Item.url) :
    ∃ order moved, entryOrder orig new = some order ∧ order.length = new.length ∧
      order.mapM (fun k => block[k]?) = some moved ∧ AllDenote d files new moved := by
  induction new with
  | nil => exact ⟨[], [], rfl, rfl, rfl, .nil⟩
  | cons a new ih =>
    rw [List.forall_mem_cons] at hsub
    obtain ⟨order, moved, horder, hlen, hmoved, hall⟩ := ih hsub.2
    obtain ⟨b, hb, hurl⟩ := List.mem_map.mp hsub.1
    have hfound : ∃ k, orig.findIdx? (fun c => c.url == a.url) = some k := by
      rw [← Option.isSome_iff_exists, List.findIdx?_isSome, List.any_eq_true]
      exact ⟨b, hb, by simpa using hurl⟩
    obtain ⟨k, hk⟩ := hfound
    obtain ⟨hlt, hkurl, -⟩ := List.findIdx?_eq_some_iff_getElem.mp hk
    obtain ⟨hlength, hget⟩ := List.forall₂_iff_get.mp hblock
    have hlt' : k < block.length := hlength ▸ hlt
    have hdenotes := hget k hlt hlt'
    simp only [List.get_eq_getElem] at hdenotes
    rw [show orig[k].url = a.url by simpa using hkurl] at hdenotes
    refine ⟨k :: order, block[k] :: moved, ?_, by rw [List.length_cons, hlen, List.length_cons],
      ?_, .cons hdenotes hall⟩
    · unfold entryOrder at horder ⊢
      rw [List.mapM_cons, hk, horder]
      rfl
    · rw [List.mapM_cons, List.getElem?_eq_getElem hlt', hmoved]
      rfl

theorem reorder_entryOrder {orig new : List Item} {block : List RioFile}
    (hblock : AllDenote d files orig block)
    (hperm : (new.map Item.url).Perm (orig.map Item.url)) :
    ∃ order wanted, entryOrder orig new = some order ∧
      CRio.reorder block order = some wanted ∧ AllDenote d files new wanted := by
  obtain ⟨order, moved, horder, hlen, hmoved, hall⟩ := entryOrder_of_subset hblock fun a ha =>
    hperm.mem_iff.mp (List.mem_map_of_mem ha)
  have hlength : order.length = block.length := by
    have hitems := hperm.length_eq
    rw [List.length_map, List.length_map] at hitems
    rw [hlen, hitems]
    exact hblock.length_eq
  refine ⟨order, moved, horder, ?_, hall⟩
  unfold CRio.reorder
  rw [hmoved]
  show (if order.length ≤ block.length then _ else none) = _
  rw [if_pos hlength.le, hlength, List.drop_length, List.append_nil]

end FreeAmp.Plm.Pmp300
