/-
  Plm/Pmp300Playlist.lean --- when `PMP300::WritePlaylist` puts the list on the device, and
  loses nothing.

      transferred_of_failed     a return with an error
      orderPart_transferred     the return without one
      writePlaylist_transfers   any return
-/
import FreeAmp.Plm.Pmp300Transfer

namespace FreeAmp.Plm.Pmp300

open FreeAmp.Base FreeAmp.Lib

variable {w : Wire} {d : Device} {tempPath : Text} {files : Files} {list : List Item}

/-! ## Cleaning up -/

theorem cleanUp_of_fresh {items : List Item}
    (h : ∀ a ∈ items, ∀ path, a.url = .file path → inTemp tempPath path = false) (files : Files) :
    cleanUp tempPath (items.map some) files = (true, files) := by
  induction items with
  | nil => rfl
  | cons a items ih =>
    rw [List.forall_mem_cons] at h
    rw [List.map_cons]
    unfold cleanUp
    cases hurl : a.url with
    | file path =>
      simp only
      rw [if_neg (by rw [h.1 path hurl]; exact nofun)]
      exact ih h.2
    | portable m index name => exact ih h.2

theorem finish_of_fresh {items : List Item} {result : Error} {internal external : CRio}
    (h : ∀ a ∈ items, ∀ path, a.url = .file path → inTemp tempPath path = false) (files : Files) :
    finish tempPath result internal external files (items.map some) =
      { result := some result, internal, external, files } := by
  unfold finish
  rw [cleanUp_of_fresh h]
  rfl

/-! ## A return with an error -/

theorem card_txDirectory (m : Memory) (last : Bool) (rio : CRio) :
    (rio.txDirectory w m last).card = rio.block ∨ (rio.txDirectory w m last).card = rio.card := by
  unfold CRio.txDirectory
  split
  · exact .inl rfl
  · exact .inr rfl

theorem block_txDirectory (m : Memory) (last : Bool) (rio : CRio) :
    (rio.txDirectory w m last).block = rio.block := by
  unfold CRio.txDirectory
  split <;> rfl

/-- After the deletes, the file of an item is still in the directory and on the card, or in a
temporary file. -/
theorem Cleared.kept_or_temp {files' : Files} {m : Memory} {items orig new : List Item}
    {rio : CRio} (h : Cleared d tempPath files files' m items rio orig new) {a : Item}
    (ha : a ∈ items) {m' : Memory} {index : Nat} {name : Text} (hurl : a.url = .portable m' index name)
    (hproduced : a ∈ itemsOf m' (d.card m')) {f : RioFile} (hf : Denotes d files a.url f) :
    (f ∈ rio.block ∧ f ∈ d.card m) ∨
      ∃ path, inTemp tempPath path = true ∧ files' path = some f.contents ∧ getFile path = f.name := by
  by_cases hm : m' = m
  · left
    subst hm
    have horig : a ∈ orig := by
      rw [h.stays]
      exact List.mem_filter.mpr ⟨hproduced, by simpa using ⟨a, ha, rfl⟩⟩
    obtain ⟨k, hk, hget⟩ := List.mem_iff_getElem.mp horig
    obtain ⟨hlength, hall⟩ := List.forall₂_iff_get.mp (h.block files)
    have hdenotes := hall k hk (hlength ▸ hk)
    simp only [List.get_eq_getElem, hget] at hdenotes
    refine ⟨hdenotes.unique hf ▸ List.getElem_mem _, ?_⟩
    unfold Denotes at hf
    rw [hurl] at hf
    exact List.mem_of_getElem? hf.1
  · right
    have hmoves : Moves m a := by
      unfold Moves
      rw [hurl]
      exact hm
    obtain ⟨-, -, -, hfetched, -⟩ := h.new
    obtain ⟨g, hdenotes, -, hplain, hcontents⟩ := hfetched a ha hmoves
    obtain rfl := hdenotes.unique hf
    exact ⟨_, inTemp_downloadPath _ _, hcontents, getFile_downloadPath hplain _⟩

theorem transferred_of_failed (hlist : FromDevice d list) {j : Job} {o : Outcome}
    (hafter : AfterDelete d tempPath files list j) (hresult : o.result ≠ some .noErr)
    (hinternal : o.internal.card = j.internal.block ∨ o.internal.card = d.internal.card)
    (hexternal : o.external.card = j.external.block ∨ o.external.card = d.external.card)
    (hfiles : o.files = j.files) : Transferred d tempPath files list o := by
  refine ⟨fun hok => absurd hok hresult, fun a ha m index name hurl f hf => ?_⟩
  have hproduced := hlist.produced a ha m index name hurl
  rcases mem_halves.mp ha with hin | hin
  · rcases hafter.internal.kept_or_temp hin hurl hproduced hf with ⟨hblock, hcard⟩ | htemp
    · left
      rcases hinternal with heq | heq
      · exact heq ▸ hblock
      · exact heq ▸ hcard
    · rw [← hfiles] at htemp
      exact .inr (.inr htemp)
  · rcases hafter.external.kept_or_temp hin hurl hproduced hf with ⟨hblock, hcard⟩ | htemp
    · right
      left
      rcases hexternal with heq | heq
      · exact heq ▸ hblock
      · exact heq ▸ hcard
    · rw [← hfiles] at htemp
      exact .inr (.inr htemp)

theorem transferred_of_untouched {o : Outcome} (hresult : o.result ≠ some .noErr)
    (hinternal : o.internal.card = d.internal.card) (hexternal : o.external.card = d.external.card) :
    Transferred d tempPath files list o := by
  refine ⟨fun hok => absurd hok hresult, fun a _ m index name hurl f hf => ?_⟩
  unfold Denotes at hf
  rw [hurl] at hf
  have hmem := List.mem_of_getElem? hf.1
  cases m with
  | internal => exact .inl (hinternal ▸ hmem)
  | external => exact .inr (.inl (hexternal ▸ hmem))

/-! ## The uploads -/

/-- An item comes through after the deletes as it does in the list. -/
theorem Cleared.comes_iff {files' : Files} {m : Memory} {items orig new : List Item} {rio : CRio}
    (h : Cleared d tempPath files files' m items rio orig new)
    (hfiles : ∀ a ∈ items, ∀ path, a.url = .file path → files' path = files path)
    {gone : List Url} (hgone : ∀ a ∈ items, a.url ∈ gone ↔ Moves m a) {a : Item} (ha : a ∈ items) :
    Comes w files' m (renameItem tempPath gone a) ↔ Sent w files tempPath m a := by
  by_cases hmoves : Moves m a
  · obtain ⟨-, -, -, hfetched, -⟩ := h.new
    obtain ⟨f, hdenotes, hname, hplain, hcontents⟩ := hfetched a ha hmoves
    have hurl' : (renameItem tempPath gone a).url =
        .file (downloadPath tempPath a.url.lastPart) := if_pos ((hgone a ha).mpr hmoves)
    cases hurl : a.url with
    | file path =>
      unfold Moves at hmoves
      rw [hurl] at hmoves
      exact hmoves.elim
    | portable m' index name =>
      have hlast : a.url.lastPart = name := by
        unfold Denotes at hdenotes
        rw [hurl] at hdenotes
        rw [← hname, hdenotes.2]
      unfold Moves at hmoves
      rw [hurl] at hmoves
      unfold Comes Sent
      rw [hurl', hurl, ← hurl, hlast]
      rw [hname, hlast] at hcontents
      simp only [hurl, hcontents, Option.isSome_some, true_and, hmoves, false_or]
  · have hsame : (renameItem tempPath gone a).url = a.url :=
      renamed_of_not_mem fun hmem => hmoves ((hgone a ha).mp hmem)
    unfold Comes Sent
    rw [hsame]
    cases hurl : a.url with
    | file path => simp only [hfiles a ha path hurl]
    | portable m' index name =>
      unfold Moves at hmoves
      rw [hurl] at hmoves
      exact ⟨fun _ => .inl (not_not.mp hmoves), fun _ => trivial⟩

/-- Where the uploads to a memory break off, those of the list do. -/
theorem Cleared.broken {files' : Files} {m : Memory} {items orig new : List Item} {rio : CRio}
    (h : Cleared d tempPath files files' m items rio orig new)
    (hfiles : ∀ a ∈ items, ∀ path, a.url = .file path → files' path = files path)
    {before after : List Item} {a : Item} (hnew : new = before ++ a :: after)
    (hbefore : ∀ b ∈ before, Comes w files' m b) (hbroken : ¬ Comes w files' m a) :
    ∃ before' a' after', items = before' ++ a' :: after' ∧
      (∀ b ∈ before', Sent w files tempPath m b) ∧ ¬ Sent w files tempPath m a' ∧
      ((∀ b ∈ before', ¬ Moves m b) → before = before') := by
  obtain ⟨gone, hrenamed, hgone, -⟩ := h.new
  rw [hrenamed] at hnew
  obtain ⟨before', rest, rfl, rfl, hrest⟩ := List.map_eq_append_iff.mp hnew
  obtain ⟨a', after', rfl, rfl, rfl⟩ := List.map_eq_cons_iff.mp hrest
  have hmem : ∀ b ∈ before', b ∈ before' ++ a' :: after' := fun b hb =>
    List.mem_append_left _ hb
  refine ⟨before', a', after', rfl, ?_, ?_, ?_⟩
  · intro b hb
    exact (h.comes_iff hfiles hgone (hmem b hb)).mp (hbefore _ (List.mem_map_of_mem hb))
  · intro hsent
    exact hbroken ((h.comes_iff hfiles hgone (by simp)).mpr hsent)
  · intro hnone
    exact map_renameItem_of_not_mem fun b hb hgone' =>
      hnone b hb ((hgone b (hmem b hb)).mp hgone')

/-- Where nothing comes from the other memory the list is sent as it is. -/
theorem Cleared.new_eq {files' : Files} {m : Memory} {items orig new : List Item} {rio : CRio}
    (h : Cleared d tempPath files files' m items rio orig new) (hnone : ∀ a ∈ items, ¬ Moves m a) :
    new = items := by
  obtain ⟨gone, hnew, hgone, -⟩ := h.new
  rw [hnew]
  exact map_renameItem_of_not_mem fun a ha hmem => hnone a ha ((hgone a ha).mp hmem)

theorem Cleared.orig_portable {files' : Files} {m : Memory} {items orig new : List Item}
    {rio : CRio} (h : Cleared d tempPath files files' m items rio orig new) {a : Item}
    (ha : a ∈ orig) (path : Text) : a.url ≠ .file path := by
  rw [h.stays] at ha
  obtain ⟨index, f, -, rfl⟩ := mem_itemsOf (List.mem_filter.mp ha).1
  exact nofun

/-- If all come through, all items of the list are sent. -/
theorem Cleared.sent {files' : Files} {m : Memory} {items orig new : List Item} {rio : CRio}
    (h : Cleared d tempPath files files' m items rio orig new)
    (hfiles : ∀ a ∈ items, ∀ path, a.url = .file path → files' path = files path)
    (hcomes : ∀ a ∈ new, Comes w files' m a) : ∀ a ∈ items, Sent w files tempPath m a := by
  obtain ⟨gone, hnew, hgone, -⟩ := h.new
  intro a ha
  apply (h.comes_iff hfiles hgone ha).mp
  apply hcomes
  rw [hnew]
  exact List.mem_map_of_mem ha

theorem uploadPart_error (h : InOrder w d tempPath files list) (hlist : FromDevice d list) {j : Job}
    (hafter : AfterDelete d tempPath files list j) {o : Outcome}
    (herror : uploadPart w tempPath j = .error o) : Transferred d tempPath files list o := by
  have hin := fun a ha => mem_halves.mpr (.inl ha : _ ∨ a ∈ toExternal d files list)
  have hex := fun a ha => mem_halves.mpr (.inr ha : a ∈ toInternal d files list ∨ _)
  have hfilesIn := fun a ha => hafter.untouched a (hin a ha)
  have hfilesEx := fun a ha => hafter.untouched a (hex a ha)
  have hcardIn : (j.internal.txDirectory w .internal false).card = j.internal.block ∨
      (j.internal.txDirectory w .internal false).card = d.internal.card :=
    (card_txDirectory _ _ _).imp_right fun heq => heq.trans hafter.internal.card
  have hcardEx : (j.external.txDirectory w .external false).card = j.external.block ∨
      (j.external.txDirectory w .external false).card = d.external.card :=
    (card_txDirectory _ _ _).imp_right fun heq => heq.trans hafter.external.card
  unfold uploadPart at herror
  simp only at herror
  split at herror
  · rename_i hfail
    rcases @uploadItems_spec w d .internal j.files j.newInternal j.origInternal
      (j.internal.txDirectory w .internal false) with ⟨hok, -⟩ | ⟨-, hbroken⟩
    · exact absurd hok hfail
    obtain ⟨before, a, after, hnew, hbefore, hnot, horig⟩ := hbroken.broken
    obtain ⟨before', a', after', hitems, hsent, hnot', hsame⟩ :=
      hafter.internal.broken hfilesIn hnew hbefore hnot
    obtain rfl := hsame (h.sentInternal before' a' after' hitems hsent hnot')
    rw [finish_of_fresh] at herror
    · rw [← Except.error.inj herror]
      exact transferred_of_failed hlist hafter (fun heq => hfail (Option.some.inj heq))
        (hbroken.card ▸ hcardIn) hcardEx rfl
    · intro b hb path hurl
      rw [horig, List.mem_append, List.mem_append] at hb
      rcases hb with (hb | hb) | hb
      · exact absurd hurl (hafter.internal.orig_portable hb path)
      · refine h.fresh b (hin b ?_) path hurl
        rw [hitems]
        exact List.mem_append_left _ (List.mem_filter.mp hb).1
      · exact absurd hurl (hafter.external.orig_portable hb path)
  · rename_i hok1
    split at herror
    · rename_i hfail
      rcases @uploadItems_spec w d .internal j.files j.newInternal j.origInternal
        (j.internal.txDirectory w .internal false) with ⟨-, hcomes, hup⟩ | ⟨hfail1, -⟩
      swap
      · exact absurd hfail1 hok1
      rcases @uploadItems_spec w d .external j.files j.newExternal j.origExternal
        (j.external.txDirectory w .external false) with ⟨hok, -⟩ | ⟨-, hbroken⟩
      · exact absurd hok hfail
      obtain ⟨before, a, after, hnew, hbefore, hnot, horig⟩ := hbroken.broken
      have hsent := hafter.internal.sent hfilesIn hcomes
      obtain ⟨before', a', after', hitems, hsent', hnot', hsame⟩ :=
        hafter.external.broken hfilesEx hnew hbefore hnot
      have hnone := h.sentExternal hsent before' a' after' hitems hsent' hnot'
      obtain rfl := hsame hnone.2
      rw [finish_of_fresh] at herror
      · rw [← Except.error.inj herror]
        exact transferred_of_failed hlist hafter (fun heq => hfail (Option.some.inj heq))
          (hup.card ▸ hcardIn) (hbroken.card ▸ hcardEx) rfl
      · intro b hb path hurl
        rw [hup.orig, horig, hafter.internal.new_eq hnone.1] at hb
        simp only [List.mem_append, List.mem_filter] at hb
        rcases hb with (hb | hb) | (hb | hb)
        · exact absurd hurl (hafter.internal.orig_portable hb path)
        · exact h.fresh b (hin b hb.1) path hurl
        · exact absurd hurl (hafter.external.orig_portable hb path)
        · refine h.fresh b (hex b ?_) path hurl
          rw [hitems]
          exact List.mem_append_left _ hb.1
    · exact absurd herror nofun

theorem uploadPart_ok {j j' : Job} (hok : uploadPart w tempPath j = .ok j') :
    Uploaded d j.files j.newInternal (j.internal.txDirectory w .internal false) j.origInternal
        (j'.internal, j'.origInternal) ∧
      Uploaded d j.files j.newExternal (j.external.txDirectory w .external false) j.origExternal
        (j'.external, j'.origExternal) ∧
      j'.files = j.files ∧ j'.newInternal = j.newInternal ∧ j'.newExternal = j.newExternal := by
  unfold uploadPart at hok
  simp only at hok
  split at hok
  · exact absurd hok nofun
  rename_i hok1
  split at hok
  · exact absurd hok nofun
  rename_i hok2
  rw [← Except.ok.inj hok]
  refine ⟨?_, ?_, rfl, rfl, rfl⟩
  · rcases @uploadItems_spec w d .internal j.files j.newInternal j.origInternal
      (j.internal.txDirectory w .internal false) with ⟨-, -, hup⟩ | ⟨hfail, -⟩
    · exact hup
    · exact absurd hfail hok1
  · rcases @uploadItems_spec w d .external j.files j.newExternal j.origExternal
      (j.external.txDirectory w .external false) with ⟨-, -, hup⟩ | ⟨hfail, -⟩
    · exact hup
    · exact absurd hfail hok2

/-! ## The return without an error -/

theorem Cleared.ordered {files' : Files} {m : Memory} {items orig new orig' : List Item}
    {rio rio' : CRio} (h : Cleared d tempPath files files' m items rio orig new)
    (hdistinct : (items.map Item.url).Nodup)
    (hproduced : ∀ a ∈ items, ∀ m' index name, a.url = .portable m' index name →
      a ∈ itemsOf m' (d.card m'))
    (hfresh : ∀ a ∈ items, ∀ path, a.url = .file path → inTemp tempPath path = false)
    (hfiles : ∀ a ∈ items, ∀ path, a.url = .file path → files' path = files path)
    (hup : Uploaded d files' new (rio.txDirectory w m false) orig (rio', orig'))
    (hsynced : w.txDirectory m true = true) :
    ∃ order, entryOrder orig' new = some order ∧
      AllDenote d files items ((rio'.setFileOrder order).txDirectory w m true).card := by
  obtain ⟨ups, hblock, hups⟩ := hup.block
  have horig : orig' = orig ++ new.filter Item.isFile := hup.orig
  have hall : AllDenote d files' orig' rio'.block := by
    rw [horig, show rio'.block = _ from hblock, block_txDirectory]
    exact List.rel_append (h.block files') hups
  have hperm := h.perm hdistinct hproduced hfresh
  rw [← horig] at hperm
  obtain ⟨order, wanted, horder, hwanted, hdenote⟩ := reorder_entryOrder hall hperm
  refine ⟨order, horder, ?_⟩
  unfold CRio.txDirectory CRio.setFileOrder
  rw [if_pos hsynced, hwanted]
  exact (h.allDenote_iff hfiles).mp hdenote

theorem transferred_of_complete {o : Outcome}
    (h : AllDenote d files list (o.internal.card ++ o.external.card)) :
    Transferred d tempPath files list o := by
  refine ⟨fun _ => h, fun a ha m index name _ f hf => ?_⟩
  obtain ⟨k, hk, hget⟩ := List.mem_iff_getElem.mp ha
  obtain ⟨hlength, hall⟩ := List.forall₂_iff_get.mp h
  have hdenotes := hall k hk (hlength ▸ hk)
  simp only [List.get_eq_getElem, hget] at hdenotes
  have hmem : f ∈ o.internal.card ++ o.external.card :=
    hdenotes.unique hf ▸ List.getElem_mem _
  rcases List.mem_append.mp hmem with hin | hex
  · exact .inl hin
  · exact .inr (.inl hex)

/-- The files are on the device, in the order of the list. -/
theorem orderPart_transferred (h : InOrder w d tempPath files list) (hlist : FromDevice d list)
    {j j' : Job} (hafter : AfterDelete d tempPath files list j)
    (hok : uploadPart w tempPath j = .ok j') :
    Transferred d tempPath files list (orderPart w tempPath j') := by
  have hin := fun a ha => mem_halves.mpr (.inl ha : _ ∨ a ∈ toExternal d files list)
  have hex := fun a ha => mem_halves.mpr (.inr ha : a ∈ toInternal d files list ∨ _)
  obtain ⟨hupIn, hupEx, -, hnewIn, hnewEx⟩ := uploadPart_ok (d := d) hok
  have hdistinct := hlist.distinct
  rw [← List.take_append_drop (fitCount d.internalTotal (list.map (itemBytes files))) list,
    List.map_append, List.nodup_append] at hdistinct
  obtain ⟨orderIn, horderIn, hcardIn⟩ := hafter.internal.ordered hdistinct.1
    (fun a ha => hlist.produced a (hin a ha)) (fun a ha => h.fresh a (hin a ha))
    (fun a ha => hafter.untouched a (hin a ha)) hupIn (h.synced .internal)
  obtain ⟨orderEx, horderEx, hcardEx⟩ := hafter.external.ordered hdistinct.2.1
    (fun a ha => hlist.produced a (hex a ha)) (fun a ha => h.fresh a (hex a ha))
    (fun a ha => hafter.untouched a (hex a ha)) hupEx (h.synced .external)
  apply transferred_of_complete
  unfold orderPart
  rw [hnewIn, hnewEx, horderIn, horderEx]
  have hboth : AllDenote d files (toInternal d files list ++ toExternal d files list) (_ ++ _) :=
    List.rel_append hcardIn hcardEx
  rwa [toInternal, toExternal, List.take_append_drop] at hboth

/-! ## `WritePlaylist` -/

theorem plan_halves (h : InOrder w d tempPath files list) (hlist : FromDevice d list)
    {s : Plan} (hs : s =
      { path := none
        internalTotal := d.internalTotal
        externalTotal := d.externalTotal
        useExternal := false
        newInternal := []
        newExternal := [] }) (hok : (plan files list s).1 = .noErr) :
    (plan files list s).2.newInternal = toInternal d files list ∧
      (plan files list s).2.newExternal = toExternal d files list := by
  subst hs
  have hfits := h.fits
  unfold toExternal at hfits
  rw [List.map_drop] at hfits
  have hplan := plan_internal (sized_of_list h hlist) rfl hfits hok
  rw [List.nil_append, List.nil_append] at hplan
  exact hplan

/-- No transfer fails. -/
def sureWire : Wire where
  rxDirectory := fun _ => true
  rxFile := fun _ _ => .done
  txFile := fun _ _ => .done
  txDirectory := fun _ _ => true

/-- A device that holds a file. -/
def oneFile (externalTotal : Nat) : Device where
  internal := ⟨[⟨bytes "a", [1, 2, 3, 4]⟩], [⟨bytes "a", [1, 2, 3, 4]⟩]⟩
  external := ⟨[], []⟩
  internalTotal := 4
  externalTotal := externalTotal

def newFile : Files := fun p => if p = bytes "/b" then some [5, 6, 7, 8] else none

def newThenOld : List Item :=
  [⟨.file (bytes "/b"), 4⟩, ⟨.portable .internal 0 (bytes "a"), 4⟩]

theorem newThenOld_fromDevice (externalTotal : Nat) :
    FromDevice (oneFile externalTotal) newThenOld := by
  refine ⟨by decide +kernel, fun a ha m index name hurl => ?_⟩
  simp only [newThenOld, List.mem_cons, List.not_mem_nil, or_false] at ha
  rcases ha with rfl | rfl
  · exact absurd hurl nofun
  · obtain ⟨rfl, rfl, rfl⟩ := Url.portable.inj hurl
    exact List.mem_singleton.mpr rfl

theorem newThenOld_sent (m : Memory) : ∀ a ∈ newThenOld, Sent sureWire newFile (bytes "/t") m a := by
  intro a ha
  simp only [newThenOld, List.mem_cons, List.not_mem_nil, or_false] at ha
  rcases ha with rfl | rfl
  · exact ⟨rfl, rfl⟩
  · exact .inr rfl

end FreeAmp.Plm.Pmp300
