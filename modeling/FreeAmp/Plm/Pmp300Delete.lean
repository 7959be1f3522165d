/-
  Plm/Pmp300Delete.lean --- what the deleting loop of `PMP300::WritePlaylist` leaves.

      Deleted            what is left of a memory, of the files and of the other list
      deleted_of_noErr   the loop, when nothing fails
-/
import FreeAmp.Plm.Pmp300

namespace FreeAmp.Plm.Pmp300

open FreeAmp.Base FreeAmp.Lib

/-! ## Names and URLs -/

/-- A name in which no separator of any kind is. -/
def PlainName (name : Text) : Prop := ∀ c ∈ name, (c != 92 && c != dirMarker && c != 58) = true

instance (name : Text) : Decidable (PlainName name) :=
  inferInstanceAs (Decidable (∀ c ∈ name, (c != 92 && c != dirMarker && c != 58) = true))

theorem PlainName.marker {name : Text} (h : PlainName name) : dirMarker ∉ name := by
  intro hmem
  exact absurd (h dirMarker hmem) (by decide)

theorem lastPart_portable {m : Memory} {index : Nat} {name : Text} (h : PlainName name) :
    (Url.portable m index name).lastPart = name := by
  unfold Url.lastPart Url.text
  rw [reverse_takeWhile_marker h.marker, List.reverse_reverse]

/-- The name of a temporary file is that of the file it is of. -/
theorem getFile_downloadPath {name : Text} (h : PlainName name) (tempPath : Text) :
    getFile (downloadPath tempPath name) = name := by
  unfold getFile downloadPath
  rw [reverse_takeWhile_append (by decide) h, List.reverse_reverse]

theorem downloadPath_inj {tempPath name name' : Text}
    (h : downloadPath tempPath name = downloadPath tempPath name') : name = name' :=
  (List.cons.inj (List.append_cancel_left h)).2

/-- URLs in the place of which a temporary file has come. -/
def renamed (tempPath : Text) (gone : List Url) (url : Url) : Url :=
  if url ∈ gone then .file (downloadPath tempPath url.lastPart) else url

/-- An item with such a URL. -/
def renameItem (tempPath : Text) (gone : List Url) (a : Item) : Item :=
  { a with url := renamed tempPath gone a.url }

theorem url_map_renameItem (tempPath : Text) (gone : List Url) (items : List Item) :
    (items.map (renameItem tempPath gone)).map Item.url =
      (items.map Item.url).map (renamed tempPath gone) := by
  rw [List.map_map, List.map_map]
  rfl

theorem renamed_of_not_mem {tempPath : Text} {gone : List Url} {url : Url} (h : url ∉ gone) :
    renamed tempPath gone url = url :=
  if_neg h

theorem map_renameItem_of_not_mem {tempPath : Text} {gone : List Url} {items : List Item}
    (h : ∀ a ∈ items, a.url ∉ gone) : items.map (renameItem tempPath gone) = items := by
  refine (List.map_congr_left fun a ha => ?_).trans (List.map_id items)
  unfold renameItem
  rw [renamed_of_not_mem (h a ha)]
  rfl

theorem mem_renamed_iff {tempPath : Text} {gone urls : List Url} {m : Memory} {index : Nat}
    {name : Text} (h : Url.portable m index name ∉ gone) :
    Url.portable m index name ∈ urls.map (renamed tempPath gone) ↔
      Url.portable m index name ∈ urls := by
  constructor
  · intro hmem
    obtain ⟨url, hurl, heq⟩ := List.mem_map.mp hmem
    unfold renamed at heq
    split at heq
    · exact absurd heq nofun
    · exact heq ▸ hurl
  · intro hmem
    exact List.mem_map.mpr ⟨_, hmem, renamed_of_not_mem h⟩

theorem setURL_eq {old new : Url} {items : List Item} (h : (items.map Item.url).Nodup) :
    setURL old new items =
      items.map fun a => if a.url = old then { a with url := new } else a := by
  induction items with
  | nil => rfl
  | cons a items ih =>
    rw [List.map_cons, List.nodup_cons] at h
    rw [setURL, List.map_cons]
    split
    · rename_i hurl
      have hrest : items.map (fun b => if b.url = old then { b with url := new } else b) =
          items := by
        refine (List.map_congr_left fun b hb => ?_).trans (List.map_id items)
        apply if_neg
        intro heq
        apply h.1
        rw [hurl, ← heq]
        exact List.mem_map_of_mem hb
      rw [hrest]
    · rw [ih h.2]

/-! ## The directory -/

theorem names_before {before after : List RioFile} {f : RioFile}
    (h : ((before ++ f :: after).map RioFile.name).Nodup) :
    ∀ g ∈ before, ¬ (g.name == f.name) = true := by
  rw [List.map_append, List.map_cons, List.nodup_append] at h
  intro g hg heq
  exact h.2.2 g.name (List.mem_map_of_mem hg) f.name List.mem_cons_self (by simpa using heq)

theorem findFile_middle {rio : CRio} {before after : List RioFile} {f : RioFile}
    (hblock : rio.block = before ++ f :: after) (hnames : (rio.block.map RioFile.name).Nodup) :
    rio.findFile f.name = some f := by
  rw [hblock] at hnames
  unfold CRio.findFile
  rw [hblock, List.find?_append, List.find?_eq_none.mpr (names_before hnames), Option.none_or]
  simp

theorem removeFile_middle {rio : CRio} {before after : List RioFile} {f : RioFile}
    (hblock : rio.block = before ++ f :: after) (hnames : (rio.block.map RioFile.name).Nodup) :
    rio.removeFile f.name = some { rio with block := before ++ after } := by
  have hfind := findFile_middle hblock hnames
  unfold CRio.removeFile
  rw [hfind]
  rw [hblock] at hnames
  simp only [hblock]
  rw [List.eraseP_append_right _ (names_before hnames)]
  simp

/-! ## One item -/

variable {w : Wire} {tempPath : Text} {m : Memory} {here : List Item}

structure Standing (m : Memory) (z : Item × RioFile) : Prop where
  url : ∃ index, z.1.url = .portable m index z.2.name
  plain : PlainName z.2.name

theorem Standing.lastPart {z : Item × RioFile} (h : Standing m z) :
    z.1.url.lastPart = z.2.name := by
  obtain ⟨index, hurl⟩ := h.url
  rw [hurl, lastPart_portable h.plain]

theorem deleteItem_of_noErr {s : Deleting} {z : Item × RioFile} {before after : List RioFile}
    (hstanding : Standing m z) (hgone : z.1.url ∉ here.map Item.url)
    (hblock : s.rio.block = before ++ z.2 :: after)
    (hnames : (s.rio.block.map RioFile.name).Nodup) (hthere : (s.there.map Item.url).Nodup)
    (hok : (deleteItem w tempPath m here s z.1).1 = .noErr) :
    (deleteItem w tempPath m here s z.1).2 =
      { rio := { s.rio with block := before ++ after }
        files :=
          if z.1.url ∈ s.there.map Item.url then
            s.files.put (downloadPath tempPath z.2.name) z.2.contents
          else s.files
        there := s.there.map (renameItem tempPath [z.1.url])
        marks := s.marks ++ [none] } := by
  have hlast := hstanding.lastPart
  have hremove := removeFile_middle hblock hnames
  have hrename : s.there.map (renameItem tempPath [z.1.url]) =
      s.there.map fun a => if a.url = z.1.url then
        { a with url := .file (downloadPath tempPath z.2.name) } else a := by
    refine List.map_congr_left fun a _ => ?_
    unfold renameItem renamed
    by_cases ha : a.url = z.1.url
    · rw [if_pos (List.mem_singleton.mpr ha), if_pos ha, ha, hlast]
    · rw [if_neg (fun hmem => ha (List.mem_singleton.mp hmem)), if_neg ha]
  unfold deleteItem at hok ⊢
  rw [if_neg hgone] at hok ⊢
  by_cases hmove : z.1.url ∈ s.there.map Item.url
  · cases hwire : w.rxFile m z.2.name with
    | done =>
      have hrx : s.rio.rxFile w m s.files (downloadPath tempPath z.2.name) =
          (.done, s.files.put (downloadPath tempPath z.2.name) z.2.contents) := by
        simp only [CRio.rxFile, getFile_downloadPath hstanding.plain,
          findFile_middle hblock hnames, hwire]
      have hfetch : fetch w tempPath m s z.1 =
          (.noErr,
            { s with
              files := s.files.put (downloadPath tempPath z.2.name) z.2.contents
              there := s.there.map (renameItem tempPath [z.1.url]) }) := by
        unfold fetch
        rw [if_pos hmove, hlast]
        simp only [hrx, if_pos, setURL_eq hthere, hrename]
        rfl
      simp only [hfetch, hlast, hremove, if_pos hmove]
      rfl
    | interrupted | failed =>
      exfalso
      have hrx : s.rio.rxFile w m s.files (downloadPath tempPath z.2.name) =
          (w.rxFile m z.2.name, s.files.put (downloadPath tempPath z.2.name) []) := by
        simp only [CRio.rxFile, getFile_downloadPath hstanding.plain,
          findFile_middle hblock hnames, hwire]
      have hfail : (fetch w tempPath m s z.1).1 ≠ .noErr := by
        unfold fetch
        rw [if_pos hmove, hlast]
        simp only [hrx, hwire]
        cases m <;> exact fun hsame => by cases hsame
      simp only [if_pos hfail] at hok
      exact hfail hok
  · have hfetch : fetch w tempPath m s z.1 = (.noErr, s) := if_neg hmove
    have hsame : s.there.map (renameItem tempPath [z.1.url]) = s.there :=
      map_renameItem_of_not_mem fun a ha hmem =>
        hmove (List.mem_singleton.mp hmem ▸ List.mem_map_of_mem ha)
    simp only [hfetch, hlast, hremove, if_neg hmove, hsame]
    rfl

/-! ## The loop -/

/-- What the loop leaves, when nothing fails: `kept` are the files before those that it is
about. -/
structure Deleted (tempPath : Text) (here : List Item) (kept : List RioFile)
    (zs : List (Item × RioFile)) (s s' : Deleting) : Prop where
  block : s'.rio.block =
    kept ++ (zs.filter fun z => decide (z.1.url ∈ here.map Item.url)).map Prod.snd
  card : s'.rio.card = s.rio.card
  marks : s'.marks = s.marks ++
    zs.map fun z => if z.1.url ∈ here.map Item.url then some z.1 else none
  there : s'.there = s.there.map (renameItem tempPath
    ((zs.filter fun z => decide (z.1.url ∉ here.map Item.url)).map fun z => z.1.url))
  fetched : ∀ z ∈ zs, z.1.url ∉ here.map Item.url → z.1.url ∈ s.there.map Item.url →
    s'.files (downloadPath tempPath z.2.name) = some z.2.contents
  untouched : ∀ p, (∀ z ∈ zs, z.1.url ∉ here.map Item.url → z.1.url ∈ s.there.map Item.url →
    p ≠ downloadPath tempPath z.2.name) → s'.files p = s.files p

theorem mem_there_iff {gone : Item × RioFile} {z : Item × RioFile} {there : List Item}
    (hz : Standing m z) (hne : z.1.url ≠ gone.1.url) :
    z.1.url ∈ (there.map (renameItem tempPath [gone.1.url])).map Item.url ↔
      z.1.url ∈ there.map Item.url := by
  obtain ⟨index, hurl⟩ := hz.url
  rw [url_map_renameItem, hurl]
  apply mem_renamed_iff
  rw [List.mem_singleton, ← hurl]
  exact hne

theorem renameItem_cons {url : Url} {gone : List Url}
    (hgone : ∀ u ∈ gone, ∀ path, u ≠ .file path) (a : Item) :
    renameItem tempPath gone (renameItem tempPath [url] a) =
      renameItem tempPath (url :: gone) a := by
  unfold renameItem renamed
  by_cases ha : a.url = url
  · rw [if_pos (List.mem_singleton.mpr ha), if_pos (List.mem_cons.mpr (.inl ha)), if_neg]
    exact fun hmem => hgone _ hmem _ rfl
  · rw [if_neg (fun hmem => ha (List.mem_singleton.mp hmem))]
    by_cases hmem : a.url ∈ gone
    · rw [if_pos hmem, if_pos (List.mem_cons_of_mem _ hmem)]
    · rw [if_neg hmem, if_neg (fun h => (List.mem_cons.mp h).elim ha hmem)]

theorem nodup_renamed {url : Url} {urls : List Url} (h : urls.Nodup)
    (hnew : ∀ path, .file path ∈ urls → path ≠ downloadPath tempPath url.lastPart) :
    (urls.map (renamed tempPath [url])).Nodup := by
  refine h.map_on fun x hx y hy heq => ?_
  unfold renamed at heq
  simp only [List.mem_singleton] at heq
  split_ifs at heq with hxurl hyurl hyurl
  · rw [hxurl, hyurl]
  · rw [← heq] at hy
    exact absurd (congrArg (downloadPath tempPath ∘ Url.lastPart) hxurl) (hnew _ hy)
  · rw [heq] at hx
    exact absurd (congrArg (downloadPath tempPath ∘ Url.lastPart) hyurl) (hnew _ hx)
  · exact heq

/-- What is known of an item whose name is no other one's. -/
structure Single (z : Item × RioFile) (zs : List (Item × RioFile)) : Prop where
  url : ∀ z' ∈ zs, z'.1.url ≠ z.1.url
  name : ∀ z' ∈ zs, z.2.name ≠ z'.2.name

/-- What `deleteItem` makes of the state with an item that is to go. -/
def deletedItem (tempPath : Text) (z : Item × RioFile) (block : List RioFile) (s : Deleting) : Deleting :=
  { rio := { s.rio with block := block }
    files :=
      if z.1.url ∈ s.there.map Item.url then
        s.files.put (downloadPath tempPath z.2.name) z.2.contents
      else s.files
    there := s.there.map (renameItem tempPath [z.1.url])
    marks := s.marks ++ [none] }

section Cons

variable {z : Item × RioFile} {zs : List (Item × RioFile)} {kept block : List RioFile}
  {s v : Deleting}

theorem Deleted.cons_here (hhere : z.1.url ∈ here.map Item.url)
    (hrest : Deleted tempPath here (kept ++ [z.2]) zs { s with marks := s.marks ++ [some z.1] } v) :
    Deleted tempPath here kept (z :: zs) s v := by
  refine ⟨?_, hrest.card, ?_, ?_, ?_, ?_⟩
  · rw [hrest.block, List.filter_cons_of_pos (by simpa using hhere), List.map_cons,
      List.append_assoc, List.singleton_append]
  · rw [hrest.marks, List.map_cons, if_pos hhere, List.append_assoc, List.singleton_append]
  · rw [hrest.there, List.filter_cons_of_neg (by simpa using hhere)]
  · intro z' hz' hgone
    rcases List.mem_cons.mp hz' with rfl | hz'
    · exact absurd hhere hgone
    · exact hrest.fetched z' hz' hgone
  · intro p hp
    exact hrest.untouched p fun z' hz' => hp z' (List.mem_cons_of_mem _ hz')

theorem Deleted.cons_gone (hgone : z.1.url ∉ here.map Item.url)
    (hstanding : ∀ z' ∈ zs, Standing m z') (hsingle : Single z zs)
    (hrest : Deleted tempPath here kept zs (deletedItem tempPath z block s) v) :
    Deleted tempPath here kept (z :: zs) s v := by
  refine ⟨?_, hrest.card, ?_, ?_, ?_, ?_⟩
  · rw [hrest.block, List.filter_cons_of_neg (by simpa using hgone)]
  · rw [hrest.marks, List.map_cons, if_neg hgone]
    show s.marks ++ [none] ++ _ = _
    rw [List.append_assoc, List.singleton_append]
  · rw [hrest.there, List.filter_cons_of_pos (by simpa using hgone), List.map_cons]
    show (s.there.map _).map _ = _
    rw [List.map_map]
    refine List.map_congr_left fun a _ => renameItem_cons ?_ a
    intro u hu path heq
    obtain ⟨z', hz', rfl⟩ := List.mem_map.mp hu
    obtain ⟨index, hurl⟩ := (hstanding z' (List.mem_filter.mp hz').1).url
    rw [hurl] at heq
    exact absurd heq nofun
  · intro z' hz' hgone' hin
    rcases List.mem_cons.mp hz' with rfl | hz'
    · rw [hrest.untouched _ fun z'' hz'' _ _ heq => hsingle.name z'' hz'' (downloadPath_inj heq)]
      unfold deletedItem
      simp only [if_pos hin]
      exact if_pos rfl
    · exact hrest.fetched z' hz' hgone'
        ((mem_there_iff (hstanding z' hz') (hsingle.url z' hz')).mpr hin)
  · intro p hp
    rw [hrest.untouched p fun z' hz' hgone' hin => hp z' (List.mem_cons_of_mem _ hz') hgone'
      ((mem_there_iff (hstanding z' hz') (hsingle.url z' hz')).mp hin)]
    unfold deletedItem
    dsimp only
    split
    · rename_i hin
      exact if_neg (hp z List.mem_cons_self hgone hin)
    · rfl

end Cons

/-- The loop over the items of a memory, when nothing fails. -/
theorem deleted_of_noErr {zs : List (Item × RioFile)} {kept : List RioFile} {s : Deleting}
    (hstanding : ∀ z ∈ zs, Standing m z) (hurls : (zs.map fun z => z.1.url).Nodup)
    (hblock : s.rio.block = kept ++ zs.map Prod.snd)
    (hnames : (s.rio.block.map RioFile.name).Nodup) (hthere : (s.there.map Item.url).Nodup)
    (hfresh : ∀ path, .file path ∈ s.there.map Item.url →
      ∀ z ∈ zs, path ≠ downloadPath tempPath z.2.name)
    (hok : (deleteItems w tempPath m here (zs.map Prod.fst) s).1 = .noErr) :
    Deleted tempPath here kept zs s (deleteItems w tempPath m here (zs.map Prod.fst) s).2 := by
  induction zs generalizing s kept with
  | nil =>
    rw [List.map_nil, List.append_nil] at hblock
    exact ⟨by simpa [deleteItems] using hblock, rfl, by simp [deleteItems],
      (map_renameItem_of_not_mem fun _ _ => List.not_mem_nil).symm,
      fun z hz => absurd hz List.not_mem_nil, fun _ _ => rfl⟩
  | cons z zs ih =>
    rw [List.map_cons] at hok hblock ⊢
    rw [List.map_cons, List.nodup_cons] at hurls
    rw [List.forall_mem_cons] at hstanding
    unfold deleteItems at hok ⊢
    by_cases hhere : z.1.url ∈ here.map Item.url
    · have hitem : deleteItem w tempPath m here s z.1 =
          (.noErr, { s with marks := s.marks ++ [some z.1] }) := if_pos hhere
      simp only [hitem, ne_eq, not_true_eq_false, if_false] at hok ⊢
      exact .cons_here hhere (@ih (kept ++ [z.2]) { s with marks := s.marks ++ [some z.1] }
        hstanding.2 hurls.2 (by simpa using hblock) hnames hthere
        (fun path hpath z' hz' => hfresh path hpath z' (List.mem_cons_of_mem _ hz')) hok)
    · have hitemOk : (deleteItem w tempPath m here s z.1).1 = .noErr := by
        by_contra hfail
        rw [if_pos hfail] at hok
        exact hfail hok
      have hitem : (deleteItem w tempPath m here s z.1).2 =
          deletedItem tempPath z (kept ++ zs.map Prod.snd) s :=
        deleteItem_of_noErr hstanding.1 hhere hblock hnames hthere hitemOk
      rw [if_neg (not_not_intro hitemOk), hitem] at hok ⊢
      rw [hblock, List.map_append, List.map_cons, List.nodup_append, List.nodup_cons] at hnames
      -- what the other items are, does not change
      have hsingle : Single z zs := by
        refine ⟨fun z' hz' heq => hurls.1 (heq ▸ List.mem_map_of_mem hz'), fun z' hz' heq => ?_⟩
        apply hnames.2.1.1
        rw [heq]
        exact List.mem_map_of_mem (List.mem_map_of_mem hz')
      have hthere' : ((s.there.map (renameItem tempPath [z.1.url])).map Item.url).Nodup := by
        rw [url_map_renameItem]
        apply nodup_renamed hthere
        intro path hpath
        rw [hstanding.1.lastPart]
        exact hfresh path hpath z List.mem_cons_self
      refine .cons_gone hhere hstanding.2 hsingle
        (@ih kept (deletedItem tempPath z _ s) hstanding.2 hurls.2 rfl ?_ hthere' ?_ hok)
      · show ((kept ++ zs.map Prod.snd).map RioFile.name).Nodup
        rw [List.map_append]
        exact List.nodup_append.mpr ⟨hnames.1, hnames.2.1.2, fun a ha b hb =>
          hnames.2.2 a ha b (List.mem_cons_of_mem _ hb)⟩
      · intro path hpath z' hz'
        unfold deletedItem at hpath
        rw [url_map_renameItem] at hpath
        obtain ⟨url, hurl, heq⟩ := List.mem_map.mp hpath
        unfold renamed at heq
        split at heq
        · rename_i hmem
          rw [← Url.file.inj heq, List.mem_singleton.mp hmem, hstanding.1.lastPart]
          exact fun heq => hsingle.name z' hz' (downloadPath_inj heq)
        · rw [heq] at hurl
          exact hfresh path hurl z' (List.mem_cons_of_mem _ hz')

/-! ## The card -/

theorem rio_fetch (s : Deleting) (a : Item) : (fetch w tempPath m s a).2.rio = s.rio := by
  unfold fetch
  split <;> rfl

theorem card_deleteItem (s : Deleting) (a : Item) :
    (deleteItem w tempPath m here s a).2.rio.card = s.rio.card := by
  have hfetch : (fetch w tempPath m s a).2.rio = s.rio := rio_fetch s a
  unfold deleteItem
  split
  · rfl
  · simp only
    split
    · exact congrArg CRio.card hfetch
    · split
      · exact congrArg CRio.card hfetch
      · rename_i rio hremove
        unfold CRio.removeFile at hremove
        split at hremove
        · exact absurd hremove nofun
        · rw [← Option.some.inj hremove]
          show (fetch w tempPath m s a).2.rio.card = _
          rw [hfetch]

theorem card_deleteItems (items : List Item) (s : Deleting) :
    (deleteItems w tempPath m here items s).2.rio.card = s.rio.card := by
  induction items generalizing s with
  | nil => rfl
  | cons a items ih =>
    unfold deleteItems
    simp only
    split
    · exact card_deleteItem s a
    · rw [ih]
      exact card_deleteItem s a

end FreeAmp.Plm.Pmp300
