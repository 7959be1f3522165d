/-
  Plm/Pmp300Transfer.lean --- the plan of `PMP300::WritePlaylist`, and what the deleting part
  leaves for the uploads.

      InOrder         what lets a list be written
      Transferred     what is asked of a transfer
      plan_internal   the plan, when there is room for all
      deletePart_ok   what is left of the memories, of the files and of the list
-/
import FreeAmp.Plm.Pmp300Delete
import FreeAmp.Plm.Pmp300Upload
import Mathlib.Data.List.ReduceOption

namespace FreeAmp.Plm.Pmp300

open FreeAmp.Base FreeAmp.Lib

/-! ## The plan -/

/-- The size that is planned with. -/
def itemBytes (files : Files) (a : Item) : Nat :=
  if a.size ≠ 0 then a.size
  else
    match a.url with
    | .file path => ((files path).map List.length).getD 0
    | .portable _ _ _ => 0

/-- How many of the sizes there is room for. -/
def fitCount : Nat → List Nat → Nat
  | _, [] => 0
  | room, size :: sizes => if size ≤ room then fitCount (room - size) sizes + 1 else 0

/-- The metadata of an item that is on the device says its size. -/
def Sized (a : Item) : Prop := ∀ m index name, a.url = .portable m index name → a.size ≠ 0

theorem itemSize_eq {files : Files} {path : Option Text} {a : Item} {size : Nat} (h : Sized a)
    (hsize : (itemSize files path a).2 = some size) : size = itemBytes files a := by
  unfold itemSize at hsize
  unfold itemBytes
  split at hsize
  · rename_i hne
    rw [if_pos hne]
    exact (Option.some.inj hsize).symm
  · rename_i hzero
    rw [if_neg hzero]
    cases hurl : a.url with
    | file p =>
      simp only [hurl, Option.bind_some] at hsize
      show size = ((files p).map List.length).getD 0
      rw [hsize]
      rfl
    | portable m index name => exact absurd (h m index name hurl) hzero

theorem plan_cons_none {files : Files} {a : Item} {list : List Item} {s : Plan}
    (hsize : (itemSize files s.path a).2 = none) : (plan files (a :: list) s).1 = .fileNoAccess := by
  rw [plan]
  simp only [hsize]

/-- An item for which there is room in the internal memory. -/
theorem plan_cons_internal {files : Files} {a : Item} {list : List Item} {s : Plan} {size : Nat}
    (hsize : (itemSize files s.path a).2 = some size) (huse : s.useExternal = false)
    (hroom : size ≤ s.internalTotal) :
    plan files (a :: list) s = plan files list
      { s with
        path := (itemSize files s.path a).1
        internalTotal := s.internalTotal - size
        newInternal := s.newInternal ++ [a] } := by
  rw [plan]
  simp only [hsize]
  rw [if_pos (by rw [huse, decide_eq_true hroom]; rfl)]

/-- An item for which there is none, but in the external memory. -/
theorem plan_cons_external {files : Files} {a : Item} {list : List Item} {s : Plan} {size : Nat}
    (hsize : (itemSize files s.path a).2 = some size)
    (huse : s.useExternal = true ∨ s.internalTotal < size) (hroom : size ≤ s.externalTotal) :
    plan files (a :: list) s = plan files list
      { s with
        path := (itemSize files s.path a).1
        useExternal := true
        externalTotal := s.externalTotal - size
        newExternal := s.newExternal ++ [a] } := by
  rw [plan]
  simp only [hsize]
  rw [if_neg, if_pos hroom]
  rcases huse with huse | hfull
  · rw [huse]
    exact nofun
  · rw [decide_eq_false (Nat.not_le.mpr hfull), Bool.and_false]
    exact nofun

theorem plan_external {files : Files} {list : List Item} {s : Plan} (hsized : ∀ a ∈ list, Sized a)
    (huse : s.useExternal = true) (hfits : (list.map (itemBytes files)).sum ≤ s.externalTotal)
    (hok : (plan files list s).1 = .noErr) :
    (plan files list s).2.newInternal = s.newInternal ∧
      (plan files list s).2.newExternal = s.newExternal ++ list := by
  induction list generalizing s with
  | nil => exact ⟨rfl, (List.append_nil _).symm⟩
  | cons a list ih =>
    rw [List.forall_mem_cons] at hsized
    rw [List.map_cons, List.sum_cons] at hfits
    cases hsize : (itemSize files s.path a).2 with
    | none =>
      rw [plan_cons_none hsize] at hok
      exact absurd hok nofun
    | some size =>
      have hbytes := itemSize_eq hsized.1 hsize
      rw [plan_cons_external hsize (.inl huse) (by omega)] at hok ⊢
      have hrest := ih hsized.2 rfl (Nat.le_sub_of_add_le (by omega)) hok
      rw [hrest.1, hrest.2, List.append_assoc]
      exact ⟨rfl, rfl⟩

theorem plan_internal {files : Files} {list : List Item} {s : Plan} (hsized : ∀ a ∈ list, Sized a)
    (huse : s.useExternal = false)
    (hfits : ((list.map (itemBytes files)).drop
      (fitCount s.internalTotal (list.map (itemBytes files)))).sum ≤ s.externalTotal)
    (hok : (plan files list s).1 = .noErr) :
    (plan files list s).2.newInternal =
        s.newInternal ++ list.take (fitCount s.internalTotal (list.map (itemBytes files))) ∧
      (plan files list s).2.newExternal =
        s.newExternal ++ list.drop (fitCount s.internalTotal (list.map (itemBytes files))) := by
  induction list generalizing s with
  | nil => exact ⟨(List.append_nil _).symm, (List.append_nil _).symm⟩
  | cons a list ih =>
    have hsized' := List.forall_mem_cons.mp hsized
    cases hsize : (itemSize files s.path a).2 with
    | none =>
      rw [plan_cons_none hsize] at hok
      exact absurd hok nofun
    | some size =>
      obtain rfl := itemSize_eq hsized'.1 hsize
      by_cases hroom : itemBytes files a ≤ s.internalTotal
      · have hcount : fitCount s.internalTotal ((a :: list).map (itemBytes files)) =
            fitCount (s.internalTotal - itemBytes files a) (list.map (itemBytes files)) + 1 :=
          if_pos hroom
        rw [hcount] at hfits ⊢
        rw [plan_cons_internal hsize huse hroom] at hok ⊢
        have hrest := @ih
          { s with
            path := (itemSize files s.path a).1
            internalTotal := s.internalTotal - itemBytes files a
            newInternal := s.newInternal ++ [a] } hsized'.2 huse hfits hok
        rw [hrest.1, hrest.2, List.append_assoc]
        exact ⟨rfl, rfl⟩
      · -- from here on all goes to the external memory
        have hcount : fitCount s.internalTotal ((a :: list).map (itemBytes files)) = 0 :=
          if_neg hroom
        rw [hcount, List.drop_zero, List.map_cons, List.sum_cons] at hfits
        rw [hcount, List.take_zero, List.drop_zero, List.append_nil]
        rw [plan_cons_external hsize (.inr (Nat.not_le.mp hroom)) (by omega)] at hok ⊢
        have hrest := plan_external hsized'.2 rfl (Nat.le_sub_of_add_le (by omega)) hok
        rw [hrest.1, hrest.2, List.append_assoc]
        exact ⟨rfl, rfl⟩

/-! ## The list -/

/-- The items that are to be in the internal memory. -/
def toInternal (d : Device) (files : Files) (list : List Item) : List Item :=
  list.take (fitCount d.internalTotal (list.map (itemBytes files)))

/-- The items behind them. -/
def toExternal (d : Device) (files : Files) (list : List Item) : List Item :=
  list.drop (fitCount d.internalTotal (list.map (itemBytes files)))

/-- A list of different items, the portable ones as they were read from the device. -/
structure FromDevice (d : Device) (list : List Item) : Prop where
  distinct : (list.map Item.url).Nodup
  produced : ∀ a ∈ list, ∀ m index name, a.url = .portable m index name →
    a ∈ itemsOf m (d.card m)

theorem mem_itemsOf {m : Memory} {entries : List RioFile} {a : Item} (h : a ∈ itemsOf m entries) :
    ∃ index f, entries[index]? = some f ∧ a = ⟨.portable m index f.name, f.contents.length⟩ := by
  unfold itemsOf at h
  rw [List.mem_mapIdx] at h
  obtain ⟨index, hindex, rfl⟩ := h
  exact ⟨index, entries[index], List.getElem?_eq_getElem hindex, rfl⟩

/-- An item that was in the other memory. -/
def Moves (m : Memory) (a : Item) : Prop :=
  match a.url with
  | .file _ => False
  | .portable m' _ _ => m' ≠ m

/-- If the item is sent to a memory, it comes through. -/
def Sent (w : Wire) (files : Files) (tempPath : Text) (m : Memory) (a : Item) : Prop :=
  match a.url with
  | .file path => (files path).isSome ∧ w.txFile m path = .done
  | .portable m' _ name => m' = m ∨ w.txFile m (downloadPath tempPath name) = .done

/-- What lets a list be written: there is room for it; no two files in a memory have one name,
and no two that change places; what is written is not told without reason that it is; and no
upload fails behind one of a file that was on the device. -/
structure InOrder (w : Wire) (d : Device) (tempPath : Text) (files : Files) (list : List Item) :
    Prop where
  readable : w.rxDirectory .internal = true → w.rxDirectory .external = true
  fits : ((toExternal d files list).map (itemBytes files)).sum ≤ d.externalTotal
  names : ∀ m, ((d.card m).map RioFile.name).Nodup
  plain : ∀ m, ∀ f ∈ d.card m, PlainName f.name
  nonempty : ∀ m, ∀ f ∈ d.card m, f.contents ≠ []
  apart : ∀ a ∈ toInternal d files list, ∀ b ∈ toExternal d files list,
    Moves .internal a → Moves .external b → a.url.lastPart ≠ b.url.lastPart
  fresh : ∀ a ∈ list, ∀ path, a.url = .file path → inTemp tempPath path = false
  synced : ∀ m, w.txDirectory m true = true
  sentInternal : ∀ before a after, toInternal d files list = before ++ a :: after →
    (∀ b ∈ before, Sent w files tempPath .internal b) → ¬ Sent w files tempPath .internal a →
      ∀ b ∈ before, ¬ Moves .internal b
  sentExternal : (∀ b ∈ toInternal d files list, Sent w files tempPath .internal b) →
    ∀ before a after, toExternal d files list = before ++ a :: after →
      (∀ b ∈ before, Sent w files tempPath .external b) → ¬ Sent w files tempPath .external a →
        (∀ b ∈ toInternal d files list, ¬ Moves .internal b) ∧ ∀ b ∈ before, ¬ Moves .external b

/-- A file is on the device, or in a temporary file. -/
def StillThere (tempPath : Text) (o : Outcome) (f : RioFile) : Prop :=
  f ∈ o.internal.card ∨ f ∈ o.external.card ∨
    ∃ path, inTemp tempPath path = true ∧ o.files path = some f.contents ∧ getFile path = f.name

/-- What is asked of a transfer. -/
structure Transferred (d : Device) (tempPath : Text) (files : Files) (list : List Item)
    (o : Outcome) : Prop where
  complete : o.result = some .noErr → AllDenote d files list (o.internal.card ++ o.external.card)
  kept : ∀ a ∈ list, ∀ m index name, a.url = .portable m index name →
    ∀ f, Denotes d files a.url f → StillThere tempPath o f

/-! ## The items of a memory, with their files -/

variable {w : Wire} {d : Device} {tempPath : Text} {files : Files} {list : List Item}

/-- The items that are made of the entries, with the entries. -/
def standing (d : Device) (m : Memory) : List (Item × RioFile) :=
  (itemsOf m (d.card m)).zip (d.card m)

theorem length_itemsOf (m : Memory) (entries : List RioFile) :
    (itemsOf m entries).length = entries.length := by
  unfold itemsOf
  exact List.length_mapIdx

theorem standing_fst (d : Device) (m : Memory) :
    (standing d m).map Prod.fst = itemsOf m (d.card m) :=
  List.map_fst_zip (length_itemsOf m _).le

theorem standing_snd (d : Device) (m : Memory) : (standing d m).map Prod.snd = d.card m :=
  List.map_snd_zip (length_itemsOf m _).ge

theorem mem_standing {d : Device} {m : Memory} {z : Item × RioFile} :
    z ∈ standing d m ↔ ∃ index, (d.card m)[index]? = some z.2 ∧
      z.1 = ⟨.portable m index z.2.name, z.2.contents.length⟩ := by
  unfold standing itemsOf
  constructor
  · intro hz
    obtain ⟨index, hindex, rfl⟩ := List.mem_iff_getElem.mp hz
    rw [List.length_zip, List.length_mapIdx, Nat.min_self] at hindex
    refine ⟨index, ?_, ?_⟩
    · rw [List.getElem_zip, List.getElem?_eq_getElem hindex]
    · rw [List.getElem_zip, List.getElem_mapIdx]
  · intro hz
    obtain ⟨index, hentry, hitem⟩ := hz
    obtain ⟨hindex, hget⟩ := List.getElem?_eq_some_iff.mp hentry
    rw [List.mem_iff_getElem]
    refine ⟨index, by rw [List.length_zip, List.length_mapIdx, Nat.min_self]; exact hindex, ?_⟩
    rw [List.getElem_zip, List.getElem_mapIdx, hget]
    exact Prod.ext hitem.symm rfl

theorem nodup_itemsOf (m : Memory) (entries : List RioFile) :
    ((itemsOf m entries).map Item.url).Nodup := by
  rw [List.nodup_iff_injective_getElem]
  intro i j hij
  simp only [itemsOf, List.getElem_map, List.getElem_mapIdx, Url.portable.injEq] at hij
  exact Fin.ext hij.2.1

theorem denotes_standing {m : Memory} {z : Item × RioFile} (hz : z ∈ standing d m)
    (files : Files) : Denotes d files z.1.url z.2 := by
  obtain ⟨index, hentry, hitem⟩ := mem_standing.mp hz
  rw [hitem]
  exact ⟨hentry, rfl⟩

theorem FromDevice.standing (h : FromDevice d list) {a : Item} (ha : a ∈ list) {m : Memory}
    {index : Nat} {name : Text} (hurl : a.url = .portable m index name) :
    ∃ f, (a, f) ∈ Pmp300.standing d m := by
  obtain ⟨index', f, hentry, rfl⟩ := mem_itemsOf (h.produced a ha m index name hurl)
  exact ⟨f, mem_standing.mpr ⟨index', hentry, rfl⟩⟩

theorem InOrder.standing_of_mem (h : InOrder w d tempPath files list) {m : Memory}
    {z : Item × RioFile} (hz : z ∈ standing d m) : Standing m z := by
  obtain ⟨index, hentry, hitem⟩ := mem_standing.mp hz
  refine ⟨⟨index, by rw [hitem]⟩, h.plain m z.2 ?_⟩
  exact List.mem_of_getElem? hentry

theorem mem_halves {a : Item} :
    a ∈ list ↔ a ∈ toInternal d files list ∨ a ∈ toExternal d files list := by
  unfold toInternal toExternal
  rw [← List.mem_append, List.take_append_drop]

theorem sized_of_list (h : InOrder w d tempPath files list) (hlist : FromDevice d list) :
    ∀ a ∈ list, Sized a := by
  intro a ha m index name hurl
  obtain ⟨f, hz⟩ := hlist.standing ha hurl
  obtain ⟨index', hentry, hitem⟩ := mem_standing.mp hz
  have hsize := congrArg Item.size hitem
  rw [hsize]
  have hne := h.nonempty m f (List.mem_of_getElem? hentry)
  exact fun hzero => hne (List.eq_nil_of_length_eq_zero hzero)

/-! ## After the deletes -/

/-- What the deletes and downloads leave of a memory and of the list that is to go to it:
`gone` are the URLs of the items that come from the other memory. -/
structure Cleared (d : Device) (tempPath : Text) (files files' : Files) (m : Memory)
    (items : List Item) (rio : CRio) (orig new : List Item) : Prop where
  card : rio.card = d.card m
  stays : orig = (itemsOf m (d.card m)).filter fun a => decide (a.url ∈ items.map Item.url)
  block : ∀ files, AllDenote d files orig rio.block
  new : ∃ gone, new = items.map (renameItem tempPath gone) ∧
    (∀ a ∈ items, a.url ∈ gone ↔ Moves m a) ∧
    (∀ a ∈ items, Moves m a → ∃ f, Denotes d files a.url f ∧ f.name = a.url.lastPart ∧
      PlainName f.name ∧ files' (downloadPath tempPath f.name) = some f.contents) ∧
    ∀ a ∈ items, ∀ b ∈ items, Moves m a → Moves m b → a.url.lastPart = b.url.lastPart → a.url = b.url

theorem allDenote_filter (m : Memory) (p : Item → Bool) (files : Files) :
    AllDenote d files ((itemsOf m (d.card m)).filter p)
      (((standing d m).filter fun z => p z.1).map Prod.snd) := by
  rw [← standing_fst]
  have hall : ∀ z ∈ standing d m, Denotes d files z.1.url z.2 := fun z hz =>
    denotes_standing hz files
  generalize standing d m = zs at hall
  induction zs with
  | nil => exact .nil
  | cons z zs ih =>
    rw [List.forall_mem_cons] at hall
    rw [List.map_cons]
    cases hp : p z.1 with
    | true =>
      rw [List.filter_cons_of_pos hp, List.filter_cons_of_pos (by exact hp), List.map_cons]
      exact .cons hall.1 (ih hall.2)
    | false =>
      rw [List.filter_cons_of_neg (by simp [hp]), List.filter_cons_of_neg (by simp [hp])]
      exact ih hall.2

theorem reduceOption_marks (m : Memory) (items : List Item) :
    ((standing d m).map fun z => if z.1.url ∈ items.map Item.url then some z.1 else none).reduceOption =
      (itemsOf m (d.card m)).filter fun a => decide (a.url ∈ items.map Item.url) := by
  rw [← standing_fst]
  induction standing d m with
  | nil => rfl
  | cons z zs ih =>
    rw [List.map_cons, List.map_cons]
    by_cases hz : z.1.url ∈ items.map Item.url
    · rw [if_pos hz, List.reduceOption_cons_of_some, ih,
        List.filter_cons_of_pos (by simpa using hz)]
    · rw [if_neg hz, List.reduceOption_cons_of_none, ih,
        List.filter_cons_of_neg (by simpa using hz)]

theorem Cleared.denotes_iff {files' : Files} {m : Memory} {items orig new : List Item} {rio : CRio}
    (h : Cleared d tempPath files files' m items rio orig new)
    (hfiles : ∀ a ∈ items, ∀ path, a.url = .file path → files' path = files path) {gone : List Url}
    (hgone : ∀ a ∈ items, a.url ∈ gone ↔ Moves m a) {a : Item} (ha : a ∈ items) (f : RioFile) :
    Denotes d files' (renamed tempPath gone a.url) f ↔ Denotes d files a.url f := by
  by_cases hmoves : Moves m a
  · obtain ⟨-, -, -, hfetched, -⟩ := h.new
    obtain ⟨g, hdenotes, hname, hplain, hcontents⟩ := hfetched a ha hmoves
    have hnew : Denotes d files' (renamed tempPath gone a.url) g := by
      unfold renamed
      rw [if_pos ((hgone a ha).mpr hmoves), ← hname]
      exact ⟨hcontents, getFile_downloadPath hplain tempPath⟩
    constructor
    · intro hf
      rw [hnew.unique hf]
      exact hdenotes
    · intro hf
      rw [hdenotes.unique hf]
      exact hnew
  · rw [renamed_of_not_mem fun hmem => hmoves ((hgone a ha).mp hmem)]
    cases hurl : a.url with
    | file path =>
      unfold Denotes
      simp only
      rw [hfiles a ha path hurl]
    | portable m' index name => exact Iff.rfl

theorem inTemp_downloadPath (tempPath name : Text) :
    inTemp tempPath (downloadPath tempPath name) = true := by
  unfold inTemp downloadPath
  rw [decide_eq_true_iff, ← List.append_assoc]
  exact (List.prefix_append _ _).isInfix

/-- The files of the items that are sent are those of the list. -/
theorem Cleared.allDenote_iff {files' : Files} {m : Memory} {items orig new : List Item}
    {rio : CRio} (h : Cleared d tempPath files files' m items rio orig new)
    (hfiles : ∀ a ∈ items, ∀ path, a.url = .file path → files' path = files path)
    {fs : List RioFile} : AllDenote d files' new fs ↔ AllDenote d files items fs := by
  obtain ⟨gone, hnew, hgone, -⟩ := h.new
  rw [hnew]
  unfold AllDenote
  rw [List.forall₂_map_left_iff]
  constructor
  · intro hall
    refine ((List.forall₂_and_left _ _).mpr ⟨fun a ha => ha, hall⟩).imp fun a f haf => ?_
    exact (h.denotes_iff hfiles hgone haf.1 f).mp haf.2
  · intro hall
    refine ((List.forall₂_and_left _ _).mpr ⟨fun a ha => ha, hall⟩).imp fun a f haf => ?_
    exact (h.denotes_iff hfiles hgone haf.1 f).mpr haf.2

section Renamed

variable {m : Memory} {items : List Item} {gone : List Url}

theorem renamed_of_not_moves (hgone : ∀ a ∈ items, a.url ∈ gone ↔ Moves m a) {a : Item}
    (ha : a ∈ items) (hnot : ¬ Moves m a) : renamed tempPath gone a.url = a.url :=
  renamed_of_not_mem fun hmem => hnot ((hgone a ha).mp hmem)

theorem renamed_of_moves (hgone : ∀ a ∈ items, a.url ∈ gone ↔ Moves m a) {a : Item}
    (ha : a ∈ items) (hmoves : Moves m a) :
    renamed tempPath gone a.url = .file (downloadPath tempPath a.url.lastPart) :=
  if_pos ((hgone a ha).mpr hmoves)

/-- The places of the items stay different when some of them are temporary files. -/
theorem nodup_moved (hgone : ∀ a ∈ items, a.url ∈ gone ↔ Moves m a)
    (hnames : ∀ a ∈ items, ∀ b ∈ items, Moves m a → Moves m b →
      a.url.lastPart = b.url.lastPart → a.url = b.url)
    (hdistinct : (items.map Item.url).Nodup)
    (hfresh : ∀ a ∈ items, ∀ path, a.url = .file path → inTemp tempPath path = false) :
    ((items.map (renameItem tempPath gone)).map Item.url).Nodup := by
  have hapart : ∀ a ∈ items, ∀ b ∈ items, Moves m a → ¬ Moves m b →
      renamed tempPath gone a.url ≠ renamed tempPath gone b.url := by
    intro a ha b hb hmoves hnot heq
    rw [renamed_of_moves hgone ha hmoves, renamed_of_not_moves hgone hb hnot] at heq
    have hfalse := hfresh b hb _ heq.symm
    rw [inTemp_downloadPath] at hfalse
    exact absurd hfalse nofun
  rw [url_map_renameItem]
  refine hdistinct.map_on fun x hx y hy heq => ?_
  obtain ⟨a, ha, rfl⟩ := List.mem_map.mp hx
  obtain ⟨b, hb, rfl⟩ := List.mem_map.mp hy
  by_cases hmovesA : Moves m a
  · by_cases hmovesB : Moves m b
    · rw [renamed_of_moves hgone ha hmovesA, renamed_of_moves hgone hb hmovesB] at heq
      exact hnames a ha b hb hmovesA hmovesB (downloadPath_inj (Url.file.inj heq))
    · exact absurd heq (hapart a ha b hb hmovesA hmovesB)
  · by_cases hmovesB : Moves m b
    · exact absurd heq.symm (hapart b hb a ha hmovesB hmovesA)
    · rwa [renamed_of_not_moves hgone ha hmovesA, renamed_of_not_moves hgone hb hmovesB] at heq

/-- An item that is not a file behind the renaming was in the memory before. -/
theorem portable_of_not_isFile (hgone : ∀ a ∈ items, a.url ∈ gone ↔ Moves m a) {a : Item}
    (ha : a ∈ items) (hfile : (renameItem tempPath gone a).isFile = false) :
    (renameItem tempPath gone a).url = a.url ∧ ∃ index name, a.url = .portable m index name := by
  have hnot : ¬ Moves m a := by
    intro hmoves
    unfold Item.isFile renameItem at hfile
    simp only [renamed_of_moves hgone ha hmoves] at hfile
    exact absurd hfile nofun
  have hsame : (renameItem tempPath gone a).url = a.url := renamed_of_not_moves hgone ha hnot
  refine ⟨hsame, ?_⟩
  cases haurl : a.url with
  | file path =>
    unfold Item.isFile at hfile
    rw [hsame, haurl] at hfile
    exact absurd hfile nofun
  | portable m' index name =>
    have hm : m' = m := by
      by_contra hne
      apply hnot
      unfold Moves
      rw [haurl]
      exact hne
    exact ⟨index, name, by rw [hm]⟩

end Renamed

/-- The items of a memory after the uploads are those of the list. -/
theorem Cleared.perm {files' : Files} {m : Memory} {items orig new : List Item} {rio : CRio}
    (h : Cleared d tempPath files files' m items rio orig new)
    (hdistinct : (items.map Item.url).Nodup)
    (hproduced : ∀ a ∈ items, ∀ m' index name, a.url = .portable m' index name →
      a ∈ itemsOf m' (d.card m'))
    (hfresh : ∀ a ∈ items, ∀ path, a.url = .file path → inTemp tempPath path = false) :
    (new.map Item.url).Perm ((orig ++ new.filter Item.isFile).map Item.url) := by
  obtain ⟨gone, rfl, hgone, hfetched, hnames⟩ := h.new
  have hkind : ∀ o ∈ orig, ∃ index name, o.url = .portable m index name := by
    intro o ho
    rw [h.stays] at ho
    obtain ⟨index, f, -, rfl⟩ := mem_itemsOf (List.mem_filter.mp ho).1
    exact ⟨index, f.name, rfl⟩
  have hnodup := nodup_moved hgone hnames hdistinct hfresh
  rw [List.perm_ext_iff_of_nodup hnodup]
  · intro url
    rw [List.map_append, List.mem_append]
    constructor
    · intro hmem
      obtain ⟨a', ha', rfl⟩ := List.mem_map.mp hmem
      cases hfile : a'.isFile with
      | true => exact .inr (List.mem_map_of_mem (List.mem_filter.mpr ⟨ha', hfile⟩))
      | false =>
        obtain ⟨a, ha, rfl⟩ := List.mem_map.mp ha'
        obtain ⟨hsame, index, name, haurl⟩ := portable_of_not_isFile hgone ha hfile
        left
        rw [hsame, h.stays]
        exact List.mem_map_of_mem (List.mem_filter.mpr
          ⟨hproduced a ha _ _ _ haurl, by simpa using ⟨a, ha, rfl⟩⟩)
    · intro hmem
      rcases hmem with hmem | hmem
      · obtain ⟨o, ho, rfl⟩ := List.mem_map.mp hmem
        obtain ⟨index, name, hourl⟩ := hkind o ho
        rw [h.stays] at ho
        have hin : o.url ∈ items.map Item.url := by simpa using (List.mem_filter.mp ho).2
        obtain ⟨a, ha, haurl⟩ := List.mem_map.mp hin
        have hnot : ¬ Moves m a := by
          unfold Moves
          rw [haurl, hourl]
          exact not_not_intro rfl
        rw [← haurl, ← renamed_of_not_moves hgone ha hnot]
        exact List.mem_map_of_mem (List.mem_map_of_mem ha)
      · obtain ⟨a', ha', rfl⟩ := List.mem_map.mp hmem
        exact List.mem_map_of_mem (List.mem_filter.mp ha').1
  · rw [List.map_append, List.nodup_append]
    refine ⟨?_, hnodup.sublist (List.filter_sublist.map _), ?_⟩
    · rw [h.stays]
      exact (nodup_itemsOf m (d.card m)).sublist (List.filter_sublist.map _)
    · intro x hx y hy heq
      obtain ⟨o, ho, rfl⟩ := List.mem_map.mp hx
      obtain ⟨a', ha', rfl⟩ := List.mem_map.mp hy
      obtain ⟨index, name, hourl⟩ := hkind o ho
      have hfile := (List.mem_filter.mp ha').2
      unfold Item.isFile at hfile
      rw [← heq, hourl] at hfile
      exact absurd hfile nofun

theorem moves_iff {m m' : Memory} (hne : m' ≠ m) {a : Item} :
    Moves m a ↔ ∃ index name, a.url = .portable m' index name := by
  unfold Moves
  cases a.url with
  | file path => exact ⟨False.elim, fun ⟨_, _, h⟩ => absurd h nofun⟩
  | portable m'' index name =>
    simp only [Url.portable.injEq]
    constructor
    · intro h
      refine ⟨index, name, ?_, rfl, rfl⟩
      cases m <;> cases m' <;> cases m'' <;> simp_all
    · intro h
      obtain ⟨_, _, rfl, -⟩ := h
      exact hne

/-- The items that come from the other memory have been fetched from there. -/
theorem moved_of_deleted (h : InOrder w d tempPath files list) (hlist : FromDevice d list)
    {m m' : Memory} (hne : m' ≠ m) {here items others : List Item} {s s' : Deleting}
    (hdeleted : Deleted tempPath here [] (standing d m') s s') (hthere : s.there = items)
    (hitems : ∀ a ∈ items, a ∈ list) (hothers : ∀ a ∈ items, a.url ∉ others.map Item.url)
    (hhere : ∀ z ∈ standing d m', z.1.url ∈ here.map Item.url ↔ z.1.url ∈ others.map Item.url) :
    ∃ gone, s'.there = items.map (renameItem tempPath gone) ∧
      (∀ a ∈ items, a.url ∈ gone ↔ Moves m a) ∧
      (∀ a ∈ items, Moves m a → ∃ f, Denotes d files a.url f ∧ f.name = a.url.lastPart ∧
        PlainName f.name ∧ s'.files (downloadPath tempPath f.name) = some f.contents) ∧
      ∀ a ∈ items, ∀ b ∈ items, Moves m a → Moves m b → a.url.lastPart = b.url.lastPart →
        a.url = b.url := by
  have hstanding : ∀ a ∈ items, Moves m a → ∃ f, (a, f) ∈ standing d m' := by
    intro a ha hmoves
    obtain ⟨index, name, hurl⟩ := (moves_iff hne).mp hmoves
    exact hlist.standing (hitems a ha) hurl
  have hgone : ∀ a ∈ items, ∀ f, (a, f) ∈ standing d m' → a.url ∉ here.map Item.url :=
    fun a ha f hz hmem => hothers a ha ((hhere _ hz).mp hmem)
  refine ⟨_, hthere ▸ hdeleted.there, ?_, ?_, ?_⟩
  · intro a ha
    constructor
    · intro hmem
      obtain ⟨z, hz, hurl⟩ := List.mem_map.mp hmem
      obtain ⟨index, hzurl⟩ := (h.standing_of_mem (List.mem_filter.mp hz).1).url
      exact (moves_iff hne).mpr ⟨index, z.2.name, hurl.symm.trans hzurl⟩
    · intro hmoves
      obtain ⟨f, hz⟩ := hstanding a ha hmoves
      exact List.mem_map.mpr
        ⟨(a, f), List.mem_filter.mpr ⟨hz, by simpa using hgone a ha f hz⟩, rfl⟩
  · intro a ha hmoves
    obtain ⟨f, hz⟩ := hstanding a ha hmoves
    have hz' := h.standing_of_mem hz
    refine ⟨f, denotes_standing hz files, hz'.lastPart.symm, hz'.plain, ?_⟩
    exact hdeleted.fetched (a, f) hz (hgone a ha f hz) (hthere ▸ List.mem_map_of_mem ha)
  · intro a ha b hb hmovesA hmovesB hlast
    obtain ⟨f, hza⟩ := hstanding a ha hmovesA
    obtain ⟨g, hzb⟩ := hstanding b hb hmovesB
    have hname : f.name = g.name :=
      (h.standing_of_mem hza).lastPart.symm.trans (hlast.trans (h.standing_of_mem hzb).lastPart)
    obtain ⟨i, hi, hai⟩ := mem_standing.mp hza
    obtain ⟨j, hj, hbj⟩ := mem_standing.mp hzb
    obtain ⟨hilt, higet⟩ := List.getElem?_eq_some_iff.mp hi
    obtain ⟨hjlt, hjget⟩ := List.getElem?_eq_some_iff.mp hj
    have hij : i = j := by
      have hnames := h.names m'
      rw [List.nodup_iff_injective_getElem] at hnames
      have heq := @hnames ⟨i, by simpa using hilt⟩ ⟨j, by simpa using hjlt⟩
        (by simp only [List.getElem_map, higet, hjget]; exact hname)
      exact congrArg Fin.val heq
    subst hij
    rw [show a = _ from hai, show b = _ from hbj]
    simp only [hname]

theorem cleared_of_deleted {m : Memory} {here items new : List Item} {s s' : Deleting}
    {files' : Files} (hdeleted : Deleted tempPath here [] (standing d m) s s')
    (hcard : s.rio.card = d.card m) (hmarks : s.marks = [])
    (hhere : ∀ z ∈ standing d m, z.1.url ∈ here.map Item.url ↔ z.1.url ∈ items.map Item.url)
    (hnew : ∃ gone, new = items.map (renameItem tempPath gone) ∧
      (∀ a ∈ items, a.url ∈ gone ↔ Moves m a) ∧
      (∀ a ∈ items, Moves m a → ∃ f, Denotes d files a.url f ∧ f.name = a.url.lastPart ∧
        PlainName f.name ∧ files' (downloadPath tempPath f.name) = some f.contents) ∧
      ∀ a ∈ items, ∀ b ∈ items, Moves m a → Moves m b → a.url.lastPart = b.url.lastPart →
        a.url = b.url) :
    Cleared d tempPath files files' m items s'.rio s'.marks.reduceOption new := by
  have hstays : s'.marks.reduceOption =
      (itemsOf m (d.card m)).filter fun a => decide (a.url ∈ items.map Item.url) := by
    rw [hdeleted.marks, hmarks, List.nil_append, ← reduceOption_marks]
    refine congrArg List.reduceOption (List.map_congr_left fun z hz => ?_)
    simp only [hhere z hz]
  have hblock : s'.rio.block =
      ((standing d m).filter fun z => decide (z.1.url ∈ items.map Item.url)).map Prod.snd := by
    rw [hdeleted.block, List.nil_append]
    refine congrArg (List.map Prod.snd) (List.filter_congr fun z hz => ?_)
    simp only [hhere z hz]
  refine ⟨hdeleted.card.trans hcard, hstays, fun files => ?_, hnew⟩
  rw [hstays, hblock]
  exact allDenote_filter m (fun a => decide (a.url ∈ items.map Item.url)) files

/-- The job that the plan makes. -/
def startJob (d : Device) (files : Files) (list : List Item) : Job where
  internal := { d.internal with block := d.internal.card }
  external := { d.external with block := d.external.card }
  files := files
  newInternal := toInternal d files list
  newExternal := toExternal d files list
  origInternal := itemsOf .internal d.internal.card
  origExternal := itemsOf .external d.external.card

theorem halves_apart (hlist : FromDevice d list) :
    ∀ a ∈ toInternal d files list, a.url ∉ (toExternal d files list).map Item.url := by
  have hdistinct := hlist.distinct
  rw [← List.take_append_drop (fitCount d.internalTotal (list.map (itemBytes files))) list,
    List.map_append, List.nodup_append] at hdistinct
  intro a ha hmem
  exact hdistinct.2.2 _ (List.mem_map_of_mem ha) _ hmem rfl

theorem ne_downloadPath (h : InOrder w d tempPath files list) {a : Item} (ha : a ∈ list)
    {path : Text} (hurl : a.url = .file path) (name : Text) : path ≠ downloadPath tempPath name := by
  intro heq
  have hfalse := h.fresh a ha path hurl
  rw [heq, inTemp_downloadPath] at hfalse
  exact absurd hfalse nofun

/-- What the deleting part leaves. -/
structure AfterDelete (d : Device) (tempPath : Text) (files : Files) (list : List Item)
    (j : Job) : Prop where
  internal : Cleared d tempPath files j.files .internal (toInternal d files list) j.internal
    j.origInternal j.newInternal
  external : Cleared d tempPath files j.files .external (toExternal d files list) j.external
    j.origExternal j.newExternal
  untouched : ∀ a ∈ list, ∀ path, a.url = .file path → j.files path = files path

theorem finish_result_ne {result : Error} {internal external : CRio} {files : Files}
    {orig : List (Option Item)} (h : result ≠ .noErr) :
    (finish tempPath result internal external files orig).result ≠ some .noErr := by
  intro heq
  unfold finish at heq
  simp only at heq
  split at heq
  · exact h (Option.some.inj heq)
  · exact absurd heq nofun

/-- The deleting part, when it fails: the cards are as they were. -/
theorem deletePart_error {j : Job} {o : Outcome} (h : deletePart w tempPath j = .error o) :
    o.internal.card = j.internal.card ∧ o.external.card = j.external.card ∧
      o.result ≠ some .noErr := by
  unfold deletePart at h
  simp only at h
  split at h
  · rename_i hfail
    rw [← Except.error.inj h]
    exact ⟨card_deleteItems _ _, rfl, finish_result_ne hfail⟩
  · split at h
    · rename_i hfail
      rw [← Except.error.inj h]
      exact ⟨card_deleteItems _ _, card_deleteItems _ _, finish_result_ne hfail⟩
    · exact absurd h nofun

theorem deletePart_ok (h : InOrder w d tempPath files list) (hlist : FromDevice d list) {j : Job}
    (hok : deletePart w tempPath (startJob d files list) = .ok j) :
    AfterDelete d tempPath files list j := by
  have hinternal : ∀ a ∈ toInternal d files list, a ∈ list := fun a ha => mem_halves.mpr (.inl ha)
  have hexternal : ∀ a ∈ toExternal d files list, a ∈ list := fun a ha => mem_halves.mpr (.inr ha)
  have hdistinct := hlist.distinct
  rw [← List.take_append_drop (fitCount d.internalTotal (list.map (itemBytes files))) list,
    List.map_append, List.nodup_append] at hdistinct
  have hstanding : ∀ m, ∀ z ∈ standing d m, Standing m z := fun m z hz => h.standing_of_mem hz
  have hurls : ∀ m, ((standing d m).map fun z => z.1.url).Nodup := by
    intro m
    have hnodup := nodup_itemsOf m (d.card m)
    rw [← standing_fst, List.map_map] at hnodup
    exact hnodup
  have hfresh : ∀ items : List Item, (∀ a ∈ items, a ∈ list) → ∀ m path,
      .file path ∈ items.map Item.url → ∀ z ∈ standing d m,
        path ≠ downloadPath tempPath z.2.name := by
    intro items hitems m path hpath z _
    obtain ⟨a, ha, hurl⟩ := List.mem_map.mp hpath
    exact ne_downloadPath h (hitems a ha) hurl z.2.name
  unfold deletePart at hok
  simp only at hok
  split at hok
  · exact absurd hok nofun
  rename_i hok1
  split at hok
  · exact absurd hok nofun
  rename_i hok2
  simp only [startJob, not_not] at hok1 hok2
  simp only [startJob] at hok
  rw [← show _ = itemsOf .internal d.internal.card from standing_fst d .internal] at hok hok1 hok2
  rw [← show _ = itemsOf .external d.external.card from standing_fst d .external] at hok hok2
  have hd := deleted_of_noErr (hstanding .internal) (hurls .internal)
    (show _ = [] ++ _ from (standing_snd d .internal).symm) (h.names .internal) hdistinct.2.1
    (hfresh _ hexternal .internal) hok1
  have he := deleted_of_noErr (hstanding .external) (hurls .external)
    (show _ = [] ++ _ from (standing_snd d .external).symm) (h.names .external) hdistinct.1
    (hfresh _ hinternal .external) hok2
  generalize (deleteItems w tempPath .internal (toInternal d files list) _ _).2 = s1 at hd he hok
  generalize (deleteItems w tempPath .external s1.there _ _).2 = s2 at he hok
  rw [← Except.ok.inj hok]
  have hexthere : ∀ z ∈ standing d .external,
      z.1.url ∈ s1.there.map Item.url ↔ z.1.url ∈ (toExternal d files list).map Item.url := by
    intro z hz
    obtain ⟨index, hurl⟩ := (hstanding .external z hz).url
    rw [hd.there, url_map_renameItem, hurl]
    apply mem_renamed_iff
    intro hmem
    obtain ⟨z', hz', heq⟩ := List.mem_map.mp hmem
    obtain ⟨index', hurl'⟩ := (hstanding .internal z' (List.mem_filter.mp hz').1).url
    rw [hurl'] at heq
    exact absurd (Url.portable.inj heq).1 nofun
  -- what the first loop fetches is not overwritten
  have hkeeps : ∀ a ∈ toExternal d files list, Moves .external a → ∀ f : RioFile,
      f.name = a.url.lastPart →
        s2.files (downloadPath tempPath f.name) = s1.files (downloadPath tempPath f.name) := by
    intro a ha hmoves f hname
    apply he.untouched
    intro z hz _ hmem heq
    obtain ⟨b, hb, hburl⟩ := List.mem_map.mp hmem
    obtain ⟨index, hzurl⟩ := (hstanding .external z hz).url
    have hmovesB : Moves .internal b :=
      (moves_iff (show Memory.external ≠ .internal by decide)).mpr ⟨index, z.2.name, hburl.trans hzurl⟩
    apply h.apart b hb a ha hmovesB hmoves
    rw [hburl, (hstanding .external z hz).lastPart, ← hname]
    exact (downloadPath_inj heq).symm
  refine ⟨?_, ?_, ?_⟩
  · exact cleared_of_deleted hd rfl rfl (fun _ _ => Iff.rfl)
      (moved_of_deleted h hlist (show Memory.external ≠ .internal by decide) he rfl hinternal (halves_apart hlist) hexthere)
  · obtain ⟨gone, hnew, hgone, hfetched, hnames⟩ :=
      moved_of_deleted h hlist (show Memory.internal ≠ .external by decide) hd rfl hexternal
        (fun a ha hmem => by
          obtain ⟨b, hb, hurl⟩ := List.mem_map.mp hmem
          exact hdistinct.2.2 _ hmem _ (List.mem_map_of_mem ha) rfl)
        (fun _ _ => Iff.rfl)
    refine cleared_of_deleted he rfl rfl hexthere ⟨gone, hnew, hgone, ?_, hnames⟩
    intro a ha hmoves
    obtain ⟨f, hdenotes, hname, hplain, hcontents⟩ := hfetched a ha hmoves
    exact ⟨f, hdenotes, hname, hplain, (hkeeps a ha hmoves f hname).trans hcontents⟩
  · intro a ha path hurl
    have hne := ne_downloadPath h ha hurl
    exact (he.untouched path fun _ _ _ _ => hne _).trans (hd.untouched path fun _ _ _ _ => hne _)

end FreeAmp.Plm.Pmp300
