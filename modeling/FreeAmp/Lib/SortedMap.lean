/-
  Lib/SortedMap.lean --- maps as lists of entries in the order of their keys, as a
  `std::map` is walked through.

  The order of the entries is a field of the map, so that a map is determined by what is in
  it: a map is got back by inserting its entries one by one (`ofEntries_entries`).
-/
import Mathlib.Order.Defs.Unbundled
import Mathlib.Data.List.Basic

namespace FreeAmp.Lib

/-- The entries of a map, the smallest key first. -/
structure SortedMap (κ ν : Type) [LT κ] where
  entries : List (κ × ν)
  sorted : entries.Pairwise fun p q => p.1 < q.1

namespace SortedMap

variable {κ ν : Type} [LT κ]

instance [DecidableEq κ] [DecidableEq ν] : DecidableEq (SortedMap κ ν) := fun m m' =>
  decidable_of_iff (m.entries = m'.entries)
    ⟨fun h => by cases m; cases m'; cases h; rfl, fun h => h ▸ rfl⟩

theorem ext {m m' : SortedMap κ ν} (h : m.entries = m'.entries) : m = m' := by
  cases m
  cases m'
  cases h
  rfl

def empty : SortedMap κ ν := ⟨[], .nil⟩

def keys (m : SortedMap κ ν) : List κ := m.entries.map Prod.fst

def find [DecidableEq κ] (m : SortedMap κ ν) (k : κ) : Option ν :=
  (m.entries.find? fun p => p.1 = k).map Prod.snd

theorem find_of_mem_keys [DecidableEq κ] {m : SortedMap κ ν} {k : κ} (h : k ∈ m.keys) :
    ∃ v, m.find k = some v := by
  obtain ⟨p, hp, rfl⟩ := List.mem_map.mp h
  rw [← Option.isSome_iff_exists]
  unfold find
  rw [Option.isSome_map, List.find?_isSome]
  exact ⟨p, hp, by simp⟩

def erase [DecidableEq κ] (m : SortedMap κ ν) (k : κ) : SortedMap κ ν :=
  ⟨m.entries.filter fun p => p.1 ≠ k, m.sorted.filter _⟩

theorem mem_keys_erase [DecidableEq κ] {m : SortedMap κ ν} {k k' : κ} (h : k ∈ m.keys)
    (hne : k ≠ k') : k ∈ (m.erase k').keys := by
  obtain ⟨p, hp, rfl⟩ := List.mem_map.mp h
  exact List.mem_map_of_mem (List.mem_filter.mpr ⟨hp, by simpa using hne⟩)

variable [DecidableEq κ] [DecidableLT κ]

/-- An entry takes the place of one with its key, or is put where its key belongs. -/
def insertEntry (k : κ) (v : ν) : List (κ × ν) → List (κ × ν)
  | [] => [(k, v)]
  | p :: entries =>
    if k < p.1 then (k, v) :: p :: entries
    else if k = p.1 then (k, v) :: entries
    else p :: insertEntry k v entries

theorem mem_insertEntry {k : κ} {v : ν} {q : κ × ν} : ∀ {entries : List (κ × ν)},
    q ∈ insertEntry k v entries → q = (k, v) ∨ q ∈ entries := by
  intro entries
  induction entries with
  | nil => simp [insertEntry]
  | cons p entries ih =>
    intro h
    rw [insertEntry] at h
    split at h
    · exact List.mem_cons.mp h
    · split at h
      · exact (List.mem_cons.mp h).imp_right (List.mem_cons_of_mem p)
      · rcases List.mem_cons.mp h with rfl | h
        · exact .inr List.mem_cons_self
        · exact (ih h).imp_right (List.mem_cons_of_mem p)

theorem mem_insertEntry_self (k : κ) (v : ν) (entries : List (κ × ν)) :
    (k, v) ∈ insertEntry k v entries := by
  induction entries with
  | nil => simp [insertEntry]
  | cons p entries ih =>
    rw [insertEntry]
    split
    · exact List.mem_cons_self
    · split
      · exact List.mem_cons_self
      · exact List.mem_cons_of_mem p ih

theorem length_insertEntry_le (k : κ) (v : ν) (entries : List (κ × ν)) :
    (insertEntry k v entries).length ≤ entries.length + 1 := by
  induction entries with
  | nil => simp [insertEntry]
  | cons p entries ih =>
    rw [insertEntry]
    split
    · simp
    · split
      · simp
      · simpa using ih

variable [IsStrictTotalOrder κ (· < ·)]

theorem sorted_insertEntry (k : κ) (v : ν) : ∀ {entries : List (κ × ν)},
    entries.Pairwise (fun p q => p.1 < q.1) →
      (insertEntry k v entries).Pairwise fun p q => p.1 < q.1 := by
  intro entries
  induction entries with
  | nil => simp [insertEntry]
  | cons p entries ih =>
    intro h
    obtain ⟨hp, hentries⟩ := List.pairwise_cons.mp h
    rw [insertEntry]
    split
    · rename_i hlt
      refine List.pairwise_cons.mpr ⟨?_, h⟩
      intro q hq
      rcases List.mem_cons.mp hq with rfl | hq
      · exact hlt
      · exact IsTrans.trans _ _ _ hlt (hp q hq)
    · rename_i hlt
      split
      · rename_i heq
        subst heq
        exact List.pairwise_cons.mpr ⟨hp, hentries⟩
      · rename_i hne
        refine List.pairwise_cons.mpr ⟨?_, ih hentries⟩
        intro q hq
        rcases mem_insertEntry hq with rfl | hq
        · rcases trichotomous_of (· < ·) k p.1 with hbad | hbad | hgood
          · exact absurd hbad hlt
          · exact absurd hbad hne
          · exact hgood
        · exact hp q hq

/-- `m[k] = v` -/
def insert (m : SortedMap κ ν) (k : κ) (v : ν) : SortedMap κ ν :=
  ⟨insertEntry k v m.entries, sorted_insertEntry k v m.sorted⟩

theorem keys_insertEntry {k : κ} {v : ν} : ∀ {entries : List (κ × ν)} {p : κ × ν}, p ∈ entries →
    p.1 ∈ (insertEntry k v entries).map Prod.fst := by
  intro entries
  induction entries with
  | nil => intro p h; exact absurd h List.not_mem_nil
  | cons q entries ih =>
    intro p h
    rw [insertEntry]
    split
    · exact List.mem_map_of_mem (List.mem_cons_of_mem _ h)
    · split
      · rename_i heq
        rcases List.mem_cons.mp h with rfl | h
        · simp [heq]
        · exact List.mem_cons_of_mem _ (List.mem_map_of_mem h)
      · rcases List.mem_cons.mp h with rfl | h
        · exact List.mem_cons_self
        · exact List.mem_cons_of_mem _ (ih h)

theorem mem_keys_insert {m : SortedMap κ ν} {k : κ} (h : k ∈ m.keys) (k' : κ) (v : ν) :
    k ∈ (m.insert k' v).keys := by
  obtain ⟨p, hp, rfl⟩ := List.mem_map.mp h
  exact keys_insertEntry hp

theorem mem_keys_insert_self (m : SortedMap κ ν) (k : κ) (v : ν) : k ∈ (m.insert k v).keys :=
  List.mem_map_of_mem (mem_insertEntry_self k v m.entries)

/-- The entries one by one into an empty map. -/
def ofEntries (entries : List (κ × ν)) : SortedMap κ ν :=
  entries.foldl (fun m p => m.insert p.1 p.2) empty

/-- A key that is larger than all others goes to the end. -/
theorem insertEntry_last {k : κ} (v : ν) : ∀ {entries : List (κ × ν)},
    (∀ p ∈ entries, p.1 < k) → insertEntry k v entries = entries ++ [(k, v)] := by
  intro entries
  induction entries with
  | nil => intro _; rfl
  | cons p entries ih =>
    intro h
    have hlt := h p List.mem_cons_self
    have hnot : ¬ k < p.1 := fun hbad => irrefl_of (· < ·) k (IsTrans.trans _ _ _ hbad hlt)
    have hne : k ≠ p.1 := fun heq => irrefl_of (· < ·) k (by rwa [← heq] at hlt)
    rw [insertEntry, if_neg hnot, if_neg hne, ih fun q hq => h q (List.mem_cons_of_mem p hq)]
    rfl

theorem foldl_insert_entries : ∀ {rest : List (κ × ν)} {m : SortedMap κ ν},
    (m.entries ++ rest).Pairwise (fun p q => p.1 < q.1) →
      (rest.foldl (fun m p => m.insert p.1 p.2) m).entries = m.entries ++ rest := by
  intro rest
  induction rest with
  | nil => intro m _; simp
  | cons p rest ih =>
    intro m h
    have hlast : (m.insert p.1 p.2).entries = m.entries ++ [p] := by
      apply insertEntry_last
      intro q hq
      exact (List.pairwise_append.mp h).2.2 q hq p List.mem_cons_self
    rw [List.foldl_cons, ih]
    · rw [hlast, List.append_assoc]
      rfl
    · rwa [hlast, List.append_assoc]

theorem ofEntries_entries (m : SortedMap κ ν) : ofEntries m.entries = m := by
  apply ext
  rw [ofEntries, foldl_insert_entries (m := empty) (by simpa [empty] using m.sorted)]
  rfl

theorem length_ofEntries_le (entries : List (κ × ν)) :
    (ofEntries entries).entries.length ≤ entries.length := by
  have hle : ∀ (entries : List (κ × ν)) (m : SortedMap κ ν),
      (entries.foldl (fun m p => m.insert p.1 p.2) m).entries.length ≤
        m.entries.length + entries.length := by
    intro entries
    induction entries with
    | nil => intro m; simp
    | cons p entries ih =>
      intro m
      have hrest := ih (m.insert p.1 p.2)
      have hone : (m.insert p.1 p.2).entries.length ≤ m.entries.length + 1 :=
        length_insertEntry_le p.1 p.2 m.entries
      rw [List.foldl_cons, List.length_cons]
      omega
  have hall := hle entries empty
  rwa [empty, List.length_nil, Nat.zero_add] at hall

end SortedMap

end FreeAmp.Lib
