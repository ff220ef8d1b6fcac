import Mathlib.Data.List.AList

/-!
# Tables

Finite maps with the two operations that the standard containers have and
`AList` has not: an insertion that keeps the entry that is there, and the
removal of all entries whose value fails a test.
-/

namespace Jengine.Lib

variable {κ ν : Type} [DecidableEq κ]

/-- A finite map, as a list of entries with distinct keys. -/
abbrev Table (κ ν : Type) := AList fun _ : κ => ν

namespace Table

/-- Insert unless the key is there. -/
def emplace (t : Table κ ν) (k : κ) (v : ν) : Table κ ν := if k ∈ t then t else t.insert k v

/-- Keep the entries whose value passes the test. -/
def keep (t : Table κ ν) (p : ν → Bool) : Table κ ν :=
  ⟨t.entries.filter fun e => p e.2, by
    have hnodup := t.nodupKeys
    rw [List.nodupKeys_iff_pairwise] at hnodup ⊢
    exact hnodup.filter _⟩

/-- The values, in some order. -/
def values (t : Table κ ν) : List ν := t.entries.map fun e => e.2

theorem lookup_emplace (t : Table κ ν) (k : κ) (v : ν) (k' : κ) :
    (emplace t k v).lookup k' =
      if k' = k then some ((t.lookup k).getD v) else t.lookup k' := by
  unfold emplace
  split
  · rename_i hmem
    split
    · rename_i heq
      subst heq
      obtain ⟨w, hw⟩ := Option.isSome_iff_exists.mp (AList.lookup_isSome.mpr hmem)
      simp [hw]
    · rfl
  · rename_i hmem
    have hnone : t.lookup k = none := AList.lookup_eq_none.mpr hmem
    split
    · rename_i heq
      rw [heq, AList.lookup_insert, hnone]
      rfl
    · rename_i hne
      exact AList.lookup_insert_ne hne

theorem lookup_erase_eq (t : Table κ ν) (k k' : κ) :
    AList.lookup k' (t.erase k) = if k' = k then none else t.lookup k' := by
  split
  · rename_i heq
    rw [heq, AList.lookup_erase]
  · rename_i hne
    exact AList.lookup_erase_ne hne

theorem mem_entries {t : Table κ ν} {k : κ} {v : ν} :
    (⟨k, v⟩ : Sigma fun _ : κ => ν) ∈ t.entries ↔ t.lookup k = some v :=
  AList.mem_lookup_iff.symm

theorem mem_values {t : Table κ ν} {v : ν} : v ∈ t.values ↔ ∃ k, t.lookup k = some v := by
  unfold values
  rw [List.mem_map]
  constructor
  · rintro ⟨⟨k, w⟩, hmem, rfl⟩
    exact ⟨k, mem_entries.mp hmem⟩
  · rintro ⟨k, hk⟩
    exact ⟨⟨k, v⟩, mem_entries.mpr hk, rfl⟩

theorem lookup_keep {t : Table κ ν} {p : ν → Bool} {k : κ} {v : ν} :
    (keep t p).lookup k = some v ↔ t.lookup k = some v ∧ p v = true := by
  rw [← mem_entries, ← mem_entries]
  show _ ∈ t.entries.filter _ ↔ _
  rw [List.mem_filter]

theorem lookup_keep_eq (t : Table κ ν) (p : ν → Bool) (k : κ) :
    (keep t p).lookup k = (t.lookup k).filter p := by
  apply Option.ext
  intro v
  rw [lookup_keep, Option.filter_eq_some_iff]

theorem values_eq_nil {t : Table κ ν} : t.entries = [] ↔ ∀ k, t.lookup k = none := by
  constructor
  · intro hnil k
    rw [AList.lookup_eq_none, AList.mem_keys, AList.keys, hnil]
    exact List.not_mem_nil
  · intro hnone
    apply List.eq_nil_iff_forall_not_mem.mpr
    rintro ⟨k, v⟩ hmem
    rw [mem_entries, hnone] at hmem
    cases hmem

end Table

end Jengine.Lib
