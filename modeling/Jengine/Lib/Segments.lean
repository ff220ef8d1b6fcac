import Mathlib.Data.List.Basic

/-!
# Segmented memory

A memory is a family of segments, each an unbounded array of cells: a cell is
addressed by the number of its segment and an offset in it.  Reading a region
gives the list of its cells, writing a list overwrites the region that starts
at an offset.  The lemmas say how a region splits, what a written region reads
back as, and that a write leaves every disjoint region alone.

A region carries no bound of its own: which offsets of a segment exist is the
business of whoever hands the regions out.
-/

namespace Jengine.Lib

/-- The cells of all segments: segment number, then offset. -/
abbrev Segments (α : Type) := Nat → Nat → α

namespace Segments

variable {α : Type}

/-- The `n` cells of segment `seg` from offset `off` on. -/
def read (m : Segments α) (seg off n : Nat) : List α :=
  (List.range n).map fun i => m seg (off + i)

/-- Overwrite segment `seg` from offset `off` on with the cells `xs`. -/
def write (m : Segments α) (seg off : Nat) (xs : List α) : Segments α :=
  fun s i => if s = seg ∧ off ≤ i then (xs[i - off]?).getD (m s i) else m s i

@[simp] theorem length_read (m : Segments α) (seg off n : Nat) :
    (m.read seg off n).length = n := by
  simp [read]

@[simp] theorem read_zero (m : Segments α) (seg off : Nat) : m.read seg off 0 = [] := rfl

/-- A region splits at any point into the region before it and the one after. -/
theorem read_add (m : Segments α) (seg off a b : Nat) :
    m.read seg off (a + b) = m.read seg off a ++ m.read seg (off + a) b := by
  simp only [read, List.range_add, List.map_append, List.map_map]
  congr 1
  apply List.map_congr_left
  intro i _
  simp [Nat.add_assoc]

theorem take_read (m : Segments α) (seg off n k : Nat) (h : k ≤ n) :
    (m.read seg off n).take k = m.read seg off k := by
  obtain ⟨d, rfl⟩ := Nat.exists_eq_add_of_le h
  rw [read_add, List.take_left' (length_read m seg off k)]

theorem drop_read (m : Segments α) (seg off n k : Nat) (h : k ≤ n) :
    (m.read seg off n).drop k = m.read seg (off + k) (n - k) := by
  obtain ⟨d, rfl⟩ := Nat.exists_eq_add_of_le h
  rw [read_add, List.drop_left' (length_read m seg off k), Nat.add_sub_cancel_left]

/-- Two memories that agree on a region read the same there. -/
theorem read_congr {m m' : Segments α} {seg off n : Nat}
    (h : ∀ i, off ≤ i → i < off + n → m' seg i = m seg i) :
    m'.read seg off n = m.read seg off n := by
  apply List.map_congr_left
  intro i hi
  rw [List.mem_range] at hi
  exact h (off + i) (by omega) (by omega)

@[simp] theorem write_nil (m : Segments α) (seg off : Nat) : m.write seg off [] = m := by
  funext s i
  simp [write]

theorem write_other_segment (m : Segments α) (seg off : Nat) (xs : List α) {s : Nat}
    (h : s ≠ seg) (i : Nat) : m.write seg off xs s i = m s i := by
  simp [write, h]

theorem write_outside (m : Segments α) (seg off : Nat) (xs : List α) (s i : Nat)
    (h : i < off ∨ off + xs.length ≤ i) : m.write seg off xs s i = m s i := by
  by_cases hs : s = seg ∧ off ≤ i
  · have hlen : xs[i - off]? = none := List.getElem?_eq_none (by omega)
    simp [write, hs, hlen]
  · simp [write, hs]

/-- What was written reads back. -/
theorem read_write_same (m : Segments α) (seg off : Nat) (xs : List α) :
    (m.write seg off xs).read seg off xs.length = xs := by
  apply List.ext_getElem (by simp)
  intro i hi hi'
  simp [read, write, List.getElem?_eq_getElem hi']

theorem read_write_other_segment (m : Segments α) (seg off : Nat) (xs : List α)
    {s : Nat} (h : s ≠ seg) (o n : Nat) : (m.write seg off xs).read s o n = m.read s o n :=
  read_congr fun i _ _ => write_other_segment m seg off xs h i

/-- A write leaves every region before or after the written cells alone. -/
theorem read_write_disjoint (m : Segments α) (seg off : Nat) (xs : List α) (s o n : Nat)
    (h : o + n ≤ off ∨ off + xs.length ≤ o) :
    (m.write seg off xs).read s o n = m.read s o n :=
  read_congr fun i hlo hhi => write_outside m seg off xs s i (by omega)

/-- Writing inside a region replaces exactly the cells written. -/
theorem read_write_inside (m : Segments α) (seg off n k : Nat) (xs : List α)
    (h : k + xs.length ≤ n) :
    (m.write seg (off + k) xs).read seg off n =
      (m.read seg off n).take k ++ xs ++ (m.read seg off n).drop (k + xs.length) := by
  obtain ⟨d, rfl⟩ := Nat.exists_eq_add_of_le h
  rw [take_read m seg off _ k (by omega), drop_read m seg off _ _ (by omega),
    Nat.add_sub_cancel_left, read_add, read_add,
    read_write_disjoint m seg (off + k) xs seg off k (by omega),
    read_write_same, read_write_disjoint m seg (off + k) xs seg _ d (by omega)]

end Segments

end Jengine.Lib
