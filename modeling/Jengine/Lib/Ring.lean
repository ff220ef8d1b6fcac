import Jengine.Lib.Runs
import Jengine.Lib.Segments

/-!
# Rings of memory and bounded queues

The first `cap` cells of a segment can be read as a ring: behind the cell before the border
comes the first one again.  A ring region is given by its first cell and its length, and is the
plain region from there on, or two plain regions where it crosses the border.

A bounded queue is what a ring is used for: a list that never outgrows the capacity, with the
oldest element first.  `ring_push` and `ring_pop` are the two steps in which the region of a
ring goes along with the queue.
-/

namespace Jengine.Lib

namespace Segments

variable {α : Type} {m m' : Segments α} {seg cap : Nat}

/-- The `n` cells from `b` on, round the border at `cap`. -/
def ring (m : Segments α) (seg cap b n : Nat) : List α :=
  (List.range n).map fun i => m seg ((b + i) % cap)

@[simp] theorem length_ring (m : Segments α) (seg cap b n : Nat) :
    (m.ring seg cap b n).length = n := by
  simp [ring]

@[simp] theorem ring_zero (m : Segments α) (seg cap b : Nat) : m.ring seg cap b 0 = [] := rfl

theorem ring_add (m : Segments α) (seg cap b n k : Nat) :
    m.ring seg cap b (n + k) = m.ring seg cap b n ++ m.ring seg cap (b + n) k := by
  simp only [ring, List.range_add, List.map_append, List.map_map]
  congr 1
  apply List.map_congr_left
  intro i _
  simp [Nat.add_assoc]

/-- A region may start anywhere behind the border. -/
theorem ring_mod (m : Segments α) (seg cap b n : Nat) :
    m.ring seg cap (b % cap) n = m.ring seg cap b n := by
  apply List.map_congr_left
  intro i _
  rw [Nat.mod_add_mod]

/-- A region that does not cross the border. -/
theorem ring_eq_read {b n : Nat} (h : b + n ≤ cap) : m.ring seg cap b n = m.read seg b n := by
  apply List.map_congr_left
  intro i hi
  rw [List.mem_range] at hi
  rw [Nat.mod_eq_of_lt (by omega)]

/-- A region that crosses the border. -/
theorem ring_cross {b n : Nat} (hb : b ≤ cap) (hn : n ≤ cap) (h : cap ≤ b + n) :
    m.ring seg cap b n = m.read seg b (cap - b) ++ m.read seg 0 (n - (cap - b)) := by
  have hsplit : n = (cap - b) + (n - (cap - b)) := by omega
  have hborder : (b + (cap - b)) % cap = 0 := by
    rw [Nat.add_sub_cancel' hb, Nat.mod_self]
  conv_lhs => rw [hsplit]
  rw [ring_add, ring_eq_read (Nat.le_of_eq (Nat.add_sub_cancel' hb)),
    ← ring_mod m seg cap (b + (cap - b)), hborder, ring_eq_read (by omega)]

theorem ring_congr {b n : Nat} (h : ∀ i < n, m' seg ((b + i) % cap) = m seg ((b + i) % cap)) :
    m'.ring seg cap b n = m.ring seg cap b n := by
  apply List.map_congr_left
  intro i hi
  exact h i (List.mem_range.mp hi)

/-- Cells less than a whole round apart are different. -/
theorem add_mod_ne {b i j : Nat} (hij : i < j) (hj : j < i + cap) :
    (b + i) % cap ≠ (b + j) % cap := by
  intro heq
  have hrounds : ((b + j) - (b + i)) % cap = 0 := Nat.sub_mod_eq_zero_of_mod_eq heq.symm
  rw [Nat.mod_eq_of_lt (by omega)] at hrounds
  omega

/-- **Appending to a region.**  Where the new cells are right behind the region and fit in front
    of it, and the cells of the ring they do not take keep what they hold, the region grows by
    the new cells. -/
theorem ring_push {b n t : Nat} {xs : List α} (hcap : 0 < cap) (hfit : n + xs.length ≤ cap)
    (ht : t = (b + n) % cap) (hnew : m'.ring seg cap t xs.length = xs)
    (hkeep : ∀ p < cap, (∀ j < xs.length, (t + j) % cap ≠ p) → m' seg p = m seg p) :
    m'.ring seg cap b (n + xs.length) = m.ring seg cap b n ++ xs := by
  have hback : m'.ring seg cap (b + n) xs.length = xs := by
    rw [← ring_mod, ← ht, hnew]
  have hfront : m'.ring seg cap b n = m.ring seg cap b n := by
    apply ring_congr
    intro i hi
    apply hkeep _ (Nat.mod_lt _ hcap)
    intro j hj
    rw [ht, Nat.mod_add_mod, Nat.add_assoc]
    exact (add_mod_ne (by omega) (by omega)).symm
  rw [ring_add, hfront, hback]

/-- **Taking from a region.**  What is left starts behind the cells taken. -/
theorem ring_pop (m : Segments α) (seg cap : Nat) {b n k : Nat} (h : k ≤ n) :
    (m.ring seg cap b n).take k = m.ring seg cap b k ∧
      (m.ring seg cap b n).drop k = m.ring seg cap ((b + k) % cap) (n - k) := by
  obtain ⟨d, rfl⟩ := Nat.exists_eq_add_of_le h
  have hlen : (m.ring seg cap b k).length = k := length_ring m seg cap b k
  rw [ring_add, List.take_left' hlen, List.drop_left' hlen, ring_mod, Nat.add_sub_cancel_left]
  exact ⟨rfl, rfl⟩

end Segments

/-- At most `cap` elements, the oldest first. -/
structure BoundedQueue (α : Type) (cap : Nat) where
  items : List α
  fits : items.length ≤ cap

namespace BoundedQueue

variable {α : Type} {cap : Nat}

def empty (α : Type) (cap : Nat) : BoundedQueue α cap := ⟨[], Nat.zero_le cap⟩

/-- Append all of `xs`, or nothing. -/
def write (q : BoundedQueue α cap) (xs : List α) : Bool × BoundedQueue α cap :=
  if h : q.items.length + xs.length ≤ cap then
    (true, ⟨q.items ++ xs, by rw [List.length_append]; exact h⟩)
  else (false, q)

/-- Take the `n` oldest elements, or nothing. -/
def read (q : BoundedQueue α cap) (n : Nat) : Option (List α) × BoundedQueue α cap :=
  if n ≤ q.items.length then
    (some (q.items.take n),
      ⟨q.items.drop n, by rw [List.length_drop]; exact Nat.le_trans (Nat.sub_le ..) q.fits⟩)
  else (none, q)

/-- What a read would give, without taking it. -/
def softRead (q : BoundedQueue α cap) (n : Nat) : Option (List α) := (q.read n).1

end BoundedQueue

end Jengine.Lib
