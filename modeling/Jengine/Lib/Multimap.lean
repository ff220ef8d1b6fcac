import Mathlib.Data.List.Nodup
import Mathlib.Data.List.TakeWhile
import Mathlib.Order.Lattice

/-!
# Multimaps with iterators

A multimap keeps its elements in the order of their keys, and elements with one key in the
order of their insertion.  Every insertion makes a node of its own; nodes are numbered, so
that the number of a node is an iterator to it, which stays good while the node is there.
-/

namespace Jengine.Lib

/-- An element of a multimap. -/
structure Node (K V : Type) where
  id : Nat
  key : K
  val : V

structure Multimap (K V : Type) where
  nodes : List (Node K V)
  /-- The number of the next node. -/
  next : Nat

namespace Multimap

variable {K V : Type}

def empty : Multimap K V := ⟨[], 0⟩

/-- The first element, or the end. -/
def first (m : Multimap K V) : Option Nat := m.nodes.head?.map Node.id

def find (m : Multimap K V) (it : Nat) : Option (Node K V) := m.nodes.find? fun n => n.id == it

/-- Take an element out; the second component is the element behind it. -/
def erase (m : Multimap K V) (it : Nat) : Multimap K V × Option Nat :=
  ({ m with nodes := m.nodes.filter fun n => n.id != it },
    (m.nodes.dropWhile fun n => n.id != it).tail.head?.map Node.id)

theorem mem_erase {m : Multimap K V} {it : Nat} {n : Node K V} :
    n ∈ (m.erase it).1.nodes ↔ n ∈ m.nodes ∧ n.id ≠ it := by
  rw [Multimap.erase, List.mem_filter, bne_iff_ne]

section Order

variable [LinearOrder K]

/-- Insert behind all elements with no greater key. -/
def emplace (m : Multimap K V) (k : K) (v : V) : Multimap K V where
  nodes := m.nodes.takeWhile (fun n => n.key ≤ k) ++
    ⟨m.next, k, v⟩ :: m.nodes.dropWhile (fun n => n.key ≤ k)
  next := m.next + 1

/-- By key, and by insertion where the keys are equal. -/
def Before (a b : Node K V) : Prop := a.key < b.key ∨ (a.key = b.key ∧ a.id < b.id)

/-- The elements are in order, and every node has a number of its own. -/
structure Ordered (m : Multimap K V) : Prop where
  before : m.nodes.Pairwise Before
  distinct : m.nodes.Pairwise fun a b => a.id ≠ b.id
  lt : ∀ n ∈ m.nodes, n.id < m.next

theorem Before.key_le {a b : Node K V} (h : Before a b) : a.key ≤ b.key := by
  rcases h with h | h
  · exact le_of_lt h
  · exact le_of_eq h.1

theorem ordered_empty : (empty : Multimap K V).Ordered where
  before := List.Pairwise.nil
  distinct := List.Pairwise.nil
  lt := fun _ h => absurd h List.not_mem_nil

/-- Elements with smaller keys in front do not matter to an insertion. -/
theorem nodes_emplace_append {m : Multimap K V} {xs ys : List (Node K V)} {k : K}
    (hnodes : m.nodes = xs ++ ys) (hxs : ∀ n ∈ xs, n.key ≤ k) (v : V) :
    (m.emplace k v).nodes = xs ++ (emplace { m with nodes := ys } k v).nodes := by
  have hall : xs.takeWhile (fun n => n.key ≤ k) = xs :=
    List.takeWhile_eq_self_iff.mpr fun n hn => decide_eq_true (hxs n hn)
  have hnone : xs.dropWhile (fun n => n.key ≤ k) = [] :=
    List.dropWhile_eq_nil_iff.mpr fun n hn => decide_eq_true (hxs n hn)
  simp only [emplace, hnodes, List.takeWhile_append, List.dropWhile_append, hall, hnone]
  simp

theorem perm_emplace (m : Multimap K V) (k : K) (v : V) :
    (m.emplace k v).nodes.Perm (⟨m.next, k, v⟩ :: m.nodes) := by
  have hsplit := List.takeWhile_append_dropWhile (p := fun n : Node K V => decide (n.key ≤ k))
    (l := m.nodes)
  exact List.perm_middle.trans (by rw [hsplit])

theorem mem_emplace {m : Multimap K V} {k : K} {v : V} {n : Node K V} :
    n ∈ (m.emplace k v).nodes ↔ n = ⟨m.next, k, v⟩ ∨ n ∈ m.nodes := by
  rw [(perm_emplace m k v).mem_iff, List.mem_cons]

/-- Behind the first element with a greater key there are only greater keys. -/
theorem Ordered.lt_of_mem_dropWhile {m : Multimap K V} (h : m.Ordered) {k : K} {n : Node K V}
    (hn : n ∈ m.nodes.dropWhile fun n => n.key ≤ k) : k < n.key := by
  have hbefore := h.before
  clear h
  generalize m.nodes = xs at hn hbefore
  induction xs with
  | nil => exact absurd hn List.not_mem_nil
  | cons a rest ih =>
      obtain ⟨ha, hrest⟩ := List.pairwise_cons.mp hbefore
      by_cases hle : a.key ≤ k
      · rw [List.dropWhile_cons, if_pos (by simpa using hle)] at hn
        exact ih hn hrest
      · rw [List.dropWhile_cons, if_neg (by simpa using hle)] at hn
        have hlt : k < a.key := lt_of_not_ge hle
        rcases List.mem_cons.mp hn with rfl | hn
        · exact hlt
        · exact lt_of_lt_of_le hlt (ha n hn).key_le

theorem Ordered.emplace {m : Multimap K V} (h : m.Ordered) (k : K) (v : V) :
    (m.emplace k v).Ordered := by
  have hsplit := List.takeWhile_append_dropWhile (p := fun n : Node K V => decide (n.key ≤ k))
    (l := m.nodes)
  have hbefore := h.before
  rw [← hsplit, List.pairwise_append] at hbefore
  obtain ⟨hfront, hback, hcross⟩ := hbefore
  refine ⟨?_, ?_, ?_⟩
  · refine List.pairwise_append.mpr ⟨hfront, List.pairwise_cons.mpr ⟨?_, hback⟩, ?_⟩
    · exact fun n hn => Or.inl (h.lt_of_mem_dropWhile hn)
    · intro a ha b hb
      rcases List.mem_cons.mp hb with rfl | hb
      · have hle : a.key ≤ k := by simpa using List.mem_takeWhile_imp ha
        have hmem : a ∈ m.nodes := (List.takeWhile_sublist _).mem ha
        rcases lt_or_eq_of_le hle with hlt | heq
        · exact Or.inl hlt
        · exact Or.inr ⟨heq, h.lt a hmem⟩
      · exact hcross a ha b hb
  · have hcons : (⟨m.next, k, v⟩ :: m.nodes).Pairwise fun a b : Node K V => a.id ≠ b.id :=
      List.pairwise_cons.mpr ⟨fun n hn => Ne.symm (Nat.ne_of_lt (h.lt n hn)), h.distinct⟩
    exact (perm_emplace m k v).symm.pairwise hcons fun hab => Ne.symm hab
  · intro n hn
    rcases mem_emplace.mp hn with rfl | hn
    · exact Nat.lt_succ_self _
    · exact Nat.lt_succ_of_lt (h.lt n hn)

/-- The elements up to a key come first. -/
theorem Ordered.split {m : Multimap K V} (h : m.Ordered) (k : K) :
    m.nodes = m.nodes.filter (fun n => n.key ≤ k) ++ m.nodes.filter fun n => k < n.key := by
  have hbefore := h.before
  clear h
  generalize m.nodes = xs at hbefore
  induction xs with
  | nil => rfl
  | cons a rest ih =>
      obtain ⟨ha, hrest⟩ := List.pairwise_cons.mp hbefore
      by_cases hle : a.key ≤ k
      · rw [List.filter_cons, if_pos (by simpa using hle), List.filter_cons,
          if_neg (by simpa using hle), List.cons_append, ← ih hrest]
      · have hlt : k < a.key := lt_of_not_ge hle
        have hgreater : ∀ n ∈ rest, k < n.key := fun n hn => lt_of_lt_of_le hlt (ha n hn).key_le
        have hnone : rest.filter (fun n => n.key ≤ k) = [] :=
          List.filter_eq_nil_iff.mpr fun n hn => by simpa using hgreater n hn
        have hall : rest.filter (fun n => k < n.key) = rest :=
          List.filter_eq_self.mpr fun n hn => decide_eq_true (hgreater n hn)
        rw [List.filter_cons, if_neg (by simpa using hle), List.filter_cons,
          if_pos (by simpa using hlt), hnone, hall, List.nil_append]

theorem Ordered.find {m : Multimap K V} (h : m.Ordered) {n : Node K V} (hn : n ∈ m.nodes) :
    m.find n.id = some n := by
  have hdistinct := h.distinct
  rw [Multimap.find]
  clear h
  generalize m.nodes = xs at hn hdistinct
  induction xs with
  | nil => exact absurd hn List.not_mem_nil
  | cons a rest ih =>
      obtain ⟨ha, hrest⟩ := List.pairwise_cons.mp hdistinct
      rcases List.mem_cons.mp hn with rfl | hn
      · simp
      · have hne : (a.id == n.id) = false := beq_eq_false_iff_ne.mpr (ha n hn)
        rw [List.find?_cons, hne]
        exact ih hn hrest

/-- Erasing an element at its place. -/
theorem Ordered.erase_at {m : Multimap K V} (h : m.Ordered) {n : Node K V}
    {xs ys : List (Node K V)} (hnodes : m.nodes = xs ++ n :: ys) :
    m.erase n.id = ({ m with nodes := xs ++ ys }, ys.head?.map Node.id) := by
  have hdistinct := h.distinct
  rw [hnodes, List.pairwise_append] at hdistinct
  obtain ⟨-, hys, hxs⟩ := hdistinct
  have hbefore : ∀ a ∈ xs, (a.id != n.id) = true := fun a ha =>
    bne_iff_ne.mpr (hxs a ha n List.mem_cons_self)
  have hbehind : ∀ a ∈ ys, (a.id != n.id) = true := fun a ha =>
    bne_iff_ne.mpr (Ne.symm ((List.pairwise_cons.mp hys).1 a ha))
  rw [Multimap.erase, hnodes, List.filter_append, List.filter_eq_self.mpr hbefore,
    List.dropWhile_append_of_pos hbefore]
  simp [List.filter_eq_self.mpr hbehind]

theorem Ordered.sublist {m : Multimap K V} (h : m.Ordered) {nodes : List (Node K V)}
    (hsub : nodes.Sublist m.nodes) : Ordered { m with nodes := nodes } where
  before := h.before.sublist hsub
  distinct := h.distinct.sublist hsub
  lt := fun n hn => h.lt n (hsub.mem hn)

theorem Ordered.erase {m : Multimap K V} (h : m.Ordered) (it : Nat) : (m.erase it).1.Ordered :=
  h.sublist List.filter_sublist

theorem Ordered.perm_erase {m : Multimap K V} (h : m.Ordered) {n : Node K V} (hn : n ∈ m.nodes) :
    m.nodes.Perm (n :: (m.erase n.id).1.nodes) := by
  obtain ⟨xs, ys, hnodes⟩ := List.append_of_mem hn
  rw [h.erase_at hnodes, hnodes]
  exact List.perm_middle

end Order

end Multimap

end Jengine.Lib
