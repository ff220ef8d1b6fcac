import Mathlib.Data.List.Nodup
import Mathlib.Data.List.TakeWhile

/-!
# Iterators into a list that changes

The elements of a `std::list` stay where they are, so an iterator stays good while its
element is there, whatever is inserted or erased elsewhere.  Here the elements have keys, and
an iterator is the key of its element, or none at the end.  What a walk has still before it is
`ahead` of its iterator.
-/

namespace Jengine.Lib

variable {α : Type} (key : α → Nat)

/-- `begin()`. -/
def start (xs : List α) : Option Nat := xs.head?.map key

/-- What is ahead of an iterator, its own element included. -/
def ahead (xs : List α) : Option Nat → List α
  | none => []
  | some i => xs.dropWhile fun x => key x != i

/-- The iterator to the next element. -/
def following (xs : List α) (i : Nat) : Option Nat := start key (ahead key xs (some i)).tail

/-- The list when an element has been erased. -/
def without (xs : List α) (i : Nat) : List α := xs.filter fun x => key x != i

variable {key} {xs : List α} {a : α} {it : Option Nat}

theorem ahead_start (xs : List α) : ahead key xs (start key xs) = xs := by
  cases xs with
  | nil => rfl
  | cons x xs =>
      show (x :: xs).dropWhile (fun y => key y != key x) = x :: xs
      rw [List.dropWhile_cons, if_neg (by simp)]

theorem mem_of_start {i : Nat} (h : start key xs = some i) : ∃ x ∈ xs, key x = i := by
  cases xs with
  | nil => exact absurd h (Option.some_ne_none i).symm
  | cons x xs => exact ⟨x, List.mem_cons_self, Option.some.inj h⟩

theorem mem_without {i : Nat} : a ∈ without key xs i ↔ a ∈ xs ∧ key a ≠ i := by
  rw [without, List.mem_filter, bne_iff_ne]

theorem mem_keys_without {i j : Nat} :
    j ∈ (without key xs i).map key ↔ j ∈ xs.map key ∧ j ≠ i := by
  simp only [List.mem_map, mem_without]
  constructor
  · rintro ⟨a, ⟨ha, hne⟩, rfl⟩
    exact ⟨⟨a, ha, rfl⟩, hne⟩
  · rintro ⟨⟨a, ha, rfl⟩, hne⟩
    exact ⟨a, ⟨ha, hne⟩, rfl⟩

theorem ahead_subset (xs : List α) (it : Option Nat) : ahead key xs it ⊆ xs := by
  cases it with
  | none => exact List.nil_subset _
  | some i => exact (List.dropWhile_sublist _).subset

theorem nodup_without (h : (xs.map key).Nodup) (i : Nat) : ((without key xs i).map key).Nodup :=
  h.sublist (List.filter_sublist.map key)

/-- An insertion at the end comes to lie ahead. -/
theorem mem_ahead_append (ys : List α) (h : a ∈ ahead key xs it) :
    a ∈ ahead key (xs ++ ys) it := by
  cases it with
  | none => exact absurd h List.not_mem_nil
  | some i =>
      have hne : (xs.dropWhile fun x => key x != i).isEmpty = false := by
        rw [List.isEmpty_eq_false_iff]
        exact List.ne_nil_of_mem h
      show a ∈ (xs ++ ys).dropWhile fun x => key x != i
      rw [List.dropWhile_append, if_neg (by rw [hne]; exact Bool.false_ne_true)]
      exact List.mem_append_left ys h

/-- An element erased elsewhere is not ahead any more, and nothing else changes. -/
theorem mem_ahead_without {i j : Nat} (h : a ∈ ahead key xs (some i)) (hij : i ≠ j)
    (ha : key a ≠ j) : a ∈ ahead key (without key xs j) (some i) := by
  induction xs with
  | nil => exact absurd h List.not_mem_nil
  | cons x xs ih =>
      have hskip : ∀ {zs : List α}, key x ≠ i →
          ahead key (x :: zs) (some i) = ahead key zs (some i) := by
        intro zs hx
        show (x :: zs).dropWhile (fun y => key y != i) = zs.dropWhile fun y => key y != i
        rw [List.dropWhile_cons, if_pos (bne_iff_ne.mpr hx)]
      by_cases hx : key x = i
      · have hkeep : without key (x :: xs) j = x :: without key xs j := by
          rw [without, List.filter_cons, if_pos (bne_iff_ne.mpr (by rw [hx]; exact hij))]
          rfl
        have hmem : a ∈ x :: xs := ahead_subset _ _ h
        rw [hkeep]
        show a ∈ (x :: without key xs j).dropWhile fun y => key y != i
        rw [List.dropWhile_cons, if_neg (by simpa using hx)]
        rcases List.mem_cons.mp hmem with rfl | hmem
        · exact List.mem_cons_self
        · exact List.mem_cons_of_mem x (mem_without.mpr ⟨hmem, ha⟩)
      · rw [hskip hx] at h
        by_cases hxj : key x = j
        · have hdrop : without key (x :: xs) j = without key xs j := by
            rw [without, List.filter_cons, if_neg (by simpa using hxj)]
            rfl
          rw [hdrop]
          exact ih h
        · have hkeep : without key (x :: xs) j = x :: without key xs j := by
            rw [without, List.filter_cons, if_pos (bne_iff_ne.mpr hxj)]
            rfl
          rw [hkeep, hskip hx]
          exact ih h

section

variable {x : α}

/-- An element splits the list. -/
theorem split_at (h : (xs.map key).Nodup) (hx : x ∈ xs) : ∃ ys zs, xs = ys ++ x :: zs ∧
    ahead key xs (some (key x)) = x :: zs ∧ without key xs (key x) = ys ++ zs ∧
    following key xs (key x) = start key zs := by
  obtain ⟨ys, zs, rfl⟩ := List.append_of_mem hx
  rw [List.map_append, List.map_cons, List.nodup_append, List.nodup_cons] at h
  obtain ⟨-, ⟨hzs, -⟩, hys⟩ := h
  have hbefore : ∀ y ∈ ys, (key y != key x) = true := fun y hy =>
    bne_iff_ne.mpr (hys (key y) (List.mem_map_of_mem hy) (key x) List.mem_cons_self)
  have hbehind : ∀ z ∈ zs, (key z != key x) = true := fun z hz =>
    bne_iff_ne.mpr fun heq => hzs (List.mem_map.mpr ⟨z, hz, heq⟩)
  have hahead : ahead key (ys ++ x :: zs) (some (key x)) = x :: zs := by
    show (ys ++ x :: zs).dropWhile _ = _
    rw [List.dropWhile_append_of_pos hbefore, List.dropWhile_cons, if_neg (by simp)]
  refine ⟨ys, zs, rfl, hahead, ?_, ?_⟩
  · rw [without, List.filter_append, List.filter_eq_self.mpr hbefore, List.filter_cons,
      if_neg (by simp), List.filter_eq_self.mpr hbehind]
  · rw [following, hahead]
    rfl

theorem ahead_append_start {ys zs : List α} (h : ((ys ++ zs).map key).Nodup) :
    ahead key (ys ++ zs) (start key zs) = zs := by
  cases zs with
  | nil => rfl
  | cons z zs =>
      have hz : z ∈ ys ++ z :: zs := List.mem_append_right ys List.mem_cons_self
      rw [List.map_append, List.map_cons, List.nodup_append] at h
      obtain ⟨-, -, hys⟩ := h
      have hbefore : ∀ y ∈ ys, (key y != key z) = true := fun y hy =>
        bne_iff_ne.mpr (hys (key y) (List.mem_map_of_mem hy) (key z) List.mem_cons_self)
      show (ys ++ z :: zs).dropWhile _ = _
      rw [List.dropWhile_append_of_pos hbefore, List.dropWhile_cons, if_neg (by simp)]

/-- The iterator goes on by one element. -/
theorem mem_ahead_following (h : (xs.map key).Nodup) (hx : x ∈ xs)
    (ha : a ∈ ahead key xs (some (key x))) :
    a = x ∨ a ∈ ahead key xs (following key xs (key x)) := by
  obtain ⟨ys, zs, hxs, hahead, -, hfollowing⟩ := split_at h hx
  rw [hahead] at ha
  refine (List.mem_cons.mp ha).imp_right fun ha => ?_
  rw [hfollowing, hxs, List.append_cons]
  rw [hxs, List.append_cons] at h
  rwa [ahead_append_start h]

/-- The same when the element is erased. -/
theorem mem_ahead_following_without (h : (xs.map key).Nodup) (hx : x ∈ xs)
    (ha : a ∈ ahead key xs (some (key x))) :
    a = x ∨ a ∈ ahead key (without key xs (key x)) (following key xs (key x)) := by
  obtain ⟨ys, zs, -, hahead, hwithout, hfollowing⟩ := split_at h hx
  have hnodup := nodup_without h (key x)
  rw [hahead] at ha
  refine (List.mem_cons.mp ha).imp_right fun ha => ?_
  rw [hwithout] at hnodup ⊢
  rwa [hfollowing, ahead_append_start hnodup]

/-- The next element is there, also when the one before it has been erased. -/
theorem mem_of_following {j : Nat} (h : (xs.map key).Nodup) (hx : x ∈ xs)
    (hj : following key xs (key x) = some j) : ∃ y ∈ without key xs (key x), key y = j := by
  obtain ⟨ys, zs, -, -, hwithout, hfollowing⟩ := split_at h hx
  rw [hfollowing] at hj
  obtain ⟨y, hy, hkey⟩ := mem_of_start hj
  rw [hwithout]
  exact ⟨y, List.mem_append_right ys hy, hkey⟩

end

end Jengine.Lib
