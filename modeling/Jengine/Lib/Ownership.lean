import Mathlib.Algebra.Order.BigOperators.Group.List
import Mathlib.Algebra.Order.Group.Multiset
import Mathlib.Algebra.Order.Group.Nat
import Mathlib.Data.List.Perm.Subperm
import Mathlib.Data.Multiset.AddSub
import Mathlib.Data.Multiset.Count
import Mathlib.Logic.Function.Basic

/-!
# Counted references

Objects count the references to them and are destroyed when the last one is given up.  An
object may hold references itself, its members, which its destructor gives up.  The counts are
right if they are those of the references that exist: the ones held outside, `outer`, and the
members of the objects that are there.

A count is a `UInt32`.  An access to an object that is not there is a fault.
-/

namespace Jengine.Lib

structure Heap (ι : Type) where
  count : ι → UInt32
  /-- The references that an object holds. -/
  members : ι → List ι
  created : List ι
  /-- The objects that have been destroyed, in this order. -/
  destroyed : List ι
  /-- An object has been accessed that is not there. -/
  fault : Bool

namespace Heap

variable {ι : Type} [DecidableEq ι]

def empty : Heap ι := ⟨fun _ => 0, fun _ => [], [], [], false⟩

def Alive (h : Heap ι) (o : ι) : Prop := o ∈ h.created ∧ o ∉ h.destroyed

instance (h : Heap ι) (o : ι) : Decidable (h.Alive o) :=
  inferInstanceAs (Decidable (o ∈ h.created ∧ o ∉ h.destroyed))

/-- The objects that are there. -/
def live (h : Heap ι) : List ι := h.created.filter fun o => decide (o ∉ h.destroyed)

/-- The references held by objects that are there. -/
def inner (h : Heap ι) : Multiset ι := ↑(h.live.flatMap h.members)

/-- A new object takes over the references `ms`. -/
def create (h : Heap ι) (o : ι) (ms : List ι) : Heap ι :=
  { h with
    count := Function.update h.count o 1
    members := Function.update h.members o ms
    created := o :: h.created }

def retain (h : Heap ι) (o : ι) : Heap ι :=
  { h with
    count := Function.update h.count o (h.count o + 1)
    fault := h.fault || !decide (h.Alive o) }

/-- With the references that the destructor gives up, if it runs. -/
def release (h : Heap ι) (o : ι) : Heap ι × List ι :=
  if h.count o - 1 = 0 then
    ({ h with
      count := Function.update h.count o 0
      destroyed := h.destroyed ++ [o]
      fault := h.fault || !decide (h.Alive o) }, h.members o)
  else
    ({ h with
      count := Function.update h.count o (h.count o - 1)
      fault := h.fault || !decide (h.Alive o) }, [])

/-- The objects `os` are used. -/
def access (h : Heap ι) (os : List ι) : Heap ι :=
  { h with fault := h.fault || !decide (∀ o ∈ os, h.Alive o) }

/-- The object `p` takes over a reference to `o`. -/
def give (h : Heap ι) (p o : ι) : Heap ι :=
  { h with
    members := Function.update h.members p (o :: h.members p)
    fault := h.fault || !decide (h.Alive p) }

/-- The object `p` gives away a reference to `o`. -/
def take (h : Heap ι) (p o : ι) : Heap ι :=
  { h with
    members := Function.update h.members p ((h.members p).erase o)
    fault := h.fault || !decide (h.Alive p) }

/-! ### Counts that are right -/

/-- The counts are those of the references in `outer` and of the members. -/
structure Sound (h : Heap ι) (outer : Multiset ι) : Prop where
  fault : h.fault = false
  created : h.created.Nodup
  destroyed : h.destroyed.Nodup
  destroyed_sub : ∀ o ∈ h.destroyed, o ∈ h.created
  alive : ∀ o, h.Alive o ↔ o ∈ outer + h.inner
  count : ∀ o, h.Alive o → (h.count o).toNat = (outer + h.inner).count o

/-- What can be got at from the references in `outer`. -/
inductive Reaches (h : Heap ι) (outer : Multiset ι) : ι → Prop
  | root {o : ι} (ho : o ∈ outer) : Reaches h outer o
  | member {p o : ι} (hp : Reaches h outer p) (ho : o ∈ h.members p) : Reaches h outer o

variable {h : Heap ι} {outer : Multiset ι} {o p : ι}

theorem mem_live : o ∈ h.live ↔ h.Alive o := by
  simp [live, Alive]

theorem mem_inner : o ∈ h.inner ↔ ∃ p, h.Alive p ∧ o ∈ h.members p := by
  simp only [inner, Multiset.mem_coe, List.mem_flatMap, mem_live]

theorem sound_empty : Sound (empty : Heap ι) 0 where
  fault := rfl
  created := List.nodup_nil
  destroyed := List.nodup_nil
  destroyed_sub := fun _ ho => absurd ho List.not_mem_nil
  alive := fun o => by simp [Alive, empty, inner, live]
  count := fun o ho => absurd ho.1 List.not_mem_nil

/-- What is reached is there. -/
theorem Sound.alive_of_reaches (hs : Sound h outer) (ho : Reaches h outer o) : h.Alive o := by
  induction ho with
  | root ho => exact (hs.alive _).mpr (Multiset.mem_add.mpr (Or.inl ho))
  | member _ ho ih =>
    exact (hs.alive _).mpr (Multiset.mem_add.mpr (Or.inr (mem_inner.mpr ⟨_, ih, ho⟩)))

theorem Sound.perm (hs : Sound h outer) {outer' : Multiset ι} (heq : outer' = outer) :
    Sound h outer' := heq ▸ hs

/-- The members of the live objects, apart from those of one of them. -/
theorem inner_eq_of_mem (hp : p ∈ h.live) :
    h.inner = ↑(h.members p) + ↑((h.live.erase p).flatMap h.members) := by
  have hperm := (List.perm_cons_erase hp).flatMap_right h.members
  rw [List.flatMap_cons] at hperm
  rw [inner, Multiset.coe_add]
  exact Multiset.coe_eq_coe.mpr hperm

theorem live_nodup (hcreated : h.created.Nodup) : h.live.Nodup := hcreated.filter _

/-- Changing the members of one object does not change those of the others. -/
theorem flatMap_update {h : Heap ι} (hlive : h.live.Nodup) (p : ι) (ms : List ι) :
    (h.live.erase p).flatMap (Function.update h.members p ms) =
      (h.live.erase p).flatMap h.members := by
  apply List.flatMap_congr
  intro q hq
  exact Function.update_of_ne (fun heq => (hlive.mem_erase_iff.mp hq).1 heq) _ _

/-! ### What keeps the counts right -/

/-- Only the owners of the references have changed. -/
theorem Sound.moved (hs : Sound h outer) {h' : Heap ι} {outer' : Multiset ι}
    (hcount : h'.count = h.count) (hcreated : h'.created = h.created)
    (hdestroyed : h'.destroyed = h.destroyed) (hfault : h'.fault = h.fault)
    (htotal : outer' + h'.inner = outer + h.inner) : Sound h' outer' := by
  have halive : ∀ o, h'.Alive o ↔ h.Alive o := fun o => by
    rw [Alive, Alive, hcreated, hdestroyed]
  constructor
  · rw [hfault, hs.fault]
  · rw [hcreated]
    exact hs.created
  · rw [hdestroyed]
    exact hs.destroyed
  · rw [hdestroyed, hcreated]
    exact hs.destroyed_sub
  · intro o
    rw [halive, htotal]
    exact hs.alive o
  · intro o ho
    rw [hcount, htotal]
    exact hs.count o ((halive o).mp ho)

theorem Sound.create {ms : List ι} (hs : Sound h (↑ms + outer)) (ho : o ∉ h.created) :
    Sound (h.create o ms) (o ::ₘ outer) := by
  have hdead : o ∉ h.destroyed := fun hd => ho (hs.destroyed_sub o hd)
  have hlive : (h.create o ms).live = o :: h.live := by
    simp only [live, Heap.create]
    exact List.filter_cons_of_pos (decide_eq_true hdead)
  have hinner : (h.create o ms).inner = ↑ms + h.inner := by
    have hrest : h.live.flatMap (Function.update h.members o ms) = h.live.flatMap h.members := by
      apply List.flatMap_congr
      intro q hq
      have hold : q ∈ h.created := (mem_live.mp hq).1
      exact Function.update_of_ne (fun heq : q = o => ho (heq ▸ hold)) _ _
    have hnew : (h.create o ms).members = Function.update h.members o ms := rfl
    rw [inner, hlive, List.flatMap_cons, hnew, Function.update_self, hrest, inner,
      Multiset.coe_add]
  have htotal : o ::ₘ outer + (h.create o ms).inner = o ::ₘ (↑ms + outer + h.inner) := by
    rw [hinner, Multiset.cons_add, add_left_comm, add_assoc]
  have hnone : o ∉ ↑ms + outer + h.inner := fun hmem => ho ((hs.alive o).mpr hmem).1
  constructor
  · exact hs.fault
  · exact List.nodup_cons.mpr ⟨ho, hs.created⟩
  · exact hs.destroyed
  · exact fun q hq => List.mem_cons_of_mem o (hs.destroyed_sub q hq)
  · intro q
    rw [htotal, Multiset.mem_cons, ← hs.alive q]
    simp only [Alive, Heap.create, List.mem_cons]
    constructor
    · rintro ⟨rfl | hq, hd⟩
      · exact Or.inl rfl
      · exact Or.inr ⟨hq, hd⟩
    · rintro (rfl | hq)
      · exact ⟨Or.inl rfl, hdead⟩
      · exact ⟨Or.inr hq.1, hq.2⟩
  · intro q hq
    rw [htotal]
    by_cases heq : q = o
    · subst heq
      rw [Multiset.count_cons_self, Multiset.count_eq_zero_of_notMem hnone]
      simp only [Heap.create, Function.update_self]
      rfl
    · have hold : h.Alive q := ⟨(List.mem_cons.mp hq.1).resolve_left heq, hq.2⟩
      rw [Multiset.count_cons_of_ne heq, ← hs.count q hold]
      simp only [Heap.create, Function.update_of_ne heq]

theorem Sound.retain (hs : Sound h outer) (ho : h.Alive o)
    (hroom : (outer + h.inner).count o + 1 < 2 ^ 32) : Sound (h.retain o) (o ::ₘ outer) := by
  have hinner : (h.retain o).inner = h.inner := rfl
  constructor
  · rw [Heap.retain, hs.fault, decide_eq_true ho]
    rfl
  · exact hs.created
  · exact hs.destroyed
  · exact hs.destroyed_sub
  · intro q
    rw [hinner, Multiset.cons_add, Multiset.mem_cons]
    refine (hs.alive q).trans ⟨Or.inr, ?_⟩
    rintro (rfl | hq)
    · exact (hs.alive q).mp ho
    · exact hq
  · intro q hq
    rw [hinner, Multiset.cons_add]
    by_cases heq : q = o
    · subst heq
      have hone : (h.retain q).count q = h.count q + 1 := Function.update_self ..
      have hold := hs.count q ho
      rw [Multiset.count_cons_self, hone, UInt32.toNat_add, UInt32.toNat_one, hold,
        Nat.mod_eq_of_lt hroom]
    · have hsame : (h.retain o).count q = h.count q := Function.update_of_ne heq _ _
      rw [Multiset.count_cons_of_ne heq, hsame]
      exact hs.count q hq

theorem Sound.count_cons (hs : Sound h (o ::ₘ outer)) :
    h.Alive o ∧ (h.count o - 1).toNat = (outer + h.inner).count o := by
  have ho : h.Alive o :=
    (hs.alive o).mpr (Multiset.mem_add.mpr (Or.inl (Multiset.mem_cons_self _ _)))
  have hcount : (h.count o).toNat = (outer + h.inner).count o + 1 := by
    rw [hs.count o ho, Multiset.cons_add, Multiset.count_cons_self]
  have hpos : (1 : UInt32) ≤ h.count o := by
    rw [UInt32.le_iff_toNat_le, hcount]
    exact Nat.le_add_left _ _
  refine ⟨ho, ?_⟩
  rw [UInt32.toNat_sub_of_le _ _ hpos, hcount]
  rfl

/-- The members of a destroyed object are outside now. -/
theorem Sound.total_release (hs : Sound h (o ::ₘ outer)) :
    ↑(h.release o).2 + outer + (h.release o).1.inner = outer + h.inner := by
  rw [Heap.release]
  split
  · have hlive := live_nodup hs.created
    have hrest : (h.live.erase o) = h.created.filter fun q => decide (q ∉ h.destroyed ++ [o]) := by
      rw [hlive.erase_eq_filter, live, List.filter_filter]
      apply List.filter_congr
      intro q _
      by_cases heq : q = o <;> simp [heq]
    rw [inner_eq_of_mem (mem_live.mpr hs.count_cons.1), hrest, add_left_comm, ← add_assoc]
    rfl
  · rw [Multiset.coe_nil, zero_add]
    rfl

/-- A release destroys at most. -/
theorem release_fewer (h : Heap ι) (o : ι) :
    (h.release o).1.created = h.created ∧ (h.release o).1.members = h.members ∧
      ∀ q, (h.release o).1.Alive q → h.Alive q := by
  rw [Heap.release]
  split
  · exact ⟨rfl, rfl, fun _ hq => ⟨hq.1, fun hd => hq.2 (List.mem_append_left _ hd)⟩⟩
  · exact ⟨rfl, rfl, fun _ hq => hq⟩

theorem Sound.release (hs : Sound h (o ::ₘ outer)) :
    Sound (h.release o).1 (↑(h.release o).2 + outer) := by
  have htotal := hs.total_release
  obtain ⟨ho, hless⟩ := hs.count_cons
  have hfault : (h.fault || !decide (h.Alive o)) = false := by
    rw [hs.fault, decide_eq_true ho]
    rfl
  have hsame : ∀ q, q ≠ o → (h.release o).1.count q = h.count q := by
    intro q hq
    rw [Heap.release]
    split <;> exact Function.update_of_ne hq _ _
  have hold : ∀ q, q ≠ o → h.Alive q → (h.count q).toNat = (outer + h.inner).count q := by
    intro q hq halive
    rw [hs.count q halive, Multiset.cons_add, Multiset.count_cons_of_ne hq]
  by_cases hzero : h.count o - 1 = 0
  · -- the last reference: the destructor runs
    have hdestroyed : (h.release o).1.destroyed = h.destroyed ++ [o] := by
      rw [Heap.release, if_pos hzero]
    have hcreated := (release_fewer h o).1
    have hnone : o ∉ outer + h.inner := by
      rw [← Multiset.count_eq_zero, ← hless, hzero]
      rfl
    have halive : ∀ q, (h.release o).1.Alive q ↔ h.Alive q ∧ q ≠ o := by
      intro q
      simp only [Alive, hcreated, hdestroyed, List.mem_append, List.mem_singleton, not_or,
        and_assoc]
    constructor
    · rw [Heap.release, if_pos hzero]
      exact hfault
    · rw [hcreated]
      exact hs.created
    · rw [hdestroyed]
      refine List.nodup_append'.mpr ⟨hs.destroyed, List.nodup_singleton o, ?_⟩
      exact List.disjoint_singleton.mpr ho.2
    · intro q hq
      rw [hdestroyed] at hq
      rw [hcreated]
      rcases List.mem_append.mp hq with hq | hq
      · exact hs.destroyed_sub q hq
      · exact List.mem_singleton.mp hq ▸ ho.1
    · intro q
      rw [htotal, halive, hs.alive q, Multiset.cons_add, Multiset.mem_cons]
      constructor
      · exact fun hq => hq.1.resolve_left hq.2
      · exact fun hq => ⟨Or.inr hq, fun heq => hnone (heq ▸ hq)⟩
    · intro q hq
      obtain ⟨hthere, hne⟩ := (halive q).mp hq
      rw [htotal, hsame q hne, hold q hne hthere]
  · have hstill : o ∈ outer + h.inner := by
      rw [← Multiset.one_le_count_iff_mem, ← hless]
      refine Nat.one_le_iff_ne_zero.mpr fun hnone => hzero ?_
      exact UInt32.toNat_inj.mp hnone
    have halive : ∀ q, (h.release o).1.Alive q ↔ h.Alive q := by
      intro q
      rw [Heap.release, if_neg hzero]
      rfl
    constructor
    · rw [Heap.release, if_neg hzero]
      exact hfault
    · rw [Heap.release, if_neg hzero]
      exact hs.created
    · rw [Heap.release, if_neg hzero]
      exact hs.destroyed
    · rw [Heap.release, if_neg hzero]
      exact hs.destroyed_sub
    · intro q
      rw [htotal, halive, hs.alive q, Multiset.cons_add, Multiset.mem_cons]
      exact ⟨fun hq => hq.elim (fun heq => heq ▸ hstill) id, Or.inr⟩
    · intro q hq
      rw [htotal]
      by_cases heq : q = o
      · subst heq
        rw [Heap.release, if_neg hzero, ← hless]
        exact congrArg UInt32.toNat (Function.update_self ..)
      · rw [hsame q heq]
        exact hold q heq ((halive q).mp hq)

/-- An object without members gives up nothing. -/
theorem release_leaf (hleaf : h.members o = []) : (h.release o).2 = [] := by
  rw [Heap.release]
  split
  · exact hleaf
  · rfl

theorem inner_leaves (hleaves : ∀ o, h.members o = []) : h.inner = 0 := by
  rw [inner, List.flatMap_eq_nil_iff.mpr fun o _ => hleaves o]
  rfl

theorem access_eq {os : List ι} (hos : ∀ o ∈ os, h.Alive o) : h.access os = h := by
  simp only [access, decide_eq_true hos, Bool.not_true, Bool.or_false]

/-- The members of `p` are `ms` now. -/
theorem inner_update (hs : Sound h outer) (hp : h.Alive p) (ms : List ι) {h' : Heap ι}
    (hmembers : h'.members = Function.update h.members p ms) (hlive : h'.live = h.live) :
    ↑(h.members p) + h'.inner = ↑ms + h.inner := by
  have hnodup := live_nodup hs.created
  have hmem := mem_live.mpr hp
  have hnew : h'.inner = ↑ms + ↑((h.live.erase p).flatMap h.members) := by
    have hnodup' : h'.live.Nodup := hlive ▸ hnodup
    rw [inner_eq_of_mem (hlive ▸ hmem), hlive, hmembers, Function.update_self,
      flatMap_update hnodup]
  rw [hnew, inner_eq_of_mem hmem, add_left_comm]

theorem Sound.give (hs : Sound h (o ::ₘ outer)) (hp : h.Alive p) : Sound (h.give p o) outer := by
  have hinner : ↑(h.members p) + (h.give p o).inner = ↑(o :: h.members p) + h.inner :=
    inner_update hs hp (o :: h.members p) rfl rfl
  refine hs.moved rfl rfl rfl ?_ ?_
  · rw [Heap.give, hs.fault, decide_eq_true hp]
    rfl
  · rw [← Multiset.cons_coe, Multiset.cons_add, ← Multiset.add_cons] at hinner
    rw [add_left_cancel hinner, Multiset.add_cons, Multiset.cons_add]

theorem Sound.take (hs : Sound h outer) (hp : h.Alive p) (ho : o ∈ h.members p) :
    Sound (h.take p o) (o ::ₘ outer) := by
  have hinner : ↑(h.members p) + (h.take p o).inner = ↑((h.members p).erase o) + h.inner :=
    inner_update hs hp ((h.members p).erase o) rfl rfl
  refine hs.moved rfl rfl rfl ?_ ?_
  · rw [Heap.take, hs.fault, decide_eq_true hp]
    rfl
  · have hmembers : (↑(h.members p) : Multiset ι) = o ::ₘ ↑((h.members p).erase o) := by
      rw [Multiset.cons_coe]
      exact Multiset.coe_eq_coe.mpr (List.perm_cons_erase ho)
    rw [hmembers, Multiset.cons_add, ← Multiset.add_cons] at hinner
    rw [Multiset.cons_add, ← Multiset.add_cons, add_left_cancel hinner]

/-! ### What remains -/

/-- **Without references from outside nothing remains**, unless the objects that remain hold each
    other in a circle. -/
theorem Sound.nothing_left (hs : Sound h 0) {rank : ι → Nat}
    (hrank : ∀ p, h.Alive p → ∀ o ∈ h.members p, rank o < rank p) : h.destroyed.Perm h.created := by
  refine (List.perm_ext_iff_of_nodup hs.destroyed hs.created).mpr fun o => ⟨hs.destroyed_sub o, ?_⟩
  intro ho
  by_contra hd
  -- an object that is there is held by one of a higher rank, without end
  have hclimb : ∀ n o, h.Alive o → ∃ p, h.Alive p ∧ n ≤ rank p := by
    intro n
    induction n with
    | zero => exact fun o ho => ⟨o, ho, Nat.zero_le _⟩
    | succ n ih =>
      intro o ho
      obtain ⟨p, hp, hn⟩ := ih o ho
      have hmem := (hs.alive p).mp hp
      rw [zero_add] at hmem
      obtain ⟨q, hq, hpq⟩ := mem_inner.mp hmem
      exact ⟨q, hq, Nat.lt_of_le_of_lt hn (hrank q hq p hpq)⟩
  obtain ⟨p, hp, hhigh⟩ := hclimb ((h.created.map rank).sum + 1) o ⟨ho, hd⟩
  have hle : rank p ≤ (h.created.map rank).sum :=
    List.single_le_sum (fun _ _ => Nat.zero_le _) _ (List.mem_map_of_mem hp.1)
  omega

end Heap

end Jengine.Lib
