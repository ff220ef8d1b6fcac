import Jengine.Event.Dispatcher

/-!
# Closed objects are finalised once

The invariant of the dispatcher, on its lists and on the trace of what was done to the
objects: no callback of an object comes after its close, and a closed object is finalised
and released exactly once, in that order, before the dispatcher waits for events again.
-/

namespace Jengine.Event

open Jengine.Lib

namespace Dispatcher

variable {α : Type} [DecidableEq α]

/-! ### The invariant -/

/-- No callback of an object comes after its `Close`. -/
def Respected (trace : List (Act α)) : Prop :=
  ∀ xs a ys, trace = xs ++ a :: ys → ∀ o, a = .readable o ∨ a = .writeable o → .closed o ∉ xs

structure Orderly (s : Dispatcher α) : Prop where
  list_nodup : s.ioList.Nodup
  queue_nodup : s.closedIoList.Nodup
  queue_list : ∀ o ∈ s.closedIoList, o ∈ s.ioList
  queue_closed : ∀ o ∈ s.closedIoList, o ∈ s.closed
  /-- A closed object that is still in the list waits in the queue. -/
  waiting : ∀ o ∈ s.closed, o ∈ s.ioList → o ∈ s.closedIoList
  listed : ∀ o, o ∈ s.ioList ↔ .added o ∈ s.trace ∧ .released o ∉ s.trace
  once : ∀ o, s.trace.count (.added o) ≤ 1
  shut : ∀ o, o ∈ s.closed ↔ .closed o ∈ s.trace
  known : ∀ o ∈ s.closed, .added o ∈ s.trace
  /-- The object being finalised is at the front of the queue. -/
  front : ∀ cur, s.phase = .finalizing cur → ∃ rest, s.closedIoList = cur :: rest
  /-- An open object has had neither `OnEventIOClose` nor `Release`. -/
  untouched : ∀ o ∉ s.closed, .onClose o ∉ s.trace ∧ .released o ∉ s.trace
  /-- An object in the queue has had `OnEventIOClose` if it is the one being finalised. -/
  queued : ∀ o ∈ s.closedIoList, s.trace.count (.onClose o) = 1 ∧ s.phase = .finalizing o ∨
    .onClose o ∉ s.trace ∧ s.phase ≠ .finalizing o
  done : ∀ o ∈ s.closed, o ∉ s.ioList →
    s.trace.count (.onClose o) = 1 ∧ s.trace.count (.released o) = 1
  respected : Respected s.trace

omit [DecidableEq α] in
theorem Respected.snoc {trace : List (Act α)} (h : Respected trace) {a : Act α}
    (ha : ∀ o, a = .readable o ∨ a = .writeable o → .closed o ∉ trace) :
    Respected (trace ++ [a]) := by
  intro xs b ys heq o ho
  rcases List.eq_nil_or_concat ys with rfl | ⟨ys, c, rfl⟩
  · obtain ⟨rfl, hlast⟩ := List.append_inj' heq rfl
    cases hlast
    exact ha o ho
  · rw [List.concat_eq_append, ← List.cons_append, ← List.append_assoc] at heq
    obtain ⟨hinit, -⟩ := List.append_inj' heq rfl
    exact h xs b ys hinit o ho

theorem Orderly.of_phase {s : Dispatcher α} (h : Orderly s) {p : Phase α}
    (hold : ∀ o, s.phase ≠ .finalizing o) (hnew : ∀ o, p ≠ .finalizing o) :
    Orderly { s with phase := p } where
  list_nodup := h.list_nodup
  queue_nodup := h.queue_nodup
  queue_list := h.queue_list
  queue_closed := h.queue_closed
  waiting := h.waiting
  listed := h.listed
  once := h.once
  shut := h.shut
  known := h.known
  front := fun cur hcur => absurd hcur (hnew cur)
  untouched := h.untouched
  queued := fun o ho => by
    rcases h.queued o ho with ⟨-, hphase⟩ | ⟨hnone, -⟩
    · exact absurd hphase (hold o)
    · exact Or.inr ⟨hnone, hnew o⟩
  done := h.done
  respected := h.respected

theorem count_snoc_of_ne {trace : List (Act α)} {a b : Act α} (h : b ≠ a) :
    (trace ++ [b]).count a = trace.count a := by
  rw [List.count_append, List.count_singleton, if_neg (by simpa using h), Nat.add_zero]

omit [DecidableEq α] in
theorem mem_snoc_of_ne {trace : List (Act α)} {a b : Act α} (h : b ≠ a) :
    a ∈ trace ++ [b] ↔ a ∈ trace := by
  rw [List.mem_append, List.mem_singleton]
  constructor
  · rintro (hmem | heq)
    · exact hmem
    · exact absurd heq.symm h
  · exact Or.inl

/-- A callback of an open object leaves no other trace. -/
theorem Orderly.deliver {s : Dispatcher α} (h : Orderly s) {o : α} (hopen : o ∉ s.closed)
    {a : Act α} (ha : a = .readable o ∨ a = .writeable o) :
    Orderly { s with trace := s.trace ++ [a] } := by
  have hne : ∀ b : Act α, (∀ x, b ≠ .readable x) → (∀ x, b ≠ .writeable x) → a ≠ b := by
    rintro b h1 h2 rfl
    rcases ha with rfl | rfl
    · exact h1 o rfl
    · exact h2 o rfl
  have hadded : ∀ x, a ≠ .added x := fun x => hne _ (fun _ => by simp) (fun _ => by simp)
  have hclosed : ∀ x, a ≠ .closed x := fun x => hne _ (fun _ => by simp) (fun _ => by simp)
  have hcall : ∀ x, a ≠ .onClose x := fun x => hne _ (fun _ => by simp) (fun _ => by simp)
  have hreleased : ∀ x, a ≠ .released x := fun x => hne _ (fun _ => by simp) (fun _ => by simp)
  refine ⟨h.list_nodup, h.queue_nodup, h.queue_list, h.queue_closed, h.waiting, ?_, ?_, ?_, ?_,
    h.front, ?_, ?_, ?_, ?_⟩
  · intro x
    rw [mem_snoc_of_ne (hadded x), mem_snoc_of_ne (hreleased x)]
    exact h.listed x
  · intro x
    rw [count_snoc_of_ne (hadded x)]
    exact h.once x
  · intro x
    rw [mem_snoc_of_ne (hclosed x)]
    exact h.shut x
  · intro x hx
    rw [mem_snoc_of_ne (hadded x)]
    exact h.known x hx
  · intro x hx
    rw [mem_snoc_of_ne (hcall x), mem_snoc_of_ne (hreleased x)]
    exact h.untouched x hx
  · intro x hx
    rw [count_snoc_of_ne (hcall x), mem_snoc_of_ne (hcall x)]
    exact h.queued x hx
  · intro x hx hout
    rw [count_snoc_of_ne (hcall x), count_snoc_of_ne (hreleased x)]
    exact h.done x hx hout
  · apply h.respected.snoc
    intro x hx
    have hsame : x = o := by
      rcases hx with rfl | rfl
      · rcases ha with ha | ha <;> cases ha
        rfl
      · rcases ha with ha | ha <;> cases ha
        rfl
    rw [hsame, ← h.shut]
    exact hopen

theorem Orderly.add {s : Dispatcher α} (h : Orderly s) {o : α} (ho : .added o ∉ s.trace) :
    Orderly (s.add o) := by
  have hnew : o ∉ s.ioList := fun hmem => ho ((h.listed o).mp hmem).1
  have hopen : o ∉ s.closed := fun hmem => ho (h.known o hmem)
  have hother : ∀ x, x ≠ o → Act.added o ≠ .added x := by
    rintro x hne heq
    cases heq
    exact hne rfl
  refine ⟨List.nodup_cons.mpr ⟨hnew, h.list_nodup⟩, h.queue_nodup,
    fun x hx => List.mem_cons_of_mem o (h.queue_list x hx), h.queue_closed, ?_, ?_, ?_, ?_, ?_,
    h.front, ?_, ?_, ?_, ?_⟩
  · intro x hx hin
    rcases List.mem_cons.mp hin with rfl | hin
    · exact absurd hx hopen
    · exact h.waiting x hx hin
  · intro x
    show x ∈ o :: s.ioList ↔
      Act.added x ∈ s.trace ++ [.added o] ∧ Act.released x ∉ s.trace ++ [.added o]
    rw [mem_snoc_of_ne (a := .released x) (by simp)]
    by_cases hx : x = o
    · subst hx
      simp [(h.untouched x hopen).2]
    · rw [mem_snoc_of_ne (hother x hx), List.mem_cons]
      simp only [hx, false_or]
      exact h.listed x
  · intro x
    show (s.trace ++ [Act.added o]).count (.added x) ≤ 1
    by_cases hx : x = o
    · subst hx
      apply Nat.le_of_eq
      rw [List.count_append, List.count_eq_zero_of_not_mem ho, List.count_singleton_self]
    · rw [count_snoc_of_ne (hother x hx)]
      exact h.once x
  · intro x
    rw [show (s.add o).trace = s.trace ++ [.added o] from rfl, mem_snoc_of_ne (by simp)]
    exact h.shut x
  · exact fun x hx => List.mem_append_left _ (h.known x hx)
  · intro x hx
    rw [show (s.add o).trace = s.trace ++ [.added o] from rfl, mem_snoc_of_ne (by simp),
      mem_snoc_of_ne (by simp)]
    exact h.untouched x hx
  · intro x hx
    rw [show (s.add o).trace = s.trace ++ [.added o] from rfl, count_snoc_of_ne (by simp),
      mem_snoc_of_ne (by simp)]
    exact h.queued x hx
  · intro x hx hout
    rw [show (s.add o).trace = s.trace ++ [.added o] from rfl, count_snoc_of_ne (by simp),
      count_snoc_of_ne (by simp)]
    exact h.done x hx fun hin => hout (List.mem_cons_of_mem o hin)
  · exact h.respected.snoc fun x hx => by rcases hx with hx | hx <;> cases hx

theorem Orderly.close {s : Dispatcher α} (h : Orderly s) {o : α} (hopen : o ∉ s.closed)
    (hin : o ∈ s.ioList) :
    Orderly { s with
      closedIoList := s.closedIoList ++ [o]
      closed := o :: s.closed
      trace := s.trace ++ [.closed o] } := by
  have hout : o ∉ s.closedIoList := fun hmem => hopen (h.queue_closed o hmem)
  obtain ⟨hcall, hrelease⟩ := h.untouched o hopen
  refine ⟨h.list_nodup, ?_, ?_, ?_, ?_, ?_, ?_, ?_, ?_, ?_, ?_, ?_, ?_, ?_⟩
  · rw [List.nodup_append]
    refine ⟨h.queue_nodup, List.nodup_singleton o, ?_⟩
    rintro x hx y hy rfl
    rw [List.mem_singleton] at hy
    exact hout (hy ▸ hx)
  · intro x hx
    rcases List.mem_append.mp hx with hx | hx
    · exact h.queue_list x hx
    · rw [List.mem_singleton.mp hx]
      exact hin
  · intro x hx
    rcases List.mem_append.mp hx with hx | hx
    · exact List.mem_cons_of_mem o (h.queue_closed x hx)
    · rw [List.mem_singleton.mp hx]
      exact List.mem_cons_self
  · intro x hx hlist
    rcases List.mem_cons.mp hx with rfl | hx
    · exact List.mem_append_right _ List.mem_cons_self
    · exact List.mem_append_left _ (h.waiting x hx hlist)
  · intro x
    rw [mem_snoc_of_ne (by simp), mem_snoc_of_ne (by simp)]
    exact h.listed x
  · intro x
    rw [count_snoc_of_ne (by simp)]
    exact h.once x
  · intro x
    rw [List.mem_cons, List.mem_append, List.mem_singleton, h.shut x, Act.closed.injEq]
    exact or_comm
  · intro x hx
    apply List.mem_append_left
    rcases List.mem_cons.mp hx with rfl | hx
    · exact ((h.listed x).mp hin).1
    · exact h.known x hx
  · intro cur hcur
    obtain ⟨rest, hrest⟩ := h.front cur hcur
    exact ⟨rest ++ [o], by rw [hrest, List.cons_append]⟩
  · intro x hx
    rw [mem_snoc_of_ne (by simp), mem_snoc_of_ne (by simp)]
    exact h.untouched x fun hmem => hx (List.mem_cons_of_mem o hmem)
  · intro x hx
    rw [count_snoc_of_ne (by simp), mem_snoc_of_ne (by simp)]
    rcases List.mem_append.mp hx with hx | hx
    · exact h.queued x hx
    · rw [List.mem_singleton.mp hx]
      refine Or.inr ⟨hcall, fun hphase => ?_⟩
      obtain ⟨rest, hrest⟩ := h.front o hphase
      exact hout (hrest ▸ List.mem_cons_self)
  · intro x hx hlist
    rw [count_snoc_of_ne (by simp), count_snoc_of_ne (by simp)]
    rcases List.mem_cons.mp hx with rfl | hx
    · exact absurd hin hlist
    · exact h.done x hx hlist
  · exact h.respected.snoc fun x hx => by rcases hx with hx | hx <;> cases hx

/-- `cur->OnEventIOClose()` for the front of the queue. -/
theorem Orderly.call {s : Dispatcher α} (h : Orderly s) {cur : α} {rest : List α}
    (hphase : ∀ o, s.phase ≠ .finalizing o) (hqueue : s.closedIoList = cur :: rest) :
    Orderly { s with phase := .finalizing cur, trace := s.trace ++ [.onClose cur] } := by
  have hcur : cur ∈ s.closedIoList := hqueue ▸ List.mem_cons_self
  have hnone : ∀ o ∈ s.closedIoList, Act.onClose o ∉ s.trace := by
    intro o ho
    rcases h.queued o ho with ⟨-, hfin⟩ | ⟨hnone, -⟩
    · exact absurd hfin (hphase o)
    · exact hnone
  have hother : ∀ x, x ≠ cur → Act.onClose cur ≠ .onClose x := by
    rintro x hne heq
    cases heq
    exact hne rfl
  refine ⟨h.list_nodup, h.queue_nodup, h.queue_list, h.queue_closed, h.waiting, ?_, ?_, ?_, ?_,
    ?_, ?_, ?_, ?_, ?_⟩
  · intro x
    rw [mem_snoc_of_ne (by simp), mem_snoc_of_ne (by simp)]
    exact h.listed x
  · intro x
    rw [count_snoc_of_ne (by simp)]
    exact h.once x
  · intro x
    rw [mem_snoc_of_ne (by simp)]
    exact h.shut x
  · exact fun x hx => List.mem_append_left _ (h.known x hx)
  · rintro x hx
    cases hx
    exact ⟨rest, hqueue⟩
  · intro x hx
    have hne : x ≠ cur := by
      rintro rfl
      exact hx (h.queue_closed x hcur)
    rw [mem_snoc_of_ne (hother x hne), mem_snoc_of_ne (by simp)]
    exact h.untouched x hx
  · intro x hx
    by_cases hxc : x = cur
    · subst hxc
      refine Or.inl ⟨?_, rfl⟩
      rw [List.count_append, List.count_eq_zero_of_not_mem (hnone x hx),
        List.count_singleton_self]
    · refine Or.inr ⟨?_, fun heq => ?_⟩
      · rw [mem_snoc_of_ne (hother x hxc)]
        exact hnone x hx
      · cases heq
        exact hxc rfl
  · intro x hx hlist
    have hne : x ≠ cur := by
      rintro rfl
      exact hlist (h.queue_list x hcur)
    rw [count_snoc_of_ne (hother x hne), count_snoc_of_ne (by simp)]
    exact h.done x hx hlist
  · exact h.respected.snoc fun x hx => by rcases hx with hx | hx <;> cases hx

/-- `io_list_.erase(cur)`, `cur->Release()` and `closed_io_list_.pop()`. -/
theorem Orderly.release {s : Dispatcher α} (h : Orderly s) {cur : α}
    (hphase : s.phase = .finalizing cur) :
    Orderly { s with
      phase := .draining
      ioList := s.ioList.erase cur
      closedIoList := s.closedIoList.tail
      trace := s.trace ++ [.released cur] } := by
  obtain ⟨rest, hqueue⟩ := h.front cur hphase
  have hcur : cur ∈ s.closedIoList := hqueue ▸ List.mem_cons_self
  have hlist : cur ∈ s.ioList := h.queue_list cur hcur
  have hnodup := h.queue_nodup
  rw [hqueue, List.nodup_cons] at hnodup
  have htail : ∀ o ∈ s.closedIoList.tail, o ∈ s.closedIoList ∧ o ≠ cur := by
    intro o ho
    refine ⟨List.mem_of_mem_tail ho, ?_⟩
    rintro rfl
    rw [hqueue] at ho
    exact hnodup.1 ho
  have hother : ∀ x, x ≠ cur → Act.released cur ≠ .released x := by
    rintro x hne heq
    cases heq
    exact hne rfl
  refine ⟨h.list_nodup.erase cur, hqueue ▸ hnodup.2, ?_,
    fun x hx => h.queue_closed x (htail x hx).1, ?_, ?_, ?_, ?_, ?_, ?_, ?_, ?_, ?_, ?_⟩
  · intro x hx
    exact (List.mem_erase_of_ne (htail x hx).2).mpr (h.queue_list x (htail x hx).1)
  · intro x hx hin
    obtain ⟨hne, hin⟩ := h.list_nodup.mem_erase_iff.mp hin
    have hmem := h.waiting x hx hin
    rw [hqueue] at hmem ⊢
    exact (List.mem_cons.mp hmem).resolve_left hne
  · intro x
    rw [h.list_nodup.mem_erase_iff, mem_snoc_of_ne (a := .added x) (by simp)]
    by_cases hx : x = cur
    · subst hx
      simp
    · rw [mem_snoc_of_ne (hother x hx)]
      simp only [hx, ne_eq, not_false_eq_true, true_and]
      exact h.listed x
  · intro x
    rw [count_snoc_of_ne (by simp)]
    exact h.once x
  · intro x
    rw [mem_snoc_of_ne (by simp)]
    exact h.shut x
  · exact fun x hx => List.mem_append_left _ (h.known x hx)
  · exact fun x hx => by cases hx
  · intro x hx
    have hne : x ≠ cur := by
      rintro rfl
      exact hx (h.queue_closed x hcur)
    rw [mem_snoc_of_ne (by simp), mem_snoc_of_ne (hother x hne)]
    exact h.untouched x hx
  · intro x hx
    obtain ⟨hmem, hne⟩ := htail x hx
    refine Or.inr ⟨?_, by simp⟩
    rw [mem_snoc_of_ne (by simp)]
    rcases h.queued x hmem with ⟨-, hfin⟩ | ⟨hnone, -⟩
    · rw [hphase] at hfin
      cases hfin
      exact absurd rfl hne
    · exact hnone
  · intro x hx hout
    rw [count_snoc_of_ne (by simp)]
    by_cases hxc : x = cur
    · subst hxc
      rcases h.queued x hcur with ⟨hone, -⟩ | ⟨-, hnot⟩
      · refine ⟨hone, ?_⟩
        rw [List.count_append, List.count_eq_zero_of_not_mem ((h.listed x).mp hlist).2,
          List.count_singleton_self]
      · exact absurd hphase hnot
    · rw [count_snoc_of_ne (hother x hxc)]
      exact h.done x hx fun hin => hout ((List.mem_erase_of_ne hxc).mpr hin)
  · exact h.respected.snoc fun x hx => by rcases hx with hx | hx <;> cases hx

theorem orderly_start : Orderly (start : Dispatcher α) where
  list_nodup := List.nodup_nil
  queue_nodup := List.nodup_nil
  queue_list := fun _ ho => absurd ho List.not_mem_nil
  queue_closed := fun _ ho => absurd ho List.not_mem_nil
  waiting := fun _ ho => absurd ho List.not_mem_nil
  listed := fun _ => by simp [start]
  once := fun _ => by simp [start]
  shut := fun _ => by simp [start]
  known := fun _ ho => absurd ho List.not_mem_nil
  front := fun _ hcur => by cases hcur
  untouched := fun _ _ => by simp [start]
  queued := fun _ ho => absurd ho List.not_mem_nil
  done := fun _ ho => absurd ho List.not_mem_nil
  respected := fun xs a ys heq => by simp [start] at heq

theorem Orderly.next {s : Dispatcher α} (h : Orderly s) : Orderly s.next := by
  unfold Dispatcher.next
  split
  next => exact h
  next hphase => exact h.of_phase (by simp [hphase]) (by simp)
  next e batch hphase =>
    have hmoved : Orderly { s with phase := .between e batch } :=
      h.of_phase (by simp [hphase]) (by simp)
    split_ifs with hcase
    · exact hmoved.deliver hcase.1 (Or.inl rfl)
    · exact hmoved
  next e batch hphase =>
    have hmoved : Orderly { s with phase := .handling batch } :=
      h.of_phase (by simp [hphase]) (by simp)
    split_ifs with hcase
    · exact hmoved.deliver hcase.1 (Or.inr rfl)
    · exact hmoved
  next hphase =>
    split
    next => exact h.of_phase (by simp [hphase]) (by simp)
    next cur rest hqueue => exact h.call (by simp [hphase]) hqueue
  next cur hphase => exact h.release hphase

/-- What finalising an object takes out of the list. -/
theorem Orderly.next_finalizing {s : Dispatcher α} (h : Orderly s) {cur : α}
    (hphase : s.phase = .finalizing cur) :
    (∀ x, x ∈ s.next.ioList ↔ x ≠ cur ∧ x ∈ s.ioList) ∧ s.next.phase = .draining ∧
      s.next.closed = s.closed ∧ ∀ x, .added x ∈ s.next.trace ↔ .added x ∈ s.trace := by
  unfold Dispatcher.next
  rw [hphase]
  exact ⟨fun x => h.list_nodup.mem_erase_iff, rfl, rfl, fun x => mem_snoc_of_ne (by simp)⟩

theorem Orderly.step {s : Dispatcher α} (h : Orderly s) (a : Action α) (ha : s.Once a) :
    Orderly (s.step a) := by
  cases a with
  | add o => exact h.add ha
  | close o =>
      show Orderly (s.close o)
      unfold Dispatcher.close
      split_ifs with hcase
      · exact h.close hcase.1 hcase.2
      · exact h
  | wait batch =>
      simp only [Dispatcher.step]
      split
      next hphase => exact h.of_phase (by simp [hphase]) (by simp)
      next => exact h
  | next => exact h.next

/-! ### Every close is finalised -/

def Action.isNext : Action α → Bool
  | .next => true
  | _ => false

/-- How many steps the dispatcher takes, once `epoll_wait` has returned, until it
    has finalised an object of its queue. -/
def left (s : Dispatcher α) (o : α) : Nat :=
  match s.phase with
  | .frame => 0
  | .handling batch => 2 * batch.length + 1 + 2 * (s.closedIoList.idxOf o + 1)
  | .between _ batch => 2 * batch.length + 2 + 2 * (s.closedIoList.idxOf o + 1)
  | .draining => 2 * (s.closedIoList.idxOf o + 1)
  | .finalizing _ => 2 * s.closedIoList.idxOf o + 1

/-- An object in the queue is either finalised by a step or comes nearer to it. -/
theorem next_left {s : Dispatcher α} (h : Orderly s) {o : α} (ho : o ∈ s.closedIoList)
    (hphase : s.phase ≠ .frame) :
    o ∉ s.next.closedIoList ∨ o ∈ s.next.closedIoList ∧ s.next.phase ≠ .frame ∧
      s.next.left o + 1 = s.left o := by
  unfold Dispatcher.next
  split
  next hframe => exact absurd hframe hphase
  next hcur =>
    refine Or.inr ⟨ho, by simp, ?_⟩
    simp only [left, hcur, List.length_nil]
    omega
  next e batch hcur =>
    refine Or.inr ?_
    split_ifs with hcase
    · refine ⟨ho, by simp, ?_⟩
      simp only [left, hcur, List.length_cons]
      omega
    · refine ⟨ho, by simp, ?_⟩
      simp only [left, hcur, List.length_cons]
      omega
  next e batch hcur =>
    refine Or.inr ?_
    split_ifs with hcase
    · refine ⟨ho, by simp, ?_⟩
      simp only [left, hcur]
      omega
    · refine ⟨ho, by simp, ?_⟩
      simp only [left, hcur]
      omega
  next hcur =>
    split
    next hnil =>
      rw [hnil] at ho
      exact absurd ho List.not_mem_nil
    next cur rest hqueue =>
      refine Or.inr ⟨ho, by simp, ?_⟩
      simp only [left, hcur]
      omega
  next cur hcur =>
    obtain ⟨rest, hqueue⟩ := h.front cur hcur
    have hnodup := h.queue_nodup
    rw [hqueue, List.nodup_cons] at hnodup
    rw [hqueue] at ho
    rcases List.mem_cons.mp ho with rfl | hrest
    · refine Or.inl ?_
      rw [hqueue]
      exact hnodup.1
    · have hne : cur ≠ o := by
        rintro rfl
        exact hnodup.1 hrest
      refine Or.inr ⟨by simpa [hqueue] using hrest, by simp, ?_⟩
      simp only [left, hcur, hqueue, List.tail_cons]
      rw [List.idxOf_cons_ne _ hne]

theorem close_left (s : Dispatcher α) (x : α) {o : α} (ho : o ∈ s.closedIoList) :
    o ∈ (s.close x).closedIoList ∧ (s.close x).phase = s.phase ∧
      (s.close x).left o = s.left o := by
  unfold Dispatcher.close
  split_ifs with hcase
  · refine ⟨List.mem_append_left _ ho, rfl, ?_⟩
    simp only [left]
    rw [List.idxOf_append_of_mem ho]
  · exact ⟨ho, rfl, rfl⟩

theorem step_closed {s : Dispatcher α} {o : α} (a : Action α) (hc : o ∈ s.closed) :
    o ∈ (s.step a).closed := by
  cases a with
  | add x => exact hc
  | close x =>
      show o ∈ (s.close x).closed
      unfold Dispatcher.close
      split_ifs with hcase
      · exact List.mem_cons_of_mem x hc
      · exact hc
  | wait batch =>
      simp only [step]
      split <;> exact hc
  | next =>
      show o ∈ s.next.closed
      unfold Dispatcher.next
      split
      · exact hc
      · exact hc
      · split_ifs <;> exact hc
      · split_ifs <;> exact hc
      · split <;> exact hc
      · exact hc

/-- What has left the queue never comes back to it. -/
theorem step_stays {s : Dispatcher α} {o : α} (a : Action α) (hc : o ∈ s.closed)
    (ho : o ∉ s.closedIoList) : o ∉ (s.step a).closedIoList := by
  cases a with
  | add x => exact ho
  | close x =>
      show o ∉ (s.close x).closedIoList
      unfold Dispatcher.close
      split_ifs with hcase
      · intro hmem
        rcases List.mem_append.mp hmem with hmem | hmem
        · exact ho hmem
        · rw [List.mem_singleton.mp hmem] at hc
          exact hcase.1 hc
      · exact ho
  | wait batch =>
      simp only [step]
      split <;> exact ho
  | next =>
      show o ∉ s.next.closedIoList
      unfold Dispatcher.next
      split
      · exact ho
      · exact ho
      · split_ifs <;> exact ho
      · split_ifs <;> exact ho
      · split <;> exact ho
      · exact fun hmem => ho (List.mem_of_mem_tail hmem)

/-- The same for any action: only the dispatcher's own steps count. -/
theorem step_left {s : Dispatcher α} (h : Orderly s) {o : α} (ho : o ∈ s.closedIoList)
    (hphase : s.phase ≠ .frame) (a : Action α) :
    o ∉ (s.step a).closedIoList ∨ o ∈ (s.step a).closedIoList ∧ (s.step a).phase ≠ .frame ∧
      (s.step a).left o + (if a.isNext then 1 else 0) = s.left o := by
  cases a with
  | add x => exact Or.inr ⟨ho, hphase, rfl⟩
  | close x =>
      obtain ⟨hmem, hsame, hleft⟩ := s.close_left x ho
      exact Or.inr ⟨hmem, hsame ▸ hphase, hleft⟩
  | wait batch =>
      have hstays : s.step (.wait batch) = s := by simp only [step]
      rw [hstays]
      exact Or.inr ⟨ho, hphase, rfl⟩
  | next => exact next_left h ho hphase

/-- Enough steps of the dispatcher finalise what is in the queue, whatever is added
    and closed meanwhile. -/
theorem run_left {s : Dispatcher α} {as : List (Action α)} (h : Orderly s)
    (has : Along step Once s as) {o : α} (hc : o ∈ s.closed)
    (hleft : o ∈ s.closedIoList → s.phase ≠ .frame ∧ s.left o ≤ as.countP Action.isNext) :
    o ∈ (run step s as).closed ∧ o ∉ (run step s as).closedIoList := by
  induction as generalizing s with
  | nil =>
      refine ⟨hc, fun ho => ?_⟩
      obtain ⟨hphase, hle⟩ := hleft ho
      rw [List.countP_nil] at hle
      revert hle
      simp only [left]
      split
      next hframe => exact absurd hframe hphase
      all_goals omega
  | cons a as ih =>
      apply ih (h.step a has.1) has.2 (step_closed a hc)
      intro ho
      by_cases hq : o ∈ s.closedIoList
      · obtain ⟨hphase, hle⟩ := hleft hq
        rcases step_left h hq hphase a with hout | ⟨-, hphase', hstep⟩
        · exact absurd ho hout
        · refine ⟨hphase', ?_⟩
          rw [List.countP_cons] at hle
          omega
      · exact absurd ho (step_stays a hc hq)

/-! ### Runs of the dispatcher -/

theorem Orderly.finalised {s : Dispatcher α} (h : Orderly s) {o : α} (hc : o ∈ s.closed)
    (ho : o ∉ s.closedIoList) :
    s.trace.count (.onClose o) = 1 ∧ s.trace.count (.released o) = 1 :=
  h.done o hc fun hin => ho (h.waiting o hc hin)

/-- Until an object is finalised it has had at most `OnEventIOClose`. -/
theorem Orderly.at_most_once {s : Dispatcher α} (h : Orderly s) (o : α) :
    s.trace.count (.onClose o) ≤ 1 ∧ s.trace.count (.released o) ≤ 1 := by
  by_cases hc : o ∈ s.closed
  · by_cases hq : o ∈ s.closedIoList
    · have hrelease : s.trace.count (.released o) = 0 :=
        List.count_eq_zero_of_not_mem ((h.listed o).mp (h.queue_list o hq)).2
      refine ⟨?_, by omega⟩
      rcases h.queued o hq with ⟨hone, -⟩ | ⟨hnone, -⟩
      · omega
      · rw [List.count_eq_zero_of_not_mem hnone]
        omega
    · obtain ⟨hcall, hrelease⟩ := h.finalised hc hq
      omega
  · obtain ⟨hcall, hrelease⟩ := h.untouched o hc
    rw [List.count_eq_zero_of_not_mem hcall, List.count_eq_zero_of_not_mem hrelease]
    omega

theorem Orderly.close_recorded {s : Dispatcher α} (h : Orderly s) {o : α} (ho : o ∈ s.ioList) :
    .closed o ∈ (s.step (.close o)).trace := by
  show .closed o ∈ (s.close o).trace
  unfold Dispatcher.close
  split_ifs with hcase
  · exact List.mem_append_right _ List.mem_cons_self
  · rw [← h.shut]
    by_contra hopen
    exact hcase ⟨hopen, ho⟩

/-- In every run in which no object is added twice: the queue holds no object twice
    and `io_list_` holds what was added and not finalised; a `Close` of an object in the
    list counts, a closed object has at most one `OnEventIOClose` and one `Release`, and
    exactly one of each as soon as it has left the queue, which takes the dispatcher
    boundedly many steps; an object never closed has none; and no readable or writeable
    callback comes after a `Close`. -/
theorem run_orderly (as : List (Action α)) (has : Along step Once (start : Dispatcher α) as) :
    let s := run step (start : Dispatcher α) as
    s.closedIoList.Nodup ∧
      (s.ioList.Nodup ∧ ∀ o, o ∈ s.ioList ↔ .added o ∈ s.trace ∧ .released o ∉ s.trace) ∧
      (∀ o ∈ s.ioList, .closed o ∈ (s.step (.close o)).trace) ∧
      (∀ o, .closed o ∉ s.trace → .onClose o ∉ s.trace ∧ .released o ∉ s.trace) ∧
      (∀ o, .closed o ∈ s.trace → s.trace.count (.added o) = 1 ∧
        s.trace.count (.onClose o) ≤ 1 ∧ s.trace.count (.released o) ≤ 1 ∧
        (o ∉ s.closedIoList →
          s.trace.count (.onClose o) = 1 ∧ s.trace.count (.released o) = 1)) ∧
      (∀ o bs, .closed o ∈ s.trace → s.phase ≠ .frame → Along step Once s bs →
        s.left o ≤ bs.countP Action.isNext →
        (run step s bs).trace.count (.onClose o) = 1 ∧
          (run step s bs).trace.count (.released o) = 1) ∧
      Respected s.trace := by
  intro s
  have h : Orderly s := run_invariant (fun t a ht ha => ht.step a ha) orderly_start has
  refine ⟨h.queue_nodup, ⟨h.list_nodup, h.listed⟩, fun o ho => h.close_recorded ho, ?_, ?_, ?_,
    h.respected⟩
  · intro o ho
    exact h.untouched o fun hc => ho ((h.shut o).mp hc)
  · intro o ho
    have hc : o ∈ s.closed := (h.shut o).mpr ho
    obtain ⟨hcall, hrelease⟩ := h.at_most_once o
    refine ⟨?_, hcall, hrelease, h.finalised hc⟩
    have hpos : 0 < s.trace.count (.added o) := List.count_pos_iff.mpr (h.known o hc)
    have hle := h.once o
    omega
  · intro o bs ho hphase hbs hleft
    have h' : Orderly (run step s bs) :=
      run_invariant (fun t a ht ha => ht.step a ha) h hbs
    obtain ⟨hc, hout⟩ := run_left h hbs ((h.shut o).mpr ho) fun _ => ⟨hphase, hleft⟩
    exact h'.finalised hc hout

/-- Two objects of one batch: the first callback closes the second object, then its own,
    and the second object once more. -/
def crossClose : List (Action Nat) :=
  [.add 1, .add 2, .wait [⟨1, true, true⟩, ⟨2, true, true⟩], .next, .close 2, .close 1, .close 2,
    .next, .next, .next, .next, .next, .next, .next]

theorem run_orderly_crossClose :
    Along step Once (start : Dispatcher Nat) crossClose ∧
      (run step (start : Dispatcher Nat) crossClose).trace =
        [.added 1, .added 2, .readable 1, .closed 2, .closed 1, .onClose 2, .released 2,
          .onClose 1] ∧
      (run step (start : Dispatcher Nat) crossClose).closedIoList.Nodup ∧
      (run step (start : Dispatcher Nat) crossClose).trace.count (.released 2) = 1 := by
  have has : Along step Once (start : Dispatcher Nat) crossClose := by decide
  obtain ⟨hqueue, -, -, -, hclosed, -, -⟩ := run_orderly crossClose has
  refine ⟨has, by decide, hqueue, ?_⟩
  exact ((hclosed 2 (by decide)).2.2.2 (by decide)).2

end Dispatcher

end Jengine.Event
