import Jengine.Runner.Lifecycle

/-!
# References to the queues

The invariant of the queues: the links of the manager's list spell a sequence, and the
count of a queue is the number of its holders, which are its runner and the list.  While a
reference is being released there is one more.
-/

namespace Jengine.Runner

open Jengine.Lib

/-- The queue that `Update` is at. -/
def Phase.cursor : Phase → Option Nat
  | .idle => none
  | .loop q => q
  | .inSetup q _ | .inExecute q _ | .inCleanup q _ => some q

namespace RunnerMgr

/-- One reference, to the queue that is held. -/
def heldRefs : Option Nat → Nat → Nat
  | none, _ => 0
  | some q, r => if q = r then 1 else 0

/-- The references to the queues; `held` is one more reference, which is about to be
    released. -/
structure Holds (s : RunnerMgr) (xs : List Nat) (held : Option Nat) : Prop where
  list : s.list.Represents xs
  refs : ∀ r, (s.queues r).referenceCount =
    (if s.life r = .alive then 1 else 0) + (if r ∈ xs then 1 else 0) + heldRefs held r
  linked : ∀ r, s.life r = .alive → (s.queues r).cmds ≠ [] → r ∈ xs
  gone : ∀ r, (s.queues r).referenceCount = 0 → (s.queues r).cmds = []
  unborn : ∀ r, s.life r = .unborn → r ∉ xs
  cursor : ∀ q, s.phase.cursor = some q → q ∈ xs

namespace Holds

variable {s t : RunnerMgr} {xs : List Nat} {held : Option Nat}

theorem congr (h : Holds s xs held) (hlist : t.list = s.list)
    (hrefs : ∀ r, (t.queues r).referenceCount = (s.queues r).referenceCount)
    (hlinked : ∀ r, s.life r = .alive → (t.queues r).cmds ≠ [] → r ∈ xs)
    (hgone : ∀ r, (s.queues r).referenceCount = 0 → (t.queues r).cmds = [])
    (hlife : t.life = s.life) (hcursor : ∀ q, t.phase.cursor = some q → q ∈ xs) :
    Holds t xs held where
  list := by
    rw [hlist]
    exact h.list
  refs r := by
    rw [hrefs, hlife]
    exact h.refs r
  linked r := by
    rw [hlife]
    exact hlinked r
  gone r := by
    rw [hrefs]
    exact hgone r
  unborn r := by
    rw [hlife]
    exact h.unborn r
  cursor := hcursor

/-- `Update` goes on, and the queues stay as they are. -/
theorem move (h : Holds s xs held) (hlist : t.list = s.list) (hqueues : t.queues = s.queues)
    (hlife : t.life = s.life) (hcursor : ∀ q, t.phase.cursor = some q → q ∈ xs) :
    Holds t xs held := by
  apply h.congr hlist _ _ _ hlife hcursor
  · rw [hqueues]
    exact fun r => rfl
  · rw [hqueues]
    exact h.linked
  · rw [hqueues]
    exact h.gone

theorem refs_ne_zero (h : Holds s xs held) {r : Nat} (hr : s.life r = .alive ∨ r ∈ xs) :
    (s.queues r).referenceCount ≠ 0 := by
  rw [h.refs]
  rcases hr with halive | hmem
  · rw [if_pos halive]
    omega
  · rw [if_pos hmem]
    omega

end Holds

/-- What `Release` leaves of the queues. -/
theorem release_eq (s : RunnerMgr) (q : Nat) :
    (s.release q).list = s.list ∧ (s.release q).life = s.life ∧ (s.release q).phase = s.phase ∧
      ∀ r, ((s.release q).queues r).referenceCount =
          (if r = q then (s.queues q).referenceCount - 1 else (s.queues r).referenceCount) ∧
        ((s.release q).queues r).cmds =
          (if r = q ∧ (s.queues q).referenceCount - 1 = 0 then [] else (s.queues r).cmds) := by
  rw [release]
  split
  · rename_i hzero
    rw [destroyQueue]
    obtain ⟨commands, heq, -⟩ := foldl_deleteCommand
      ((s.setQueue q { s.queues q with
        referenceCount := (s.queues q).referenceCount - 1 }).queues q).cmds
      ((s.setQueue q { s.queues q with
        referenceCount := (s.queues q).referenceCount - 1 }).setQueue q
          { (s.setQueue q { s.queues q with
              referenceCount := (s.queues q).referenceCount - 1 }).queues q with cmds := [] })
    simp only [heq]
    refine ⟨rfl, rfl, rfl, fun r => ?_⟩
    by_cases hr : r = q
    · subst hr
      simp [setQueue, hzero]
    · simp [setQueue, hr]
  · rename_i hzero
    refine ⟨rfl, rfl, rfl, fun r => ?_⟩
    by_cases hr : r = q
    · subst hr
      simp [setQueue, hzero]
    · simp [setQueue, hr]

namespace Holds

variable {s : RunnerMgr} {xs : List Nat}

/-- The reference that is held is released. -/
theorem release {q : Nat} (h : Holds s xs (some q)) : Holds (s.release q) xs none := by
  obtain ⟨hlist, hlife, hphase, hqueues⟩ := release_eq s q
  constructor
  case list =>
      rw [hlist]
      exact h.list
  case refs =>
      intro r
      have hr := h.refs r
      rw [(hqueues r).1, hlife]
      by_cases heq : r = q
      · subst heq
        simp only [heldRefs, if_true] at hr ⊢
        rw [hr, Nat.add_sub_cancel, Nat.add_zero]
      · simp only [heldRefs, if_neg (Ne.symm heq)] at hr
        rw [if_neg heq, hr, heldRefs]
  case linked =>
      intro r halive hne
      rw [hlife] at halive
      rw [(hqueues r).2] at hne
      split at hne
      · exact absurd rfl hne
      · exact h.linked r halive hne
  case gone =>
      intro r hzero
      rw [(hqueues r).1] at hzero
      rw [(hqueues r).2]
      by_cases heq : r = q
      · rw [if_pos heq] at hzero
        rw [if_pos ⟨heq, hzero⟩]
      · rw [if_neg heq] at hzero
        rw [if_neg fun hand => heq hand.1]
        exact h.gone r hzero
  case unborn =>
      intro r
      rw [hlife]
      exact h.unborn r
  case cursor =>
      rw [hphase]
      exact h.cursor

/-- `Update` takes out a queue that has lost its runner or its commands. -/
theorem erase (h : Holds s xs none) {q : Nat} (hq : q ∈ xs)
    (hempty : s.life q = .alive → (s.queues q).cmds = []) :
    Holds { s with list := (s.list.erase q).1, phase := .loop (s.list.erase q).2 } (xs.erase q)
      (some q) := by
  obtain ⟨hlist, hnext⟩ := h.list.erase hq
  have hmem : ∀ r, r ∈ xs.erase q ↔ r ≠ q ∧ r ∈ xs := fun r => h.list.nodup.mem_erase_iff
  constructor
  case list => exact hlist
  case refs =>
      intro r
      have hr := h.refs r
      simp only [hr, hmem, heldRefs]
      by_cases heq : r = q
      · subst heq
        simp [hq]
      · simp [heq, Ne.symm heq]
  case linked =>
      intro r halive hne
      rw [hmem]
      refine ⟨?_, h.linked r halive hne⟩
      rintro rfl
      exact hne (hempty halive)
  case gone => exact h.gone
  case unborn => exact fun r hr hin => h.unborn r hr (List.mem_of_mem_erase hin)
  case cursor => exact hnext

/-- A queue is put into the list, if it is not there yet. -/
theorem register (h : Holds s xs none) {q : Nat} (halive : s.life q = .alive) :
    ∃ ys, Holds (s.register q) ys none ∧ q ∈ ys := by
  rw [RunnerMgr.register]
  split
  · rename_i hin
    exact ⟨xs, h, (h.list.mem_iff q).mp hin⟩
  · rename_i hout
    have hq : q ∉ xs := fun hmem => hout ((h.list.mem_iff q).mpr hmem)
    refine ⟨q :: xs, ?_, List.mem_cons_self⟩
    constructor
    case list => exact h.list.pushFront hq
    case refs =>
        intro r
        have hr := h.refs r
        by_cases heq : r = q
        · subst heq
          simp [setQueue, hr, halive, hq, heldRefs]
        · simp only [setQueue, Function.update_of_ne heq, hr, List.mem_cons, heq, false_or]
          rfl
    case linked =>
        intro r hr hne
        by_cases heq : r = q
        · exact heq ▸ List.mem_cons_self
        · simp only [setQueue, Function.update_of_ne heq] at hne
          exact List.mem_cons_of_mem q (h.linked r hr hne)
    case gone =>
        intro r hzero
        by_cases heq : r = q
        · subst heq
          simp [setQueue] at hzero
        · simp only [setQueue, Function.update_of_ne heq] at hzero ⊢
          exact h.gone r hzero
    case unborn =>
        intro r hr hin
        rcases List.mem_cons.mp hin with rfl | hin
        · cases hr.symm.trans halive
        · exact h.unborn r hr hin
    case cursor => exact fun r hr => List.mem_cons_of_mem q (h.cursor r hr)

/-- A command is pushed to a queue in the list. -/
theorem push (h : Holds s xs none) {q : Nat} (hq : q ∈ xs) (c : Nat) :
    Holds (s.push q c) xs none := by
  refine h.congr rfl ?_ ?_ ?_ rfl h.cursor
  · intro r
    by_cases heq : r = q
    · subst heq
      simp [RunnerMgr.push, emit, setCommand, setQueue]
    · simp [RunnerMgr.push, emit, setCommand, setQueue, Function.update_of_ne heq]
  · intro r halive hne
    by_cases heq : r = q
    · exact heq ▸ hq
    · simp only [RunnerMgr.push, emit, setCommand, setQueue, Function.update_of_ne heq] at hne
      exact h.linked r halive hne
  · intro r hzero
    have hne : r ≠ q := by
      rintro rfl
      exact h.refs_ne_zero (.inr hq) hzero
    simp only [RunnerMgr.push, emit, setCommand, setQueue, Function.update_of_ne hne]
    exact h.gone r hzero

/-- The front of a queue in the list is popped. -/
theorem pop (h : Holds s xs none) {q : Nat} (hq : q ∈ xs) (top : Nat) :
    Holds (s.pop q top) xs none := by
  refine h.congr rfl ?_ ?_ ?_ rfl ?_
  · intro r
    by_cases heq : r = q
    · subst heq
      simp [RunnerMgr.pop, deleteCommand, emit, setCommand, setQueue]
    · simp [RunnerMgr.pop, deleteCommand, emit, setCommand, setQueue, Function.update_of_ne heq]
  · intro r halive hne
    by_cases heq : r = q
    · exact heq ▸ hq
    · simp only [RunnerMgr.pop, deleteCommand, emit, setCommand, setQueue,
        Function.update_of_ne heq] at hne
      exact h.linked r halive hne
  · intro r hzero
    have hne : r ≠ q := by
      rintro rfl
      exact h.refs_ne_zero (.inr hq) hzero
    simp only [RunnerMgr.pop, deleteCommand, emit, setCommand, setQueue, Function.update_of_ne hne]
    exact h.gone r hzero
  · intro r hr
    cases hr
    exact hq

/-- A runner is created. -/
theorem newRunner (h : Holds s xs none) {r : Nat} (hr : s.life r = .unborn) :
    Holds (s.newRunner r) xs none := by
  have hout := h.unborn r hr
  constructor
  case list => exact h.list
  case refs =>
      intro r'
      have hr' := h.refs r'
      by_cases heq : r' = r
      · subst heq
        simp [RunnerMgr.newRunner, setQueue, hout, heldRefs]
      · simp only [RunnerMgr.newRunner, setQueue, Function.update_of_ne heq]
        exact hr'
  case linked =>
      intro r' halive hne
      by_cases heq : r' = r
      · subst heq
        simp [RunnerMgr.newRunner, setQueue] at hne
      · simp only [RunnerMgr.newRunner, setQueue, Function.update_of_ne heq] at halive hne
        exact h.linked r' halive hne
  case gone =>
      intro r' hzero
      by_cases heq : r' = r
      · subst heq
        simp [RunnerMgr.newRunner, setQueue]
      · simp only [RunnerMgr.newRunner, setQueue, Function.update_of_ne heq] at hzero ⊢
        exact h.gone r' hzero
  case unborn =>
      intro r' hr'
      by_cases heq : r' = r
      · subst heq
        simp [RunnerMgr.newRunner] at hr'
      · simp only [RunnerMgr.newRunner, Function.update_of_ne heq] at hr'
        exact h.unborn r' hr'
  case cursor => exact h.cursor

/-- A runner gives up its reference. -/
theorem bury (h : Holds s xs none) {r : Nat} (hr : s.life r = .alive) :
    Holds { s with life := Function.update s.life r .dead } xs (some r) := by
  constructor
  case list => exact h.list
  case refs =>
      intro r'
      have hr' := h.refs r'
      simp only [hr']
      by_cases heq : r' = r
      · subst heq
        simp [hr, heldRefs, Nat.add_comm]
      · simp [heldRefs, heq, Ne.symm heq]
  case linked =>
      intro r' halive hne
      by_cases heq : r' = r
      · subst heq
        simp at halive
      · simp only [Function.update_of_ne heq] at halive
        exact h.linked r' halive hne
  case gone => exact h.gone
  case unborn =>
      intro r' hr'
      by_cases heq : r' = r
      · subst heq
        simp at hr'
      · simp only [Function.update_of_ne heq] at hr'
        exact h.unborn r' hr'
  case cursor => exact h.cursor

end Holds

end RunnerMgr

end Jengine.Runner
