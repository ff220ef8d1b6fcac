import Jengine.Lib.Runs
import Mathlib.Data.List.Nodup
import Mathlib.Logic.Function.Basic

/-!
# The thread pool

`ThreadPool` (`base/thread/threadpool.cpp`).  A worker reads `run_` without the mutex,
takes it, and waits on the condition variable if there is no task.  `Stop` clears `run_`
and broadcasts, both without the mutex.

A step is a section under the mutex, a read or write of `run_`, a signal or a broadcast,
or what a worker does with its task.  `pthread_cond_wait` releases the mutex and blocks
in the section it is called in; a worker that has been woken takes the mutex in a step of
its own, and it may be woken for no reason.  Tasks are numbered in the order in which
they are queued.
-/

namespace Jengine.Thread

open Jengine.Lib

/-- Where a worker is in `WorkerThread`. -/
inductive Worker where
  | notCreated
  /-- At the condition of the loop. -/
  | testing
  /-- It has read `run_` as true. -/
  | locking
  /-- In `pthread_cond_wait`. -/
  | waiting
  /-- Woken, without the mutex. -/
  | woken
  | executing (job : Nat)
  | deleting (job : Nat)
  | returned
deriving DecidableEq

/-- Where the thread is that owns the pool. -/
inductive Stage where
  | constructed
  /-- In the loop of `Start`. -/
  | starting
  | started
  /-- `Stop` has cleared `run_`. -/
  | cleared
  /-- `Stop` has broadcast and joins. -/
  | joining
  | stopped
  /-- In the loop of the destructor. -/
  | destructing
deriving DecidableEq

structure ThreadPool where
  threadMin : Nat
  run : Bool
  tasks : List Nat
  workers : Nat → Worker
  threads : Nat
  stage : Stage
  /-- How many tasks have been queued. -/
  queued : Nat
  /-- The calls of `QueueUserWorkItem` that have unlocked the mutex and not signalled. -/
  signals : Nat
  /-- A task has been queued since `Stop` broadcast. -/
  queuedSince : Bool
  executed : List Nat
  deleted : List Nat

/-- The task that a worker has. -/
def Worker.job : Worker → Option Nat
  | .executing job | .deleting job => some job
  | _ => none

namespace ThreadPool

def constructed (threadMin : Nat) : ThreadPool where
  threadMin := threadMin
  run := false
  tasks := []
  workers := fun _ => .notCreated
  threads := 0
  stage := .constructed
  queued := 0
  signals := 0
  queuedSince := false
  executed := []
  deleted := []

def setWorker (s : ThreadPool) (w : Nat) (pc : Worker) : ThreadPool :=
  { s with workers := Function.update s.workers w pc }

/-- `Stop` has broadcast. -/
def hasBroadcast (s : ThreadPool) : Bool := s.stage == .joining || s.stage == .stopped

inductive Action where
  | start
  | createThread
  | clearRun
  | broadcast
  | join
  | destruct
  | deleteFront
  | push
  | signal (w : Nat)
  | spuriousWakeup (w : Nat)
  | testRun (w : Nat)
  | lock (w : Nat)
  | relock (w : Nat)
  | execute (w : Nat)
  | deleteJob (w : Nat)
deriving DecidableEq

/-- One round of the loop of `Start`, which returns after the last one. -/
def createThread (s : ThreadPool) : ThreadPool :=
  if s.threads < s.threadMin then
    { s.setWorker s.threads .testing with threads := s.threads + 1 }
  else { s with stage := .started }

/-- `pthread_cond_broadcast`. -/
def broadcast (s : ThreadPool) : ThreadPool :=
  { s with
    workers := fun w => if s.workers w = .waiting then .woken else s.workers w
    stage := .joining }

/-- The section of `QueueUserWorkItem`. -/
def push (s : ThreadPool) : ThreadPool :=
  { s with
    tasks := s.tasks ++ [s.queued]
    queued := s.queued + 1
    signals := s.signals + 1
    queuedSince := s.queuedSince || s.hasBroadcast }

/-- `pthread_cond_signal`, which wakes a worker if one waits. -/
def signal (s : ThreadPool) (w : Nat) : ThreadPool :=
  { s with
    workers := if s.workers w = .waiting then Function.update s.workers w .woken else s.workers
    signals := s.signals - 1 }

/-- The section of a worker. -/
def lock (s : ThreadPool) (w : Nat) : ThreadPool :=
  match s.tasks with
  | [] => s.setWorker w .waiting
  | job :: rest =>
      if s.run = true then { s.setWorker w (.executing job) with tasks := rest }
      else s.setWorker w .testing

def execute (s : ThreadPool) (w : Nat) : ThreadPool :=
  match s.workers w with
  | .executing job => { s.setWorker w (.deleting job) with executed := s.executed ++ [job] }
  | _ => s

def deleteJob (s : ThreadPool) (w : Nat) : ThreadPool :=
  match s.workers w with
  | .deleting job => { s.setWorker w .testing with deleted := s.deleted ++ [job] }
  | _ => s

/-- One round of the loop of the destructor, in which no other thread is left. -/
def deleteFront (s : ThreadPool) : ThreadPool :=
  match s.tasks with
  | [] => s
  | job :: rest => { s with tasks := rest, deleted := s.deleted ++ [job] }

def step (s : ThreadPool) : Action → ThreadPool
  | .start => if s.stage = .constructed then { s with run := true, stage := .starting } else s
  | .createThread => if s.stage = .starting then s.createThread else s
  -- the destructor calls `Stop` as well, if `run_` is set
  | .clearRun => if s.stage = .started then { s with run := false, stage := .cleared } else s
  | .broadcast => if s.stage = .cleared then s.broadcast else s
  | .join =>
      if s.stage = .joining ∧ ∀ w < s.threads, s.workers w = .returned then
        { s with stage := .stopped }
      else s
  | .destruct =>
      if s.stage = .constructed ∨ s.stage = .stopped then { s with stage := .destructing } else s
  | .deleteFront => if s.stage = .destructing then s.deleteFront else s
  | .push => if s.stage = .destructing then s else s.push
  | .signal w =>
      if 0 < s.signals ∧ (s.workers w = .waiting ∨ ∀ v < s.threads, s.workers v ≠ .waiting) then
        s.signal w
      else s
  | .spuriousWakeup w => if s.workers w = .waiting then s.setWorker w .woken else s
  | .testRun w =>
      if s.workers w = .testing then
        s.setWorker w (if s.run = true then .locking else .returned)
      else s
  | .lock w => if s.workers w = .locking then s.lock w else s
  | .relock w => if s.workers w = .woken then s.setWorker w .testing else s
  | .execute w => s.execute w
  | .deleteJob w => s.deleteJob w

/-- A worker waits although `Stop` has broadcast and no task was queued since. -/
def LostWakeup (s : ThreadPool) : Prop :=
  s.hasBroadcast = true ∧ s.queuedSince = false ∧ ∃ w, s.workers w = .waiting

structure Right (s : ThreadPool) : Prop where
  executed_once : s.executed.Nodup
  deleted_once : s.deleted.Nodup
  deleted_not_queued : ∀ job ∈ s.deleted, job ∉ s.tasks
  awake : ¬ s.LostWakeup

/-- A worker that has read `run_` before `Stop` cleared it takes the mutex before `Stop`
    broadcasts, or it finds a task, or one was queued since. -/
def InTime (s : ThreadPool) : Action → Prop
  | .lock w =>
      s.workers w = .locking → s.hasBroadcast = true → s.queuedSince = false → s.tasks ≠ []
  | _ => True

/-! ### Where a task is -/

structure Inv (s : ThreadPool) : Prop where
  tasks_nodup : s.tasks.Nodup
  tasks_lt : ∀ job ∈ s.tasks, job < s.queued
  executed_nodup : s.executed.Nodup
  executed_lt : ∀ job ∈ s.executed, job < s.queued
  executed_gone : ∀ job ∈ s.executed, job ∉ s.tasks
  deleted_nodup : s.deleted.Nodup
  deleted_lt : ∀ job ∈ s.deleted, job < s.queued
  deleted_gone : ∀ job ∈ s.deleted, job ∉ s.tasks
  held_lt : ∀ w job, (s.workers w).job = some job → job < s.queued
  held_gone : ∀ w job, (s.workers w).job = some job → job ∉ s.tasks ∧ job ∉ s.deleted
  held_alone : ∀ w v job, (s.workers w).job = some job → (s.workers v).job = some job → w = v
  executing_new : ∀ w job, s.workers w = .executing job → job ∉ s.executed

variable {s : ThreadPool}

theorem inv_constructed (threadMin : Nat) : Inv (constructed threadMin) := by
  constructor <;> first | exact List.nodup_nil | nofun

/-- The workers change, and none of them has a task that it had not. -/
theorem Inv.rework (h : Inv s) {workers : Nat → Worker}
    (hworkers : ∀ w, workers w = s.workers w ∨ (workers w).job = none) :
    Inv { s with workers := workers } := by
  have hold : ∀ w job, (workers w).job = some job → (s.workers w).job = some job := by
    intro w job hjob
    rcases hworkers w with heq | hnone
    · rw [← heq]
      exact hjob
    · rw [hnone] at hjob
      cases hjob
  refine { h with held_lt := ?_, held_gone := ?_, held_alone := ?_, executing_new := ?_ }
  · exact fun w job hjob => h.held_lt w job (hold w job hjob)
  · exact fun w job hjob => h.held_gone w job (hold w job hjob)
  · exact fun w v job hw hv => h.held_alone w v job (hold w job hw) (hold v job hv)
  · intro w job hjob
    rcases hworkers w with heq | hnone
    · exact h.executing_new w job (heq.symm.trans hjob)
    · dsimp only at hjob
      rw [hjob] at hnone
      cases hnone

theorem Inv.setWorker (h : Inv s) (w : Nat) {pc : Worker} (hpc : pc.job = none) :
    Inv (s.setWorker w pc) := by
  refine h.rework ?_
  intro v
  by_cases heq : v = w
  · subst heq
    rw [Function.update_self]
    exact .inr hpc
  · rw [Function.update_of_ne heq]
    exact .inl rfl

theorem Inv.push (h : Inv s) : Inv s.push := by
  have hfresh : ∀ {job}, job < s.queued → job ∉ s.tasks → job ∉ s.tasks ++ [s.queued] := by
    intro job hlt hout hmem
    rcases List.mem_append.mp hmem with hmem | hmem
    · exact hout hmem
    · rw [List.mem_singleton.mp hmem] at hlt
      exact Nat.lt_irrefl _ hlt
  unfold ThreadPool.push
  refine { h with
    tasks_nodup := ?_, tasks_lt := ?_, executed_lt := ?_, executed_gone := ?_, deleted_lt := ?_,
    deleted_gone := ?_, held_lt := ?_, held_gone := ?_ }
  · refine List.nodup_append.mpr ⟨h.tasks_nodup, List.nodup_singleton _, ?_⟩
    rintro a ha b hb rfl
    rw [List.mem_singleton.mp hb] at ha
    exact Nat.lt_irrefl _ (h.tasks_lt _ ha)
  · intro job hjob
    rcases List.mem_append.mp hjob with hjob | hjob
    · exact Nat.lt_succ_of_lt (h.tasks_lt job hjob)
    · rw [List.mem_singleton.mp hjob]
      exact Nat.lt_succ_self _
  · exact fun job hjob => Nat.lt_succ_of_lt (h.executed_lt job hjob)
  · exact fun job hjob => hfresh (h.executed_lt job hjob) (h.executed_gone job hjob)
  · exact fun job hjob => Nat.lt_succ_of_lt (h.deleted_lt job hjob)
  · exact fun job hjob => hfresh (h.deleted_lt job hjob) (h.deleted_gone job hjob)
  · exact fun w job hjob => Nat.lt_succ_of_lt (h.held_lt w job hjob)
  · intro w job hjob
    obtain ⟨hout, hdeleted⟩ := h.held_gone w job hjob
    exact ⟨hfresh (h.held_lt w job hjob) hout, hdeleted⟩

/-- The first task leaves the queue. -/
theorem Inv.head (h : Inv s) {job : Nat} {rest : List Nat} (htasks : s.tasks = job :: rest) :
    job ∉ rest ∧ job < s.queued ∧ job ∉ s.executed ∧ job ∉ s.deleted ∧
      ∀ w, (s.workers w).job ≠ some job := by
  have hmem : job ∈ s.tasks := by
    rw [htasks]
    exact List.mem_cons_self
  have hnodup := h.tasks_nodup
  rw [htasks, List.nodup_cons] at hnodup
  exact ⟨hnodup.1, h.tasks_lt job hmem, fun hex => h.executed_gone job hex hmem,
    fun hdel => h.deleted_gone job hdel hmem, fun w hw => (h.held_gone w job hw).1 hmem⟩

theorem Inv.tail (h : Inv s) {job : Nat} {rest : List Nat} (htasks : s.tasks = job :: rest) :
    Inv { s with tasks := rest } := by
  have hsub : rest ⊆ s.tasks := by
    rw [htasks]
    exact List.subset_cons_self _ _
  have hnodup := h.tasks_nodup
  rw [htasks, List.nodup_cons] at hnodup
  exact { h with
    tasks_nodup := hnodup.2
    tasks_lt := fun j hj => h.tasks_lt j (hsub hj)
    executed_gone := fun j hj hj' => h.executed_gone j hj (hsub hj')
    deleted_gone := fun j hj hj' => h.deleted_gone j hj (hsub hj')
    held_gone := fun w j hj =>
      ⟨fun hj' => (h.held_gone w j hj).1 (hsub hj'), (h.held_gone w j hj).2⟩ }

/-- A worker takes a task that is nowhere else. -/
theorem Inv.take (h : Inv s) (w : Nat) {job : Nat} (hlt : job < s.queued) (htasks : job ∉ s.tasks)
    (hexecuted : job ∉ s.executed) (hdeleted : job ∉ s.deleted)
    (hfree : ∀ v, (s.workers v).job ≠ some job) : Inv (s.setWorker w (.executing job)) := by
  have hjob : ∀ v j, (Function.update s.workers w (.executing job) v).job = some j →
      v = w ∧ j = job ∨ v ≠ w ∧ (s.workers v).job = some j := by
    intro v j hj
    by_cases heq : v = w
    · subst heq
      rw [Function.update_self] at hj
      exact .inl ⟨rfl, (Option.some.inj hj).symm⟩
    · rw [Function.update_of_ne heq] at hj
      exact .inr ⟨heq, hj⟩
  unfold ThreadPool.setWorker
  refine { h with held_lt := ?_, held_gone := ?_, held_alone := ?_, executing_new := ?_ }
  · intro v j hj
    rcases hjob v j hj with ⟨-, rfl⟩ | ⟨-, hj⟩
    · exact hlt
    · exact h.held_lt v j hj
  · intro v j hj
    rcases hjob v j hj with ⟨-, rfl⟩ | ⟨-, hj⟩
    · exact ⟨htasks, hdeleted⟩
    · exact h.held_gone v j hj
  · intro v u j hv hu
    rcases hjob v j hv with ⟨rfl, rfl⟩ | ⟨-, hv'⟩
    · rcases hjob u j hu with ⟨rfl, -⟩ | ⟨-, hu'⟩
      · rfl
      · exact absurd hu' (hfree u)
    · rcases hjob u j hu with ⟨-, rfl⟩ | ⟨-, hu'⟩
      · exact absurd hv' (hfree v)
      · exact h.held_alone v u j hv' hu'
  · intro v j hj
    by_cases heq : v = w
    · subst heq
      simp only [Function.update_self, Worker.executing.injEq] at hj
      exact hj ▸ hexecuted
    · simp only [Function.update_of_ne heq] at hj
      exact h.executing_new v j hj

theorem Inv.lock (h : Inv s) (w : Nat) : Inv (s.lock w) := by
  unfold ThreadPool.lock
  split
  · exact h.setWorker w rfl
  · rename_i job rest htasks
    split
    · obtain ⟨hrest, hlt, hexecuted, hdeleted, hfree⟩ := h.head htasks
      exact (h.tail htasks).take w hlt hrest hexecuted hdeleted hfree
    · exact h.setWorker w rfl

theorem Inv.execute (h : Inv s) (w : Nat) : Inv (s.execute w) := by
  unfold ThreadPool.execute
  split
  · rename_i job hw
    have hnew := h.executing_new w job hw
    have hheld : (s.workers w).job = some job := by rw [hw]; rfl
    have hjob : ∀ v j, (Function.update s.workers w (.deleting job) v).job = some j →
        (s.workers v).job = some j := by
      intro v j hj
      by_cases heq : v = w
      · subst heq
        rw [Function.update_self] at hj
        exact hheld.trans hj
      · rw [Function.update_of_ne heq] at hj
        exact hj
    unfold ThreadPool.setWorker
    refine { h with
      executed_nodup := ?_, executed_lt := ?_, executed_gone := ?_, held_lt := ?_,
      held_gone := ?_, held_alone := ?_, executing_new := ?_ }
    · refine List.nodup_append.mpr ⟨h.executed_nodup, List.nodup_singleton _, ?_⟩
      rintro a ha b hb rfl
      exact hnew (List.mem_singleton.mp hb ▸ ha)
    · intro j hj
      rcases List.mem_append.mp hj with hj | hj
      · exact h.executed_lt j hj
      · exact List.mem_singleton.mp hj ▸ h.held_lt w job hheld
    · intro j hj
      rcases List.mem_append.mp hj with hj | hj
      · exact h.executed_gone j hj
      · exact List.mem_singleton.mp hj ▸ (h.held_gone w job hheld).1
    · exact fun v j hj => h.held_lt v j (hjob v j hj)
    · exact fun v j hj => h.held_gone v j (hjob v j hj)
    · exact fun v u j hv hu => h.held_alone v u j (hjob v j hv) (hjob u j hu)
    · intro v j hj hmem
      by_cases heq : v = w
      · subst heq
        simp at hj
      · simp only [Function.update_of_ne heq] at hj
        rcases List.mem_append.mp hmem with hmem | hmem
        · exact h.executing_new v j hj hmem
        · -- only one worker has this task
          have hv : (s.workers v).job = some job := by
            rw [hj, List.mem_singleton.mp hmem]
            rfl
          exact heq (h.held_alone v w job hv hheld)
  · exact h

theorem Inv.deleteJob (h : Inv s) (w : Nat) : Inv (s.deleteJob w) := by
  unfold ThreadPool.deleteJob
  split
  · rename_i job hw
    have hheld : (s.workers w).job = some job := by rw [hw]; rfl
    have hset : Inv (s.setWorker w .testing) := h.setWorker w rfl
    obtain ⟨htasks, hdeleted⟩ := h.held_gone w job hheld
    refine { hset with deleted_nodup := ?_, deleted_lt := ?_, deleted_gone := ?_, held_gone := ?_ }
    · refine List.nodup_append.mpr ⟨h.deleted_nodup, List.nodup_singleton _, ?_⟩
      rintro a ha b hb rfl
      exact hdeleted (List.mem_singleton.mp hb ▸ ha)
    · intro j hj
      rcases List.mem_append.mp hj with hj | hj
      · exact h.deleted_lt j hj
      · exact List.mem_singleton.mp hj ▸ h.held_lt w job hheld
    · intro j hj
      rcases List.mem_append.mp hj with hj | hj
      · exact h.deleted_gone j hj
      · exact List.mem_singleton.mp hj ▸ htasks
    · intro v j hj
      obtain ⟨htasks', hdeleted'⟩ := hset.held_gone v j hj
      refine ⟨htasks', ?_⟩
      intro hmem
      rcases List.mem_append.mp hmem with hmem | hmem
      · exact hdeleted' hmem
      · by_cases heq : v = w
        · subst heq
          simp [ThreadPool.setWorker, Worker.job] at hj
        · simp only [ThreadPool.setWorker, Function.update_of_ne heq] at hj
          rw [List.mem_singleton.mp hmem] at hj
          exact heq (h.held_alone v w job hj hheld)
  · exact h

theorem Inv.deleteFront (h : Inv s) : Inv s.deleteFront := by
  unfold ThreadPool.deleteFront
  split
  · exact h
  · rename_i job rest htasks
    obtain ⟨hrest, hlt, -, hdeleted, hfree⟩ := h.head htasks
    have htail := h.tail htasks
    refine { htail with deleted_nodup := ?_, deleted_lt := ?_, deleted_gone := ?_, held_gone := ?_ }
    · refine List.nodup_append.mpr ⟨h.deleted_nodup, List.nodup_singleton _, ?_⟩
      rintro a ha b hb rfl
      exact hdeleted (List.mem_singleton.mp hb ▸ ha)
    · intro j hj
      rcases List.mem_append.mp hj with hj | hj
      · exact h.deleted_lt j hj
      · exact List.mem_singleton.mp hj ▸ hlt
    · intro j hj
      rcases List.mem_append.mp hj with hj | hj
      · exact htail.deleted_gone j hj
      · exact List.mem_singleton.mp hj ▸ hrest
    · intro v j hj
      obtain ⟨htasks', hdeleted'⟩ := htail.held_gone v j hj
      refine ⟨htasks', ?_⟩
      intro hmem
      rcases List.mem_append.mp hmem with hmem | hmem
      · exact hdeleted' hmem
      · exact hfree v (List.mem_singleton.mp hmem ▸ hj)

theorem Inv.step (h : Inv s) (a : Action) : Inv (s.step a) := by
  cases a with
  | start | clearRun | destruct | join =>
      simp only [ThreadPool.step]
      split
      · exact { h with }
      · exact h
  | createThread =>
      simp only [ThreadPool.step]
      split
      · unfold ThreadPool.createThread
        split
        · exact { (h.setWorker s.threads rfl : Inv (s.setWorker s.threads .testing)) with }
        · exact { h with }
      · exact h
  | broadcast =>
      simp only [ThreadPool.step]
      split
      · unfold ThreadPool.broadcast
        refine { h.rework ?_ with }
        intro w
        split
        · exact .inr rfl
        · exact .inl rfl
      · exact h
  | deleteFront =>
      simp only [ThreadPool.step]
      split
      · exact h.deleteFront
      · exact h
  | push =>
      simp only [ThreadPool.step]
      split
      · exact h
      · exact h.push
  | signal w =>
      simp only [ThreadPool.step]
      split
      · unfold ThreadPool.signal
        split
        · exact { (h.setWorker w rfl : Inv (s.setWorker w .woken)) with }
        · exact { h with }
      · exact h
  | spuriousWakeup w | relock w =>
      simp only [ThreadPool.step]
      split
      · exact h.setWorker w rfl
      · exact h
  | testRun w =>
      simp only [ThreadPool.step]
      split
      · exact h.setWorker w (by split <;> rfl)
      · exact h
  | lock w =>
      simp only [ThreadPool.step]
      split
      · exact h.lock w
      · exact h
  | execute w => exact h.execute w
  | deleteJob w => exact h.deleteJob w

/-! ### Wake-ups -/

/-- No worker has begun to wait. -/
theorem not_lostWakeup_of {t : ThreadPool} (h : ¬ s.LostWakeup)
    (hbroadcast : t.hasBroadcast = true → s.hasBroadcast = true)
    (hsince : t.queuedSince = false → s.queuedSince = false)
    (hworkers : ∀ w, t.workers w = .waiting → s.workers w = .waiting) : ¬ t.LostWakeup :=
  fun ⟨hb, hs, w, hw⟩ => h ⟨hbroadcast hb, hsince hs, w, hworkers w hw⟩

theorem waiting_of_update {workers : Nat → Worker} {w v : Nat} {pc : Worker} (hpc : pc ≠ .waiting)
    (hv : Function.update workers w pc v = .waiting) : workers v = .waiting := by
  by_cases heq : v = w
  · subst heq
    rw [Function.update_self] at hv
    exact absurd hv hpc
  · rw [Function.update_of_ne heq] at hv
    exact hv

theorem not_lostWakeup_setWorker (h : ¬ s.LostWakeup) {w : Nat} {pc : Worker} (hpc : pc ≠ .waiting) :
    ¬ (s.setWorker w pc).LostWakeup :=
  not_lostWakeup_of h id id fun _ => waiting_of_update hpc

/-- In these stages `Stop` has not broadcast, or there is no `Stop` any more. -/
theorem not_lostWakeup_of_stage (h : s.hasBroadcast = false) : ¬ s.LostWakeup := by
  rintro ⟨hbroadcast, -⟩
  rw [h] at hbroadcast
  cases hbroadcast

/-- Only the section of a worker that finds no task can lose a wake-up. -/
theorem lostWakeup_step_iff (h : ¬ s.LostWakeup) (a : Action) :
    ¬ (s.step a).LostWakeup ↔ s.InTime a := by
  cases a with
  | lock w =>
      simp only [step, InTime]
      split
      · rename_i hlocking
        rw [imp_iff_right hlocking]
        unfold lock
        split
        · rename_i htasks
          constructor
          · intro hawake hbroadcast hsince
            exact absurd ⟨hbroadcast, hsince, w, Function.update_self _ _ _⟩ hawake
          · rintro hin ⟨hbroadcast, hsince, -⟩
            exact hin hbroadcast hsince htasks
        · rename_i job rest htasks
          have htrue : s.hasBroadcast = true → s.queuedSince = false → s.tasks ≠ [] := by
            intro _ _
            rw [htasks]
            exact List.cons_ne_nil _ _
          split
          · exact iff_of_true (not_lostWakeup_setWorker h nofun) htrue
          · exact iff_of_true (not_lostWakeup_setWorker h nofun) htrue
      · rename_i hlocking
        exact iff_of_true h fun hl => absurd hl hlocking
  | start | clearRun | destruct =>
      refine iff_of_true ?_ trivial
      simp only [step]
      split
      · exact not_lostWakeup_of_stage rfl
      · exact h
  | createThread =>
      refine iff_of_true ?_ trivial
      simp only [step]
      split
      · rename_i hstage
        unfold createThread
        split
        · refine not_lostWakeup_of_stage ?_
          simp [hasBroadcast, setWorker, hstage]
        · exact not_lostWakeup_of_stage rfl
      · exact h
  | broadcast =>
      refine iff_of_true ?_ trivial
      simp only [step]
      split
      · -- everybody has been woken
        rintro ⟨-, -, w, hw⟩
        simp only [ThreadPool.broadcast] at hw
        split at hw
        · cases hw
        · rename_i hnot
          exact hnot hw
      · exact h
  | join =>
      refine iff_of_true ?_ trivial
      simp only [step]
      split
      · rename_i hcond
        refine not_lostWakeup_of h (fun _ => ?_) id fun _ => id
        simp [hasBroadcast, hcond.1]
      · exact h
  | deleteFront =>
      refine iff_of_true ?_ trivial
      simp only [step]
      split
      · unfold ThreadPool.deleteFront
        split <;> exact h
      · exact h
  | push =>
      refine iff_of_true ?_ trivial
      simp only [step]
      split
      · exact h
      · refine not_lostWakeup_of h id (fun hsince => ?_) fun _ => id
        exact (Bool.or_eq_false_iff.mp hsince).1
  | signal w =>
      refine iff_of_true ?_ trivial
      simp only [step]
      split
      · refine not_lostWakeup_of h id id ?_
        intro v hv
        simp only [ThreadPool.signal] at hv
        split at hv
        · exact waiting_of_update Worker.noConfusion hv
        · exact hv
      · exact h
  | spuriousWakeup w | relock w =>
      refine iff_of_true ?_ trivial
      simp only [step]
      split
      · exact not_lostWakeup_setWorker h nofun
      · exact h
  | testRun w =>
      refine iff_of_true ?_ trivial
      simp only [step]
      split
      · exact not_lostWakeup_setWorker h (by split <;> nofun)
      · exact h
  | execute w =>
      refine iff_of_true ?_ trivial
      simp only [step]
      unfold ThreadPool.execute
      split
      · exact not_lostWakeup_of h id id fun _ => waiting_of_update nofun
      · exact h
  | deleteJob w =>
      refine iff_of_true ?_ trivial
      simp only [step]
      unfold ThreadPool.deleteJob
      split
      · exact not_lostWakeup_of h id id fun _ => waiting_of_update nofun
      · exact h

theorem Inv.right_iff (h : Inv s) : Right s ↔ ¬ s.LostWakeup :=
  ⟨fun hright => hright.awake,
    fun hawake => ⟨h.executed_nodup, h.deleted_nodup, h.deleted_gone, hawake⟩⟩

/-- Tasks are executed and deleted once in every run. -/
theorem inv_run (threadMin : Nat) (as : List Action) : Inv (Lib.run step (constructed threadMin) as) :=
  run_keeps (fun _ a h => h.step a) (inv_constructed threadMin) as

theorem right_along_iff_of_inv (h : Inv s) (hawake : ¬ s.LostWakeup) (as : List Action) :
    Along step (fun s a => Right (s.step a)) s as ↔ Along step InTime s as := by
  refine along_congr (I := fun s => Inv s ∧ ¬ s.LostWakeup) ?_ ?_ ⟨h, hawake⟩ as
  · rintro s a ⟨h, hawake⟩
    exact (h.step a).right_iff.trans (lostWakeup_step_iff hawake a)
  · rintro s a ⟨h, -⟩ hright
    exact ⟨h.step a, hright.awake⟩

/-- **In every run tasks are executed and deleted at most once and no wake-up is lost, exactly
    if no worker passes from its test of `run_` to the mutex while `Stop` clears `run_` and
    broadcasts, and then finds no task.** -/
theorem stop_along_iff (threadMin : Nat) (as : List Action) :
    Along step (fun s a => Right (s.step a)) (constructed threadMin) as ↔
      Along step InTime (constructed threadMin) as :=
  right_along_iff_of_inv (inv_constructed threadMin) (not_lostWakeup_of_stage rfl) as

/-- One worker; `Stop` clears `run_` and broadcasts between its test and its wait. -/
def stopBetween : List Action :=
  [.start, .createThread, .createThread, .testRun 0, .clearRun, .broadcast, .lock 0]

/-- The worker waits, and `Stop` joins it. -/
theorem stopBetween_lost :
    (Lib.run step (constructed 1) stopBetween).workers 0 = .waiting ∧
      (Lib.run step (constructed 1) stopBetween).stage = .joining ∧
      ¬ Along step (fun s a => Right (s.step a)) (constructed 1) stopBetween := by
  refine ⟨by decide, by decide, ?_⟩
  rintro ⟨-, -, -, -, -, -, hright, -⟩
  exact hright.awake ⟨by decide, by decide, 0, by decide⟩

end ThreadPool

end Jengine.Thread
