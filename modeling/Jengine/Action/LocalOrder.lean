import Jengine.Action.ActionManager
import Mathlib.Algebra.Order.BigOperators.Group.List
import Mathlib.Algebra.Order.Group.Nat

/-!
# The order of local messages

Two messages that wait in `exe_` together are delivered last in, first out.  What
`Update` has not reached yet of the list it walks comes before whatever is pushed,
so the messages from one mailbox to another keep their order exactly when each is
cast with no earlier one waiting in the part of the list that the walk has passed.
-/

namespace Jengine.Action.ActionManager

open Jengine.Lib Jengine.Cluster

variable {ε μ : Type} [DecidableEq ε]

/-! ### The lists around the cursor -/

/-- The actions of an executor that `Update` has still to reach in its walk. -/
def rest (s : ActionManager ε μ) (e : ε) : List (Job μ) :=
  match s.phase with
  | .walking e' rest _ => if e' = e then rest else []
  | .running e' _ rest _ => if e' = e then rest else []
  | _ => []

/-- The executors that `Update` has still to visit. -/
def left (s : ActionManager ε μ) : List ε :=
  match s.phase with
  | .idle => []
  | .visiting left => left
  | .walking _ _ left => left
  | .running _ _ _ left => left

/-- The executor that `Update` visits, and those after it. -/
def here (s : ActionManager ε μ) : List ε :=
  match s.phase with
  | .idle => []
  | .visiting left => left
  | .walking e _ left => e :: left
  | .running e _ _ left => e :: left

/-- `executors_`. -/
def executors (s : ActionManager ε μ) : List ε := s.passed ++ s.here

/-! ### Messages from one mailbox to another -/

def between (f b : MailboxID) (m : Msg μ) : Bool := m.sender == f && m.receiver == b

def msgs (f b : MailboxID) (jobs : List (Job μ)) : List (Msg μ) :=
  (jobs.filterMap Job.call).filter (between f b)

/-- Those that the walk of `Update`, if there is one, has passed. -/
def waiting (s : ActionManager ε μ) (f b : MailboxID) : List (Msg μ) := msgs f b (s.ahead s.exe)

def pending (s : ActionManager ε μ) (f b : MailboxID) : List (Msg μ) :=
  msgs f b (s.rest s.exe) ++ s.waiting f b

/-- The mailbox exists and the node is not being cleaned up. -/
def Up (b : MailboxID) (s : ActionManager ε μ) : Input ε μ → Prop
  | .stopAll e => e ≠ s.exe
  | .unRegister pid => pid ≠ b.pid
  | _ => True

/-- A message is cast when no earlier one waits. -/
def InTurn (f b : MailboxID) (s : ActionManager ε μ) : Input ε μ → Prop
  | .cast m => between f b m = true → s.waiting f b = []
  | _ => True

instance (b : MailboxID) (s : ActionManager ε μ) (a : Input ε μ) : Decidable (Up b s a) := by
  cases a <;> unfold Up <;> infer_instance

instance (f b : MailboxID) (s : ActionManager ε μ) (a : Input ε μ) :
    Decidable (InTurn f b s a) := by
  cases a <;> unfold InTurn <;> infer_instance

@[simp] theorem msgs_nil (f b : MailboxID) : msgs f b ([] : List (Job μ)) = [] := rfl

theorem msgs_cons_none {f b : MailboxID} {job : Job μ} {jobs : List (Job μ)}
    (h : job.call = none) : msgs f b (job :: jobs) = msgs f b jobs := by
  rw [msgs, List.filterMap_cons_none h, msgs]

theorem msgs_cons_some {f b : MailboxID} {job : Job μ} {m : Msg μ} {jobs : List (Job μ)}
    (h : job.call = some m) : msgs f b (job :: jobs) = [m].filter (between f b) ++ msgs f b jobs := by
  rw [msgs, List.filterMap_cons_some h, msgs, ← List.filter_append, List.singleton_append]

theorem msgs_append (f b : MailboxID) (jobs jobs' : List (Job μ)) :
    msgs f b (jobs ++ jobs') = msgs f b jobs ++ msgs f b jobs' := by
  rw [msgs, List.filterMap_append, List.filter_append, msgs, msgs]

structure InOrder (f b : MailboxID) (s : ActionManager ε μ) : Prop where
  unstopped : ∀ job ∈ s.ahead s.exe ++ s.rest s.exe, job.stopped = false
  /-- The local messages are in `exe_` only. -/
  others : ∀ e, e ≠ s.exe → ∀ job ∈ s.ahead e ++ s.rest e, job.call = none
  conserve : s.cast.filter (between f b) = s.delivered.filter (between f b) ++ s.pending f b
  listed : ∀ e, s.registered e = true → e ∈ s.executors
  /-- An executor with actions is one of those that `Update` visits. -/
  busy : ∀ e, s.ahead e ≠ [] → e ∈ s.executors
  /-- Once `exe_` has been visited, only what was cast meanwhile waits there. -/
  recent : s.exe ∈ s.left ∨ ∀ m ∈ s.waiting f b, m ∈ s.fresh
  open_ : b.pid ∈ s.mailboxes

theorem inOrder_start {f b : MailboxID} {exe : ε} {id : UInt8} {mailboxes : List UInt32}
    (hb : b.pid ∈ mailboxes) : InOrder f b (start exe id mailboxes : ActionManager ε μ) where
  unstopped := fun _ hjob => absurd hjob List.not_mem_nil
  others := fun _ _ _ hjob => absurd hjob List.not_mem_nil
  conserve := rfl
  listed := fun _ h => by cases h
  busy := fun _ h => absurd rfl h
  recent := Or.inr fun _ hm => absurd hm List.not_mem_nil
  open_ := hb

/-! ### What is pushed -/

theorem runAction_ahead (s : ActionManager ε μ) (e : ε) (job : Job μ) :
    (s.runAction e job).ahead = Function.update s.ahead e (job :: s.ahead e) := rfl

theorem runAction_registered (s : ActionManager ε μ) (e : ε) (job : Job μ) :
    (s.runAction e job).registered = Function.update s.registered e true := rfl

theorem mem_executors_runAction {s : ActionManager ε μ} (e : ε) (job : Job μ) {e' : ε}
    (h : e' ∈ s.executors) : e' ∈ (s.runAction e job).executors := by
  rcases List.mem_append.mp h with h | h
  · apply List.mem_append_left
    show e' ∈ if s.registered e then s.passed else e :: s.passed
    split_ifs
    · exact h
    · exact List.mem_cons_of_mem e h
  · exact List.mem_append_right _ h

theorem runAction_mem_executors {s : ActionManager ε μ} {f b : MailboxID} (h : InOrder f b s)
    (e : ε) (job : Job μ) : e ∈ (s.runAction e job).executors := by
  by_cases hreg : s.registered e = true
  · exact mem_executors_runAction e job (h.listed e hreg)
  · apply List.mem_append_left
    show e ∈ if s.registered e then s.passed else e :: s.passed
    rw [if_neg hreg]
    exact List.mem_cons_self

/-- `RunAction` keeps what does not depend on the messages. -/
theorem InOrder.runAction {s : ActionManager ε μ} {f b : MailboxID} (h : InOrder f b s) (e : ε)
    (job : Job μ) (hnew : job.stopped = false) (hcall : e ≠ s.exe → job.call = none) :
    (∀ j ∈ (s.runAction e job).ahead s.exe ++ s.rest s.exe, j.stopped = false) ∧
      (∀ e', e' ≠ s.exe → ∀ j ∈ (s.runAction e job).ahead e' ++ s.rest e', j.call = none) ∧
      (∀ e', (s.runAction e job).registered e' = true → e' ∈ (s.runAction e job).executors) ∧
      ∀ e', (s.runAction e job).ahead e' ≠ [] → e' ∈ (s.runAction e job).executors := by
  have hahead : ∀ e' j, j ∈ (s.runAction e job).ahead e' → e' = e ∧ j = job ∨ j ∈ s.ahead e' := by
    intro e' j hj
    rw [runAction_ahead, Function.update_apply] at hj
    split_ifs at hj with he
    · subst he
      rcases List.mem_cons.mp hj with rfl | hj
      · exact Or.inl ⟨rfl, rfl⟩
      · exact Or.inr hj
    · exact Or.inr hj
  refine ⟨?_, ?_, ?_, ?_⟩
  · intro j hj
    rcases List.mem_append.mp hj with hj | hj
    · rcases hahead _ j hj with ⟨-, rfl⟩ | hj
      · exact hnew
      · exact h.unstopped j (List.mem_append_left _ hj)
    · exact h.unstopped j (List.mem_append_right _ hj)
  · intro e' he' j hj
    rcases List.mem_append.mp hj with hj | hj
    · rcases hahead e' j hj with ⟨rfl, rfl⟩ | hj
      · exact hcall he'
      · exact h.others e' he' j (List.mem_append_left _ hj)
    · exact h.others e' he' j (List.mem_append_right _ hj)
  · intro e' hreg
    by_cases he : e' = e
    · rw [he]
      exact runAction_mem_executors h e job
    · rw [runAction_registered, Function.update_of_ne he] at hreg
      exact mem_executors_runAction e job (h.listed e' hreg)
  · intro e' hne
    by_cases he : e' = e
    · rw [he]
      exact runAction_mem_executors h e job
    · rw [runAction_ahead, Function.update_of_ne he] at hne
      exact mem_executors_runAction e job (h.busy e' hne)

theorem InOrder.run {s : ActionManager ε μ} {f b : MailboxID} (h : InOrder f b s) (e : ε) :
    InOrder f b (s.runAction e ⟨none, false⟩) := by
  obtain ⟨hunstopped, hothers, hlisted, hbusy⟩ :=
    h.runAction e ⟨none, false⟩ rfl fun _ => rfl
  have hsame : (s.runAction e ⟨none, false⟩).waiting f b = s.waiting f b := by
    show msgs f b (Function.update s.ahead e _ s.exe) = _
    by_cases he : s.exe = e
    · rw [he, Function.update_self, msgs_cons_none rfl, ← he, waiting]
    · rw [Function.update_of_ne he, waiting]
  refine ⟨hunstopped, hothers, ?_, hlisted, hbusy, ?_, h.open_⟩
  · show _ = _ ++ (msgs f b (s.rest s.exe) ++ (s.runAction e ⟨none, false⟩).waiting f b)
    rw [hsame]
    exact h.conserve
  · rw [hsame]
    exact h.recent

/-- A message cast in turn is the last one pending. -/
theorem InOrder.castLocal {s : ActionManager ε μ} {f b : MailboxID} (h : InOrder f b s)
    {m : Msg μ} (hturn : between f b m = true → s.waiting f b = []) :
    InOrder f b (s.castLocal m) := by
  unfold ActionManager.castLocal
  split_ifs
  · obtain ⟨hunstopped, hothers, hlisted, hbusy⟩ :=
      h.runAction s.exe ⟨some m, false⟩ rfl fun hne => absurd rfl hne
    have hnew : (s.runAction s.exe ⟨some m, false⟩).waiting f b =
        s.waiting f b ++ [m].filter (between f b) := by
      show msgs f b (Function.update s.ahead s.exe _ s.exe) = _
      rw [Function.update_self, msgs_cons_some rfl, ← waiting]
      cases hm : between f b m with
      | true => rw [hturn hm, List.append_nil, List.nil_append]
      | false => rw [List.filter_cons_of_neg (by simp [hm]), List.filter_nil, List.append_nil,
          List.nil_append]
    refine ⟨hunstopped, hothers, ?_, hlisted, hbusy, ?_, h.open_⟩
    · show (s.cast ++ [m]).filter (between f b) = s.delivered.filter (between f b) ++
        (msgs f b (s.rest s.exe) ++ (s.runAction s.exe ⟨some m, false⟩).waiting f b)
      rw [hnew, List.filter_append, h.conserve, pending, List.append_assoc, List.append_assoc]
    · rcases h.recent with hleft | hfresh
      · exact Or.inl hleft
      · refine Or.inr fun m' hm' => ?_
        have hm' : m' ∈ (s.runAction s.exe ⟨some m, false⟩).waiting f b := hm'
        rw [hnew] at hm'
        rcases List.mem_append.mp hm' with hm' | hm'
        · exact List.mem_append_left _ (hfresh m' hm')
        · exact List.mem_append_right _ (List.mem_filter.mp hm').1
  · exact h

/-! ### What `Update` does -/

theorem InOrder.stopAllAction {s : ActionManager ε μ} {f b : MailboxID} (h : InOrder f b s)
    {e : ε} (he : e ≠ s.exe) : InOrder f b (s.stopAllAction e) := by
  have hahead : (s.stopAllAction e).ahead s.exe = s.ahead s.exe :=
    Function.update_of_ne (Ne.symm he) _ _
  have hrest : ∀ e', (s.stopAllAction e).rest e' = s.rest e' ∨
      (s.stopAllAction e).rest e' = (s.rest e').map Job.stop ∧ e' = e := by
    intro e'
    unfold rest ActionManager.stopAllAction
    cases s.phase with
    | idle => exact Or.inl rfl
    | visiting left => exact Or.inl rfl
    | walking e₁ rest left =>
        by_cases h₁ : e₁ = e'
        · subst h₁
          by_cases h₂ : e₁ = e
          · exact Or.inr (by simp [h₂])
          · exact Or.inl (by simp [h₂])
        · exact Or.inl (by simp [h₁])
    | running e₁ cur rest left =>
        by_cases h₂ : e₁ = e
        · subst h₂
          by_cases h₁ : e₁ = e'
          · exact Or.inr (by simp [h₁])
          · exact Or.inl (by simp [h₁])
        · exact Or.inl (by simp [h₂])
  have hexe : (s.stopAllAction e).rest s.exe = s.rest s.exe := by
    rcases hrest s.exe with hsame | ⟨-, heq⟩
    · exact hsame
    · exact absurd heq.symm he
  have hhere : (s.stopAllAction e).here = s.here := by
    unfold here ActionManager.stopAllAction
    cases s.phase with
    | idle => rfl
    | visiting left => rfl
    | walking e₁ rest left => rfl
    | running e₁ cur rest left =>
        by_cases h₂ : e₁ = e
        · simp [h₂]
        · simp [h₂]
  have hleft : (s.stopAllAction e).left = s.left := by
    unfold left ActionManager.stopAllAction
    cases s.phase with
    | idle => rfl
    | visiting left => rfl
    | walking e₁ rest left => rfl
    | running e₁ cur rest left =>
        by_cases h₂ : e₁ = e
        · simp [h₂]
        · simp [h₂]
  have hlist : (s.stopAllAction e).executors = s.executors := by
    unfold executors
    rw [hhere]
    rfl
  have hcall : ∀ jobs : List (Job μ), (∀ job ∈ jobs, job.call = none) →
      ∀ job ∈ jobs.map Job.stop, job.call = none := by
    intro jobs hjobs job hjob
    obtain ⟨j, hj, rfl⟩ := List.mem_map.mp hjob
    exact hjobs j hj
  refine ⟨?_, ?_, ?_, ?_, ?_, ?_, h.open_⟩
  · show ∀ job ∈ (s.stopAllAction e).ahead s.exe ++ (s.stopAllAction e).rest s.exe, _
    rw [hahead, hexe]
    exact h.unstopped
  · intro e' he' job hjob
    have hold := h.others e' he'
    rcases List.mem_append.mp hjob with hjob | hjob
    · change job ∈ Function.update s.ahead e ((s.ahead e).map Job.stop) e' at hjob
      by_cases hee : e' = e
      · subst hee
        rw [Function.update_self] at hjob
        exact hcall _ (fun j hj => hold j (List.mem_append_left _ hj)) job hjob
      · rw [Function.update_of_ne hee] at hjob
        exact hold job (List.mem_append_left _ hjob)
    · rcases hrest e' with hsame | ⟨hsame, -⟩
      · rw [hsame] at hjob
        exact hold job (List.mem_append_right _ hjob)
      · rw [hsame] at hjob
        exact hcall _ (fun j hj => hold j (List.mem_append_right _ hj)) job hjob
  · show s.cast.filter (between f b) = s.delivered.filter (between f b) ++
      (msgs f b ((s.stopAllAction e).rest s.exe) ++ msgs f b ((s.stopAllAction e).ahead s.exe))
    rw [hexe, hahead]
    exact h.conserve
  · intro e' hreg
    rw [hlist]
    exact h.listed e' hreg
  · intro e' hne
    rw [hlist]
    apply h.busy e'
    intro hnil
    apply hne
    show Function.update s.ahead e ((s.ahead e).map Job.stop) e' = []
    by_cases hee : e' = e
    · subst hee
      rw [Function.update_self, hnil, List.map_nil]
    · rw [Function.update_of_ne hee, hnil]
  · show s.exe ∈ (s.stopAllAction e).left ∨
      ∀ m ∈ msgs f b ((s.stopAllAction e).ahead s.exe), m ∈ s.fresh
    rw [hleft, hahead]
    exact h.recent

theorem InOrder.update {s : ActionManager ε μ} {f b : MailboxID} (h : InOrder f b s)
    (hidle : s.phase = .idle) :
    InOrder f b { s with passed := [], phase := .visiting s.passed, fresh := [] } := by
  have hrest : ∀ e, s.rest e = [] := fun e => by simp [rest, hidle]
  have hlist : s.executors = s.passed := by simp [executors, here, hidle]
  refine ⟨?_, ?_, ?_, ?_, ?_, ?_, h.open_⟩
  · have := h.unstopped
    rw [hrest] at this
    exact this
  · intro e he
    have := h.others e he
    rw [hrest] at this
    exact this
  · have := h.conserve
    rw [pending, hrest] at this
    exact this
  · intro e hreg
    exact hlist ▸ h.listed e hreg
  · intro e hne
    exact hlist ▸ h.busy e hne
  · by_cases hempty : s.ahead s.exe = []
    · refine Or.inr fun m hm => ?_
      change m ∈ msgs f b (s.ahead s.exe) at hm
      rw [hempty] at hm
      exact absurd hm List.not_mem_nil
    · exact Or.inl (hlist ▸ h.busy s.exe hempty)

/-- The phase can change as long as the messages ahead of and behind the cursor stay. -/
theorem InOrder.of_phase {s : ActionManager ε μ} {f b : MailboxID} (h : InOrder f b s)
    (passed : List ε) (phase : Phase ε μ)
    (hrest : ∀ e job, job ∈ rest { s with passed := passed, phase := phase } e → job ∈ s.rest e)
    (hmsgs : msgs f b (rest { s with passed := passed, phase := phase } s.exe) =
      msgs f b (s.rest s.exe))
    (hlist : executors { s with passed := passed, phase := phase } = s.executors)
    (hleft : s.exe ∈ s.left → s.exe ∈ left { s with passed := passed, phase := phase }) :
    InOrder f b { s with passed := passed, phase := phase } := by
  refine ⟨?_, ?_, ?_, ?_, ?_, ?_, h.open_⟩
  · intro job hjob
    apply h.unstopped
    rcases List.mem_append.mp hjob with hjob | hjob
    · exact List.mem_append_left _ hjob
    · exact List.mem_append_right _ (hrest _ job hjob)
  · intro e he job hjob
    apply h.others e he
    rcases List.mem_append.mp hjob with hjob | hjob
    · exact List.mem_append_left _ hjob
    · exact List.mem_append_right _ (hrest e job hjob)
  · show s.cast.filter (between f b) = s.delivered.filter (between f b) ++
      (msgs f b (rest { s with passed := passed, phase := phase } s.exe) ++ s.waiting f b)
    rw [hmsgs]
    exact h.conserve
  · intro e hreg
    rw [hlist]
    exact h.listed e hreg
  · intro e hne
    rw [hlist]
    exact h.busy e hne
  · exact h.recent.imp_left hleft

/-- An executor without actions is erased. -/
theorem InOrder.unregister {s : ActionManager ε μ} {f b : MailboxID} (h : InOrder f b s) {e : ε}
    {left : List ε} (hphase : s.phase = .visiting (e :: left)) (hnone : s.ahead e = []) :
    InOrder f b { s with
      phase := .visiting left
      registered := Function.update s.registered e false } := by
  have hrest : ∀ e', s.rest e' = [] := fun e' => by simp [rest, hphase]
  have hlist : ∀ e', e' ≠ e → e' ∈ s.executors → e' ∈ s.passed ++ left := by
    intro e' hne hmem
    simpa [executors, here, hphase, hne] using hmem
  refine ⟨?_, ?_, ?_, ?_, ?_, ?_, h.open_⟩
  · have := h.unstopped
    rw [hrest] at this
    exact this
  · intro e' he'
    have := h.others e' he'
    rw [hrest] at this
    exact this
  · have := h.conserve
    rw [pending, hrest] at this
    exact this
  · intro e' hreg
    change Function.update s.registered e false e' = true at hreg
    by_cases he : e' = e
    · rw [he, Function.update_self] at hreg
      cases hreg
    · rw [Function.update_of_ne he] at hreg
      exact hlist e' he (h.listed e' hreg)
  · intro e' hne
    apply hlist e' _ (h.busy e' hne)
    rintro rfl
    exact hne hnone
  · by_cases he : s.exe = e
    · refine Or.inr fun m hm => ?_
      change m ∈ msgs f b (s.ahead s.exe) at hm
      rw [he, hnone] at hm
      exact absurd hm List.not_mem_nil
    · refine h.recent.imp_left fun hmem => ?_
      simpa [ActionManager.left, hphase, he] using hmem

/-- `cur_act` becomes the front of the list: all of it lies before the walk. -/
theorem InOrder.walk {s : ActionManager ε μ} {f b : MailboxID} (h : InOrder f b s) {e : ε}
    {left : List ε} (hphase : s.phase = .visiting (e :: left)) :
    InOrder f b { s with
      phase := .walking e (s.ahead e) left
      ahead := Function.update s.ahead e [] } := by
  have hrest : ∀ e', s.rest e' = [] := fun e' => by simp [rest, hphase]
  have hlist : s.executors = s.passed ++ e :: left := by simp [executors, here, hphase]
  have hjobs : ∀ e' job, job ∈ Function.update s.ahead e [] e' ++
      (if e = e' then s.ahead e else []) → job ∈ s.ahead e' ++ s.rest e' := by
    intro e' job hjob
    apply List.mem_append_left
    by_cases he : e' = e
    · subst he
      simpa using hjob
    · simpa [Function.update_of_ne he, Ne.symm he] using hjob
  refine ⟨fun job hjob => h.unstopped job (hjobs _ job hjob),
    fun e' he' job hjob => h.others e' he' job (hjobs e' job hjob), ?_, ?_, ?_, ?_, h.open_⟩
  · have hold := h.conserve
    rw [pending, hrest, msgs_nil, List.nil_append, waiting] at hold
    rw [hold]
    show _ = _ ++ (msgs f b (if e = s.exe then s.ahead e else []) ++
      msgs f b (Function.update s.ahead e [] s.exe))
    by_cases he : e = s.exe
    · rw [if_pos he, he, Function.update_self, msgs_nil, List.append_nil]
    · rw [if_neg he, Function.update_of_ne (Ne.symm he), msgs_nil, List.nil_append]
  · intro e' hreg
    show e' ∈ s.passed ++ e :: left
    rw [← hlist]
    exact h.listed e' hreg
  · intro e' hne
    have hne : Function.update s.ahead e [] e' ≠ [] := hne
    show e' ∈ s.passed ++ e :: left
    rw [← hlist]
    apply h.busy e'
    by_cases he : e' = e
    · rw [he, Function.update_self] at hne
      exact absurd rfl hne
    · rwa [Function.update_of_ne he] at hne
  · by_cases he : s.exe = e
    · refine Or.inr fun m hm => ?_
      change m ∈ msgs f b (Function.update s.ahead e [] s.exe) at hm
      rw [he, Function.update_self] at hm
      exact absurd hm List.not_mem_nil
    · rcases h.recent with hmem | hfresh
      · refine Or.inl ?_
        simpa [ActionManager.left, hphase, he] using hmem
      · refine Or.inr fun m hm => hfresh m ?_
        change m ∈ msgs f b (Function.update s.ahead e [] s.exe) at hm
        rwa [Function.update_of_ne he] at hm

theorem InOrder.skip {s : ActionManager ε μ} {f b : MailboxID} (h : InOrder f b s) {e : ε}
    {cur : Job μ} {rest : List (Job μ)} {left : List ε}
    (hphase : s.phase = .walking e (cur :: rest) left) (hcall : e = s.exe → cur.call = none) :
    InOrder f b { s with phase := .walking e rest left } := by
  apply h.of_phase s.passed
  · intro e' job hjob
    simp only [ActionManager.rest, hphase] at hjob ⊢
    split_ifs at hjob ⊢
    · exact List.mem_cons_of_mem cur hjob
    · exact hjob
  · simp only [ActionManager.rest, hphase]
    split_ifs with he
    · rw [msgs_cons_none (hcall he)]
    · rfl
  · simp [executors, here, hphase]
  · simp [ActionManager.left, hphase]

omit [DecidableEq ε] in
/-- `OnUpdate` hands a message to its handler. -/
theorem onUpdate_spec {f b : MailboxID} {s : ActionManager ε μ} (hopen : b.pid ∈ s.mailboxes)
    (cur : Job μ) : ∃ delivered, s.onUpdate cur = { s with delivered := delivered } ∧
      delivered.filter (between f b) = s.delivered.filter (between f b) ++ msgs f b [cur] := by
  unfold onUpdate
  split
  next m hcall =>
    rw [msgs_cons_some hcall, msgs_nil, List.append_nil]
    unfold sendInternalMessage
    split_ifs with hbox
    · exact ⟨s.delivered ++ [m], rfl, List.filter_append ..⟩
    · refine ⟨s.delivered, rfl, ?_⟩
      have hno : ¬between f b m = true := by
        intro hm
        simp only [between, Bool.and_eq_true, beq_iff_eq] at hm
        rw [hm.2] at hbox
        exact hbox hopen
      rw [List.filter_cons_of_neg hno, List.filter_nil, List.append_nil]
  next hcall =>
    rw [msgs_cons_none hcall, msgs_nil, List.append_nil]
    exact ⟨s.delivered, rfl, rfl⟩

/-- The message under the cursor is the first one pending. -/
theorem InOrder.deliver {s : ActionManager ε μ} {f b : MailboxID} (h : InOrder f b s) {e : ε}
    {cur : Job μ} {rest : List (Job μ)} {left : List ε}
    (hphase : s.phase = .walking e (cur :: rest) left) :
    InOrder f b { s.onUpdate cur with phase := .running e cur rest left } := by
  obtain ⟨delivered, hupdate, hnew⟩ := onUpdate_spec (f := f) h.open_ cur
  rw [hupdate]
  have hjobs : ∀ e' job, job ∈ (if e = e' then rest else []) → job ∈ s.rest e' := by
    intro e' job hjob
    simp only [ActionManager.rest, hphase]
    split_ifs at hjob ⊢
    · exact List.mem_cons_of_mem cur hjob
    · exact hjob
  have hmsgs : msgs f b (s.rest s.exe) =
      msgs f b [cur] ++ msgs f b (if e = s.exe then rest else []) := by
    by_cases he : e = s.exe
    · simp only [ActionManager.rest, hphase, if_pos he]
      exact msgs_append f b [cur] rest
    · have hcall : cur.call = none :=
        h.others e he cur (List.mem_append_right _ (by simp [ActionManager.rest, hphase]))
      simp only [ActionManager.rest, hphase, if_neg he]
      rw [msgs_cons_none hcall, msgs_nil, List.append_nil]
  have hlist : s.executors = s.passed ++ e :: left := by simp [executors, here, hphase]
  refine ⟨?_, ?_, ?_, ?_, ?_, ?_, h.open_⟩
  · intro job hjob
    apply h.unstopped
    rcases List.mem_append.mp hjob with hjob | hjob
    · exact List.mem_append_left _ hjob
    · exact List.mem_append_right _ (hjobs _ job hjob)
  · intro e' he' job hjob
    apply h.others e' he'
    rcases List.mem_append.mp hjob with hjob | hjob
    · exact List.mem_append_left _ hjob
    · exact List.mem_append_right _ (hjobs e' job hjob)
  · show s.cast.filter (between f b) = delivered.filter (between f b) ++
      (msgs f b (if e = s.exe then rest else []) ++ s.waiting f b)
    rw [h.conserve, hnew, pending, hmsgs, List.append_assoc, List.append_assoc]
  · intro e' hreg
    show e' ∈ s.passed ++ e :: left
    rw [← hlist]
    exact h.listed e' hreg
  · intro e' hne
    show e' ∈ s.passed ++ e :: left
    rw [← hlist]
    exact h.busy e' hne
  · refine h.recent.imp_left fun hmem => ?_
    simpa [ActionManager.left, hphase] using hmem

/-- An action that is not done stays where it is, now passed. -/
theorem InOrder.keep {s : ActionManager ε μ} {f b : MailboxID} (h : InOrder f b s) {e : ε}
    {cur : Job μ} {rest : List (Job μ)} {left : List ε}
    (hphase : s.phase = .running e cur rest left) (hcall : cur.call = none)
    (hstop : cur.stopped = false) :
    InOrder f b { s with
      phase := .walking e rest left
      ahead := Function.update s.ahead e (s.ahead e ++ [cur]) } := by
  have hrest : ∀ e', s.rest e' = if e = e' then rest else [] := by
    intro e'
    simp only [ActionManager.rest, hphase]
  have hlist : s.executors = s.passed ++ e :: left := by simp [executors, here, hphase]
  have hahead : ∀ e' job, job ∈ Function.update s.ahead e (s.ahead e ++ [cur]) e' →
      job = cur ∨ job ∈ s.ahead e' := by
    intro e' job hjob
    by_cases he : e' = e
    · subst he
      rw [Function.update_self, List.mem_append, List.mem_singleton] at hjob
      exact hjob.symm
    · rw [Function.update_of_ne he] at hjob
      exact Or.inr hjob
  have hmsgs : msgs f b (Function.update s.ahead e (s.ahead e ++ [cur]) s.exe) =
      s.waiting f b := by
    by_cases he : s.exe = e
    · rw [waiting, he, Function.update_self, msgs_append, msgs_cons_none hcall, msgs_nil,
        List.append_nil]
    · rw [Function.update_of_ne he, waiting]
  refine ⟨?_, ?_, ?_, ?_, ?_, ?_, h.open_⟩
  · intro job hjob
    rcases List.mem_append.mp hjob with hjob | hjob
    · rcases hahead _ job hjob with rfl | hjob
      · exact hstop
      · exact h.unstopped job (List.mem_append_left _ hjob)
    · exact h.unstopped job (List.mem_append_right _ (hrest s.exe ▸ hjob))
  · intro e' he' job hjob
    rcases List.mem_append.mp hjob with hjob | hjob
    · rcases hahead _ job hjob with rfl | hjob
      · exact hcall
      · exact h.others e' he' job (List.mem_append_left _ hjob)
    · exact h.others e' he' job (List.mem_append_right _ (hrest e' ▸ hjob))
  · show s.cast.filter (between f b) = s.delivered.filter (between f b) ++
      (msgs f b (if e = s.exe then rest else []) ++
        msgs f b (Function.update s.ahead e (s.ahead e ++ [cur]) s.exe))
    rw [hmsgs, ← hrest]
    exact h.conserve
  · intro e' hreg
    show e' ∈ s.passed ++ e :: left
    rw [← hlist]
    exact h.listed e' hreg
  · intro e' hne
    have hne : Function.update s.ahead e (s.ahead e ++ [cur]) e' ≠ [] := hne
    show e' ∈ s.passed ++ e :: left
    by_cases he : e' = e
    · rw [he]
      exact List.mem_append_right _ List.mem_cons_self
    · rw [Function.update_of_ne he] at hne
      rw [← hlist]
      exact h.busy e' hne
  · rcases h.recent with hmem | hfresh
    · refine Or.inl ?_
      simpa [ActionManager.left, hphase] using hmem
    · refine Or.inr fun m hm => hfresh m ?_
      change m ∈ msgs f b (Function.update s.ahead e (s.ahead e ++ [cur]) s.exe) at hm
      rwa [hmsgs] at hm

theorem InOrder.next {s : ActionManager ε μ} {f b : MailboxID} (h : InOrder f b s)
    (done : Bool) : InOrder f b (s.next done) := by
  unfold ActionManager.next
  split
  next => exact h
  next hphase =>
    apply h.of_phase s.passed
    · intro e job hjob
      exact absurd hjob List.not_mem_nil
    · simp [ActionManager.rest, hphase]
    · simp [executors, here, hphase]
    · simp [ActionManager.left, hphase]
  next e left hphase =>
    split
    next hnone => exact h.unregister hphase hnone
    next => exact h.walk hphase
  next e left hphase =>
    apply h.of_phase
    · intro e' job hjob
      exact absurd hjob List.not_mem_nil
    · simp [ActionManager.rest, hphase]
    · simp [executors, here, hphase]
    · simp [ActionManager.left, hphase]
  next e cur rest left hphase =>
    split_ifs with hstop
    · apply h.skip hphase
      rintro rfl
      have hmem : cur ∈ s.rest s.exe := by simp [ActionManager.rest, hphase]
      rw [h.unstopped cur (List.mem_append_right _ hmem)] at hstop
      cases hstop
    · exact h.deliver hphase
  next e cur rest left hphase =>
    split_ifs with hstop
    · apply h.of_phase s.passed
      · intro e' job hjob
        simpa [ActionManager.rest, hphase] using hjob
      · simp [ActionManager.rest, hphase]
      · simp [executors, here, hphase]
      · simp [ActionManager.left, hphase]
    · rw [Bool.or_eq_true, not_or, Bool.not_eq_true] at hstop
      apply h.keep hphase _ hstop.1
      cases hcall : cur.call with
      | none => rfl
      | some m => exact absurd (by simp [isDone, hcall]) hstop.2

theorem InOrder.step {s : ActionManager ε μ} {f b : MailboxID} (h : InOrder f b s)
    (a : Input ε μ) (hup : s.Up b a) (hturn : s.InTurn f b a) : InOrder f b (s.step a) := by
  cases a with
  | cast m => exact h.castLocal hturn
  | run e => exact h.run e
  | stopAll e => exact h.stopAllAction hup
  | register pid => exact { h with open_ := List.mem_cons_of_mem pid h.open_ }
  | unRegister pid =>
      refine { h with open_ := List.mem_filter.mpr ⟨h.open_, ?_⟩ }
      simpa using Ne.symm hup
  | update =>
      simp only [ActionManager.step]
      split
      next hphase => exact h.update hphase
      next => exact h
  | next done => exact h.next done

/-! ### `Update` ends -/

/-- How many steps `Update` has to take if nothing is pushed and every action is done. -/
def size (s : ActionManager ε μ) : Nat :=
  let visits (left : List ε) := (left.map fun e => 2 * (s.ahead e).length + 2).sum
  match s.phase with
  | .idle => 0
  | .visiting left => 1 + visits left
  | .walking _ rest left => 2 + 2 * rest.length + visits left
  | .running _ _ rest left => 3 + 2 * rest.length + visits left

omit [DecidableEq ε] in
theorem onUpdate_eq (s : ActionManager ε μ) (job : Job μ) :
    ∃ delivered, s.onUpdate job = { s with delivered := delivered } := by
  unfold onUpdate sendInternalMessage
  split
  · split_ifs
    · exact ⟨_, rfl⟩
    · exact ⟨s.delivered, rfl⟩
  · exact ⟨s.delivered, rfl⟩

theorem sum_visits_le (ahead : ε → List (Job μ)) (e : ε) (left : List ε) :
    (left.map fun e' => 2 * (Function.update ahead e [] e').length + 2).sum ≤
      (left.map fun e' => 2 * (ahead e').length + 2).sum := by
  apply List.sum_le_sum
  intro e' _
  by_cases he : e' = e
  · rw [he, Function.update_self, List.length_nil]
    omega
  · rw [Function.update_of_ne he]

theorem next_size {s : ActionManager ε μ} (h : s.phase ≠ .idle) :
    (s.next true).size < s.size := by
  unfold ActionManager.next
  split
  next hidle => exact absurd hidle h
  next hphase =>
    simp only [size, hphase]
    omega
  next e left hphase =>
    split
    next hnone =>
      simp only [size, hphase, List.map_cons, List.sum_cons]
      omega
    next =>
      have hle := sum_visits_le s.ahead e left
      simp only [size, hphase, List.map_cons, List.sum_cons]
      omega
  next e left hphase =>
    simp only [size, hphase]
    omega
  next e cur rest left hphase =>
    obtain ⟨delivered, hupdate⟩ := s.onUpdate_eq cur
    split_ifs
    · simp only [size, hphase, List.length_cons]
      omega
    · simp only [hupdate, size, hphase, List.length_cons]
      omega
  next e cur rest left hphase =>
    have hdone : isDone cur true = true := by
      unfold isDone
      split <;> rfl
    rw [hdone, Bool.or_true, if_pos rfl]
    simp only [size, hphase]
    omega

theorem next_cast (s : ActionManager ε μ) (done : Bool) :
    (s.next done).id = s.id ∧ (s.next done).cast = s.cast ∧ (s.next done).fresh = s.fresh := by
  unfold ActionManager.next
  split
  next => exact ⟨rfl, rfl, rfl⟩
  next => exact ⟨rfl, rfl, rfl⟩
  next => split <;> exact ⟨rfl, rfl, rfl⟩
  next => exact ⟨rfl, rfl, rfl⟩
  next e cur rest left hphase =>
    obtain ⟨delivered, hupdate⟩ := s.onUpdate_eq cur
    rw [hupdate]
    split_ifs <;> exact ⟨rfl, rfl, rfl⟩
  next => split_ifs <;> exact ⟨rfl, rfl, rfl⟩

theorem exists_idle (s : ActionManager ε μ) :
    ∃ n, let t := Lib.run step s (List.replicate n (.next true))
      t.phase = .idle ∧ t.cast = s.cast ∧ t.fresh = s.fresh := by
  induction hn : s.size using Nat.strong_induction_on generalizing s with
  | _ n ih =>
      by_cases hidle : s.phase = .idle
      · exact ⟨0, hidle, rfl, rfl⟩
      · obtain ⟨k, hk, hcast, hfresh⟩ := ih _ (hn ▸ next_size hidle) (s.next true) rfl
        obtain ⟨-, hc, hf⟩ := s.next_cast true
        exact ⟨k + 1, hk, hcast.trans hc, hfresh.trans hf⟩

/-! ### Runs -/

/-- The inputs of a run under which the messages from `f` to `b` keep their order. -/
def Ordered (f b : MailboxID) (s : ActionManager ε μ) (a : Input ε μ) : Prop :=
  s.Up b a ∧ s.InTurn f b a

instance (f b : MailboxID) (s : ActionManager ε μ) (a : Input ε μ) :
    Decidable (s.Ordered f b a) := by
  unfold Ordered
  infer_instance

theorem InOrder.of_run {s : ActionManager ε μ} {f b : MailboxID} {as : List (Input ε μ)}
    (h : InOrder f b s) (has : Along ActionManager.step (Ordered f b) s as) :
    InOrder f b (Lib.run ActionManager.step s as) :=
  run_invariant (fun _ a ht ha => ht.step a ha.1 ha.2) h has

theorem along_nexts (f b : MailboxID) (s : ActionManager ε μ) (n : Nat) :
    Along step (Ordered f b) s (List.replicate n (.next true)) := by
  induction n generalizing s with
  | zero => trivial
  | succ n ih => exact ⟨⟨trivial, trivial⟩, ih (s.next true)⟩

/-- The message that an input casts to a mailbox of the node with this id. -/
def given (id : UInt8) : Input ε μ → List (Msg μ)
  | .cast m => if id = m.receiver.nodeid then [m] else []
  | _ => []

/-- `cast` grows by what the inputs cast, and so does `fresh` unless `Update` begins. -/
theorem cast_step (s : ActionManager ε μ) (a : Input ε μ) :
    (s.step a).id = s.id ∧ (s.step a).cast = s.cast ++ given s.id a ∧
      (a ≠ .update → (s.step a).fresh = s.fresh ++ given s.id a) := by
  have hnone : ∀ {ms ns : List (Msg μ)}, ns = ms → ns = ms ++ [] := fun h =>
    h.trans (List.append_nil _).symm
  cases a with
  | cast m =>
      simp only [step, castLocal, given]
      split
      · exact ⟨rfl, rfl, fun _ => rfl⟩
      · exact ⟨rfl, hnone rfl, fun _ => hnone rfl⟩
  | run e => exact ⟨rfl, hnone rfl, fun _ => hnone rfl⟩
  | stopAll e => exact ⟨rfl, hnone rfl, fun _ => hnone rfl⟩
  | register pid => exact ⟨rfl, hnone rfl, fun _ => hnone rfl⟩
  | unRegister pid => exact ⟨rfl, hnone rfl, fun _ => hnone rfl⟩
  | update =>
      simp only [step]
      split
      · exact ⟨rfl, hnone rfl, fun hne => absurd rfl hne⟩
      · exact ⟨rfl, hnone rfl, fun hne => absurd rfl hne⟩
  | next done =>
      obtain ⟨hid, hcast, hfresh⟩ := s.next_cast done
      exact ⟨hid, hnone hcast, fun _ => hnone hfresh⟩

theorem cast_run (s : ActionManager ε μ) (as : List (Input ε μ)) :
    (Lib.run step s as).cast = s.cast ++ as.flatMap (given s.id) := by
  induction as generalizing s with
  | nil => exact (List.append_nil _).symm
  | cons a as ih =>
      obtain ⟨hid, hcast, -⟩ := s.cast_step a
      rw [Lib.run_cons, ih, hcast, hid, List.flatMap_cons, List.append_assoc]

/-- If every message from `f` to `b` is cast when no earlier one waits, then in every
    state of the run the handler has got the messages cast so far in their order, each
    once, up to those still pending; when `Update` has ended, these were cast after it
    began; and the next `Update` can deliver all of them. -/
theorem run_inOrder (exe : ε) (id : UInt8) (mailboxes : List UInt32) (f b : MailboxID)
    (hb : b.pid ∈ mailboxes) (as : List (Input ε μ))
    (has : Along step (Ordered f b) (start exe id mailboxes : ActionManager ε μ) as) :
    let s := Lib.run step (start exe id mailboxes : ActionManager ε μ) as
    s.cast.filter (between f b) = s.delivered.filter (between f b) ++ s.pending f b ∧
      (s.phase = .idle → (∀ m ∈ s.pending f b, m ∈ s.fresh) ∧
        ∃ n, let t := Lib.run step s (.update :: List.replicate n (.next true))
          t.phase = .idle ∧ t.delivered.filter (between f b) = s.cast.filter (between f b)) := by
  intro s
  have h : InOrder f b s := (inOrder_start hb).of_run has
  have hfresh : ∀ t : ActionManager ε μ, InOrder f b t → t.phase = .idle →
      ∀ m ∈ t.pending f b, m ∈ t.fresh := by
    intro t ht hidle m hm
    rw [pending, rest, hidle, msgs_nil, List.nil_append] at hm
    rcases ht.recent with hleft | hrecent
    · rw [left, hidle] at hleft
      exact absurd hleft List.not_mem_nil
    · exact hrecent m hm
  refine ⟨h.conserve, fun hidle => ⟨hfresh s h hidle, ?_⟩⟩
  obtain ⟨n, hend, hcast, hnew⟩ := (s.step .update).exists_idle
  have hupdate : s.step .update =
      { s with passed := [], phase := .visiting s.passed, fresh := [] } := by
    simp only [step, hidle]
  have hkept : (s.step .update).cast = s.cast := by rw [hupdate]
  have ht := (h.step .update trivial trivial).of_run (along_nexts f b _ n)
  refine ⟨n, hend, ?_⟩
  have hnone : (Lib.run step (s.step .update) (List.replicate n (.next true))).pending f b = [] := by
    rw [List.eq_nil_iff_forall_not_mem]
    intro m hm
    have := hfresh _ ht hend m hm
    rw [hnew, hupdate] at this
    exact absurd this List.not_mem_nil
  have hall := ht.conserve
  rw [hnone, List.append_nil, hcast, hkept] at hall
  exact hall.symm

/-! ### Concrete runs -/

def sender : MailboxID := ⟨1, 101⟩

def receiver : MailboxID := ⟨1, 102⟩

def message (n : Nat) : Msg Nat := ⟨sender, receiver, n⟩

/-- One message a frame; the third is cast by the handler of the second. -/
def oneByOne : List (Input Unit Nat) :=
  [.cast (message 1), .update, .next true, .next true, .next true, .next true, .next true,
    .cast (message 2), .update, .next true, .next true, .cast (message 3), .next true, .next true,
    .next true]

theorem run_inOrder_oneByOne :
    Along step (Ordered sender receiver) (start () 1 [102]) oneByOne ∧
      (Lib.run step (start () 1 [102]) oneByOne).delivered = [message 1, message 2] ∧
      ((Lib.run step (start () 1 [102]) oneByOne).cast.filter (between sender receiver) =
        (Lib.run step (start () 1 [102]) oneByOne).delivered.filter (between sender receiver) ++
          (Lib.run step (start () 1 [102]) oneByOne).pending sender receiver) := by
  have has : Along step (Ordered sender receiver) (start () 1 [102]) oneByOne := by decide
  exact ⟨has, by decide,
    (run_inOrder () 1 [102] sender receiver (by decide) oneByOne has).1⟩

/-- Two messages of one frame. -/
def twoAtOnce : List (Input Unit Nat) :=
  [.cast (message 1), .cast (message 2), .update, .next true, .next true, .next true, .next true,
    .next true, .next true, .next true]

/-- They are delivered in the other order. -/
theorem not_inOrder_twoAtOnce :
    Along step (Up receiver) (start () 1 [102]) twoAtOnce ∧
      (Lib.run step (start () 1 [102]) twoAtOnce).cast = [message 1, message 2] ∧
      (Lib.run step (start () 1 [102]) twoAtOnce).delivered = [message 2, message 1] := by
  decide

end Jengine.Action.ActionManager
