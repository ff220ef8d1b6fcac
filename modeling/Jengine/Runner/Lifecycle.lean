import Jengine.Runner.RunnerMgr

/-!
# The life of a command

The invariant of the commands.  What the trace says of a command in a queue is given by
its `executed_` and by where `Update` is, and the commands that were pushed to a queue that
exists are those that are through, followed by those in the queue.
-/

namespace Jengine.Runner

open Jengine.Lib

/-- The command whose callback runs, with its queue. -/
def Phase.top : Phase → Option (Nat × Nat)
  | .inSetup q c | .inExecute q c | .inCleanup q c => some (q, c)
  | _ => none

/-- What the trace says of a command that is in a queue. -/
def Phase.story (p : Phase) (executed : Bool) (c : Nat) : List Event :=
  let base : List Event := if executed then [.setup c, .ready c, .execute c] else []
  match p with
  | .inSetup _ top => if top = c then [.setup c] else base
  | .inCleanup _ top => if top = c then [.setup c, .ready c, .execute c, .cleanup c] else base
  | _ => base

theorem Phase.story_of_not_top {p : Phase} {c : Nat} (h : ∀ q, p.top ≠ some (q, c)) :
    p.story false c = [] := by
  cases p with
  | idle | loop | inExecute => rfl
  | inSetup q top | inCleanup q top =>
      have hne : ¬ top = c := fun heq => h q (by rw [← heq]; rfl)
      simp [Phase.story, hne]

/-- The event is a part of the life of a command. -/
def Event.concerns (c : Nat) : Event → Bool
  | .setup d | .ready d | .failed d | .execute d | .cleanup d | .delete d => d == c
  | _ => false

namespace RunnerMgr

/-- What a trace says of a command. -/
def story (c : Nat) (t : List Event) : List Event := t.filter (Event.concerns c)

/-- What the trace tells of the commands. -/
structure Tells (s : RunnerMgr) : Prop where
  fresh : ∀ c, (s.commands c).runner = none →
    story c s.trace = [] ∧ (s.commands c).executed = false
  waiting : ∀ r, ∀ c ∈ (s.queues r).cmds, (s.commands c).runner = some r ∧
    story c s.trace = s.phase.story (s.commands c).executed c
  tail : ∀ r, ∀ c ∈ (s.queues r).cmds.tail, (s.commands c).executed = false
  top : ∀ q c, s.phase.top = some (q, c) → (s.queues q).cmds.head? = some c
  ran : ∀ q c, s.phase = .inExecute q c → (s.commands c).executed = true
  finish : ∀ c, (s.commands c).finish = true → .stop c ∈ s.trace
  pushed : ∀ r c, c ∈ pushes r s.trace ↔ (s.commands c).runner = some r
  nodup : ∀ r, (pushes r s.trace).Nodup
  through : ∀ r, ∃ done, pushes r s.trace = done ++ (s.queues r).cmds ∧
    (∀ d ∈ done, .delete d ∈ s.trace) ∧
    ((s.queues r).referenceCount ≠ 0 → ∀ d ∈ done, Finished d s.trace)
  unborn : ∀ r, s.life r = .unborn → pushes r s.trace = []
  lawful : Lawful s.trace

/-! ### Stories -/

theorem mem_story {c : Nat} {e : Event} {t : List Event} (he : e.concerns c = true) :
    e ∈ story c t ↔ e ∈ t := by
  rw [story, List.mem_filter, and_iff_left he]

theorem story_append (c : Nat) (t es : List Event) :
    story c (t ++ es) = story c t ++ story c es := List.filter_append ..

theorem story_append_of_not {c : Nat} {es : List Event} (h : ∀ e ∈ es, e.concerns c = false)
    (t : List Event) : story c (t ++ es) = story c t := by
  have hnil : story c es = [] := by
    apply List.filter_eq_nil_iff.mpr
    intro e he
    rw [h e he]
    exact Bool.false_ne_true
  rw [story_append, hnil, List.append_nil]

theorem delete_notMem_story (p : Phase) (executed : Bool) (c : Nat) :
    Event.delete c ∉ p.story executed c := by
  unfold Phase.story
  cases executed <;> cases p <;> simp <;> split <;> simp

theorem pushes_append (r : Nat) (t es : List Event) :
    pushes r (t ++ es) = pushes r t ++ pushes r es := List.filterMap_append

theorem mem_pushes {r c : Nat} {t : List Event} : c ∈ pushes r t ↔ .pushed r c ∈ t := by
  rw [pushes, List.mem_filterMap]
  constructor
  · rintro ⟨e, he, heq⟩
    cases e <;> simp only [reduceCtorEq, Option.ite_none_right_eq_some, Option.some.injEq] at heq
    obtain ⟨rfl, rfl⟩ := heq
    exact he
  · exact fun h => ⟨_, h, by simp⟩

theorem Finished.append {d : Nat} {t : List Event} (h : Finished d t) (es : List Event) :
    Finished d (t ++ es) :=
  ⟨List.mem_append_left _ h.1, h.2.imp (List.mem_append_left _) (List.mem_append_left _)⟩

theorem lawful_deletes {cs : List Nat} {t : List Event} (h : Lawful t) (hnodup : cs.Nodup)
    (hcs : ∀ c ∈ cs, .delete c ∉ t) : Lawful (t ++ cs.map .delete) := by
  induction cs generalizing t with
  | nil => rwa [List.map_nil, List.append_nil]
  | cons c cs ih =>
      obtain ⟨hc, hnodup'⟩ := List.nodup_cons.mp hnodup
      rw [List.map_cons, List.append_cons]
      have hallowed : Allowed t (.delete c) := hcs c List.mem_cons_self
      apply ih (lawful_snoc.mpr ⟨h, hallowed⟩) hnodup'
      intro d hd hmem
      rcases List.mem_append.mp hmem with hmem | hmem
      · exact hcs d (List.mem_cons_of_mem c hd) hmem
      · cases List.mem_singleton.mp hmem
        exact hc hd

namespace Tells

variable {s : RunnerMgr}

theorem not_deleted (h : Tells s) {r c : Nat} (hc : c ∈ (s.queues r).cmds) :
    .delete c ∉ s.trace := by
  rw [← mem_story (c := c) (by simp [Event.concerns]), (h.waiting r c hc).2]
  exact delete_notMem_story _ _ _

theorem nodup_cmds (h : Tells s) (r : Nat) : (s.queues r).cmds.Nodup := by
  obtain ⟨done, heq, -⟩ := h.through r
  have hnodup := h.nodup r
  rw [heq] at hnodup
  exact hnodup.of_append_right

/-- Something happened that is no part of the life of a command. -/
theorem extend (h : Tells s) {t : RunnerMgr} (es : List Event)
    (hcommands : ∀ c, (t.commands c).runner = (s.commands c).runner ∧
      (t.commands c).executed = (s.commands c).executed)
    (hfinish : ∀ c, (t.commands c).finish = true → .stop c ∈ t.trace)
    (hcmds : ∀ r, (t.queues r).cmds = (s.queues r).cmds)
    (hrefs : ∀ r, (t.queues r).referenceCount ≠ 0 →
      (s.queues r).referenceCount ≠ 0 ∨ pushes r s.trace = [])
    (hlife : ∀ r, t.life r = .unborn → s.life r = .unborn)
    (htop : ∀ q c, t.phase.top = some (q, c) → s.phase.top = some (q, c))
    (hran : ∀ q c, t.phase = .inExecute q c → s.phase = .inExecute q c)
    (hstory : t.phase.story = s.phase.story) (htrace : t.trace = s.trace ++ es)
    (hes : ∀ e ∈ es, ∀ c, e.concerns c = false) (hpushes : ∀ r, pushes r es = [])
    (hlawful : Lawful t.trace) : Tells t := by
  have hkeep : ∀ c, story c t.trace = story c s.trace := by
    intro c
    rw [htrace, story_append_of_not fun e he => hes e he c]
  have hsame : ∀ r, pushes r t.trace = pushes r s.trace := by
    intro r
    rw [htrace, pushes_append, hpushes, List.append_nil]
  constructor
  case fresh =>
      intro c
      rw [(hcommands c).1, (hcommands c).2, hkeep]
      exact h.fresh c
  case waiting =>
      intro r c
      rw [hcmds, (hcommands c).1, (hcommands c).2, hkeep, hstory]
      exact h.waiting r c
  case tail =>
      intro r c
      rw [hcmds, (hcommands c).2]
      exact h.tail r c
  case top =>
      intro q c hphase
      rw [hcmds]
      exact h.top q c (htop q c hphase)
  case ran =>
      intro q c hphase
      rw [(hcommands c).2]
      exact h.ran q c (hran q c hphase)
  case finish => exact hfinish
  case pushed =>
      intro r c
      rw [(hcommands c).1, hsame]
      exact h.pushed r c
  case nodup =>
      intro r
      rw [hsame]
      exact h.nodup r
  case through =>
      intro r
      obtain ⟨done, heq, hdelete, hdone⟩ := h.through r
      rw [hsame, hcmds, htrace]
      refine ⟨done, heq, fun d hd => List.mem_append_left _ (hdelete d hd), fun hr d hd => ?_⟩
      rcases hrefs r hr with hr' | hnil
      · exact (hdone hr' d hd).append es
      · rw [heq, List.append_eq_nil_iff] at hnil
        rw [hnil.1] at hd
        exact absurd hd List.not_mem_nil
  case unborn =>
      intro r hr
      rw [hsame]
      exact h.unborn r (hlife r hr)
  case lawful => exact hlawful

/-- Only the list, the references and the place of `Update` changed. -/
theorem congr (h : Tells s) {t : RunnerMgr} (hcommands : t.commands = s.commands)
    (hcmds : ∀ r, (t.queues r).cmds = (s.queues r).cmds)
    (hrefs : ∀ r, (t.queues r).referenceCount ≠ 0 →
      (s.queues r).referenceCount ≠ 0 ∨ pushes r s.trace = [])
    (hlife : ∀ r, t.life r = .unborn → s.life r = .unborn)
    (htop : ∀ q c, t.phase.top = some (q, c) → s.phase.top = some (q, c))
    (hran : ∀ q c, t.phase = .inExecute q c → s.phase = .inExecute q c)
    (hstory : t.phase.story = s.phase.story) (htrace : t.trace = s.trace) : Tells t := by
  refine h.extend [] ?_ ?_ hcmds hrefs hlife htop hran hstory ?_ ?_ ?_ ?_
  · rw [hcommands]
    exact fun c => ⟨rfl, rfl⟩
  · rw [hcommands, htrace]
    exact h.finish
  · rw [htrace, List.append_nil]
  · exact fun e he => absurd he List.not_mem_nil
  · exact fun r => rfl
  · rw [htrace]
    exact h.lawful

theorem runner_of_mem (h : Tells s) {r c : Nat} (hc : c ∈ (s.queues r).cmds) :
    (s.commands c).runner = some r := (h.waiting r c hc).1

/-- A command is in one queue. -/
theorem queue_unique (h : Tells s) {r r' c : Nat} (hc : c ∈ (s.queues r).cmds)
    (hc' : c ∈ (s.queues r').cmds) : r = r' :=
  Option.some.inj ((h.runner_of_mem hc).symm.trans (h.runner_of_mem hc'))

/-- What stands behind the front of a queue is not the front of any. -/
theorem ne_top_of_tail (h : Tells s) {q r top c : Nat} (htop : (s.queues q).cmds.head? = some top)
    (hc : c ∈ (s.queues r).cmds.tail) : c ≠ top := by
  rintro rfl
  have hr := h.queue_unique (List.mem_of_mem_tail hc) (List.mem_of_mem_head? htop)
  subst hr
  have hnodup := h.nodup_cmds r
  cases hcmds : (s.queues r).cmds with
  | nil =>
      rw [hcmds] at htop
      cases htop
  | cons d ds =>
      rw [hcmds] at hc htop hnodup
      cases htop
      exact (List.nodup_cons.mp hnodup).1 hc

/-- The front of a queue goes on to the next part of its life. -/
theorem advance (h : Tells s) {q top : Nat} (htop : (s.queues q).cmds.head? = some top)
    {es : List Event} (hes : ∀ e ∈ es, ∀ c, c ≠ top → e.concerns c = false)
    (hpushes : ∀ r, pushes r es = []) {executed : Bool} {p : Phase}
    (hothers : ∀ c, c ≠ top → ∀ ex, p.story ex c = s.phase.story ex c)
    (hstory : story top (s.trace ++ es) = p.story executed top)
    (hp : ∀ q' c, p.top = some (q', c) → q' = q ∧ c = top)
    (hran : ∀ q' c, p = .inExecute q' c → c = top ∧ executed = true)
    (hlawful : Lawful (s.trace ++ es)) :
    Tells { s with
      commands := Function.update s.commands top { s.commands top with executed := executed }
      phase := p
      trace := s.trace ++ es } := by
  have hmem : top ∈ (s.queues q).cmds := List.mem_of_mem_head? htop
  have hrunner := h.runner_of_mem hmem
  have hcommand : ∀ c, (Function.update s.commands top { s.commands top with executed := executed }
      c).runner = (s.commands c).runner ∧
      (Function.update s.commands top { s.commands top with executed := executed } c).finish =
        (s.commands c).finish ∧
      (c ≠ top → (Function.update s.commands top { s.commands top with executed := executed }
        c).executed = (s.commands c).executed) := by
    intro c
    by_cases heq : c = top
    · subst heq
      simp
    · simp [Function.update_of_ne heq]
  constructor
  case fresh =>
      intro c hc
      rw [(hcommand c).1] at hc
      have hne : c ≠ top := by
        rintro rfl
        cases hc.symm.trans hrunner
      simp only [(hcommand c).2.2 hne, story_append_of_not fun e he => hes e he c hne]
      exact h.fresh c hc
  case waiting =>
      intro r c hc
      simp only [(hcommand c).1]
      by_cases heq : c = top
      · subst heq
        simp only [Function.update_self]
        exact ⟨h.runner_of_mem hc, hstory⟩
      · obtain ⟨howner, htold⟩ := h.waiting r c hc
        simp only [(hcommand c).2.2 heq, story_append_of_not fun e he => hes e he c heq, hothers c heq]
        exact ⟨howner, htold⟩
  case tail =>
      intro r c hc
      simp only [(hcommand c).2.2 (h.ne_top_of_tail htop hc)]
      exact h.tail r c hc
  case top =>
      intro q' c hc
      obtain ⟨rfl, rfl⟩ := hp q' c hc
      exact htop
  case ran =>
      intro q' c hc
      obtain ⟨rfl, hexecuted⟩ := hran q' c hc
      simp only [Function.update_self]
      exact hexecuted
  case finish =>
      intro c hc
      rw [(hcommand c).2.1] at hc
      exact List.mem_append_left _ (h.finish c hc)
  case pushed =>
      intro r c
      simp only [(hcommand c).1, pushes_append, hpushes, List.append_nil]
      exact h.pushed r c
  case nodup =>
      intro r
      simp only [pushes_append, hpushes, List.append_nil]
      exact h.nodup r
  case through =>
      intro r
      obtain ⟨done, heq, hdelete, hdone⟩ := h.through r
      refine ⟨done, ?_, ?_, ?_⟩
      · simp only [pushes_append, hpushes, List.append_nil]
        exact heq
      · exact fun d hd => List.mem_append_left _ (hdelete d hd)
      · exact fun hr d hd => (hdone hr d hd).append es
  case unborn =>
      intro r hr
      simp only [pushes_append, hpushes, List.append_nil]
      exact h.unborn r hr
  case lawful => exact hlawful

theorem proceed (h : Tells s) {q top : Nat} (htop : (s.queues q).cmds.head? = some top)
    {es : List Event} (hes : ∀ e ∈ es, ∀ c, c ≠ top → e.concerns c = false)
    (hpushes : ∀ r, pushes r es = []) {p : Phase}
    (hothers : ∀ c, c ≠ top → ∀ ex, p.story ex c = s.phase.story ex c)
    (hstory : story top (s.trace ++ es) = p.story (s.commands top).executed top)
    (hp : ∀ q' c, p.top = some (q', c) → q' = q ∧ c = top)
    (hran : ∀ q' c, p = .inExecute q' c → c = top ∧ (s.commands top).executed = true)
    (hlawful : Lawful (s.trace ++ es)) : Tells { s.emit es with phase := p } := by
  have hsame : Function.update s.commands top
      { s.commands top with executed := (s.commands top).executed } = s.commands :=
    Function.update_eq_self _ _
  have hadvance := h.advance htop hes hpushes hothers hstory hp hran hlawful
  rw [hsame] at hadvance
  exact hadvance

/-- The front of a queue is through. -/
theorem pop (h : Tells s) {q top : Nat} (htop : (s.queues q).cmds.head? = some top)
    (es : List Event) (hes : ∀ e ∈ es, ∀ c, c ≠ top → e.concerns c = false)
    (hpushes : ∀ r, pushes r es = [])
    (hothers : ∀ c, c ≠ top → ∀ ex, (Phase.loop (some q)).story ex c = s.phase.story ex c)
    (hlawful : Lawful (s.trace ++ es)) (hdelete : .delete top ∉ s.trace ++ es)
    (hend : .failed top ∈ s.trace ++ es ∨ .cleanup top ∈ s.trace ++ es) :
    Tells ((s.emit es).pop q top) := by
  have hmem : top ∈ (s.queues q).cmds := List.mem_of_mem_head? htop
  have heq : (s.emit es).pop q top =
      { s with
        commands := Function.update s.commands top { s.commands top with deleted := true }
        queues := Function.update s.queues q
          { s.queues q with cmds := (s.queues q).cmds.tail }
        phase := .loop (some q)
        trace := s.trace ++ (es ++ [.delete top]) } := by
    rw [← List.append_assoc]
    rfl
  have hes' : ∀ e ∈ es ++ [.delete top], ∀ c, c ≠ top → e.concerns c = false := by
    intro e he c hc
    rcases List.mem_append.mp he with he | he
    · exact hes e he c hc
    · rw [List.mem_singleton.mp he]
      simpa [Event.concerns] using hc.symm
  have hpushes' : ∀ r, pushes r (es ++ [.delete top]) = [] := by
    intro r
    rw [pushes_append, hpushes]
    rfl
  have hcommand : ∀ c, (Function.update s.commands top { s.commands top with deleted := true }
      c).runner = (s.commands c).runner ∧
      (Function.update s.commands top { s.commands top with deleted := true } c).finish =
        (s.commands c).finish ∧
      (Function.update s.commands top { s.commands top with deleted := true } c).executed =
        (s.commands c).executed := by
    intro c
    by_cases heq : c = top
    · subst heq
      simp
    · simp [Function.update_of_ne heq]
  -- what is left in the queues does not include the front that is popped
  have hleft : ∀ r c, c ∈ (Function.update s.queues q
      { s.queues q with cmds := (s.queues q).cmds.tail } r).cmds → c ≠ top ∧ c ∈ (s.queues r).cmds := by
    intro r c hc
    by_cases hr : r = q
    · subst hr
      rw [Function.update_self] at hc
      exact ⟨h.ne_top_of_tail htop hc, List.mem_of_mem_tail hc⟩
    · rw [Function.update_of_ne hr] at hc
      refine ⟨?_, hc⟩
      rintro rfl
      exact hr (h.queue_unique hc hmem)
  rw [heq]
  constructor
  case fresh =>
      intro c hc
      rw [(hcommand c).1] at hc
      have hne : c ≠ top := by
        rintro rfl
        cases hc.symm.trans (h.runner_of_mem hmem)
      simp only [(hcommand c).2.2, story_append_of_not fun e he => hes' e he c hne]
      exact h.fresh c hc
  case waiting =>
      intro r c hc
      obtain ⟨hne, hc⟩ := hleft r c hc
      obtain ⟨howner, htold⟩ := h.waiting r c hc
      simp only [(hcommand c).1, (hcommand c).2.2, story_append_of_not fun e he => hes' e he c hne,
        hothers c hne]
      exact ⟨howner, htold⟩
  case tail =>
      intro r c hc
      simp only [(hcommand c).2.2]
      by_cases hr : r = q
      · subst hr
        simp only [Function.update_self] at hc
        exact h.tail r c (List.mem_of_mem_tail hc)
      · simp only [Function.update_of_ne hr] at hc
        exact h.tail r c hc
  case top => exact fun _ _ hc => by cases hc
  case ran => exact fun _ _ hc => by cases hc
  case finish =>
      intro c hc
      rw [(hcommand c).2.1] at hc
      exact List.mem_append_left _ (h.finish c hc)
  case pushed =>
      intro r c
      simp only [(hcommand c).1, pushes_append, hpushes', List.append_nil]
      exact h.pushed r c
  case nodup =>
      intro r
      simp only [pushes_append, hpushes', List.append_nil]
      exact h.nodup r
  case through =>
      intro r
      obtain ⟨done, hdone, hdeleted, hfinished⟩ := h.through r
      simp only [pushes_append, hpushes', List.append_nil]
      by_cases hr : r = q
      · subst hr
        simp only [Function.update_self]
        have hcmds : (s.queues r).cmds = top :: (s.queues r).cmds.tail :=
          (List.cons_head?_tail htop).symm
        refine ⟨done ++ [top], ?_, ?_, ?_⟩
        · rw [List.append_assoc, List.singleton_append, ← hcmds]
          exact hdone
        · intro d hd
          rcases List.mem_append.mp hd with hd | hd
          · exact List.mem_append_left _ (hdeleted d hd)
          · rw [List.mem_singleton.mp hd]
            simp
        · intro hrefs d hd
          rcases List.mem_append.mp hd with hd | hd
          · exact (hfinished hrefs d hd).append _
          · rw [List.mem_singleton.mp hd, ← List.append_assoc]
            exact ⟨by simp, hend.imp (List.mem_append_left _) (List.mem_append_left _)⟩
      · simp only [Function.update_of_ne hr]
        exact ⟨done, hdone, fun d hd => List.mem_append_left _ (hdeleted d hd),
          fun hrefs d hd => (hfinished hrefs d hd).append _⟩
  case unborn =>
      intro r hr
      simp only [pushes_append, hpushes', List.append_nil]
      exact h.unborn r hr
  case lawful =>
      simp only [← List.append_assoc]
      exact lawful_snoc.mpr ⟨hlawful, hdelete⟩

/-- A new command is pushed. -/
theorem push (h : Tells s) {q c : Nat} (hnone : (s.commands c).runner = none)
    (hrefs : (s.queues q).referenceCount ≠ 0) (hborn : s.life q ≠ .unborn) :
    Tells (s.push q c) := by
  have hcommand : ∀ d, d ≠ c → (s.push q c).commands d = s.commands d := fun d hd =>
    Function.update_of_ne hd _ _
  have hself : (s.push q c).commands c = { s.commands c with runner := some q } :=
    Function.update_self _ _ _
  have hexecuted : ∀ d, ((s.push q c).commands d).executed = (s.commands d).executed := by
    intro d
    by_cases hd : d = c
    · rw [hd, hself]
    · rw [hcommand d hd]
  have hqueue : (s.push q c).queues q =
      { s.queues q with cmds := (s.queues q).cmds ++ [c] } := Function.update_self _ _ _
  have hqueues : ∀ r, r ≠ q → (s.push q c).queues r = s.queues r := fun r hr =>
    Function.update_of_ne hr _ _
  have hstory : ∀ d, story d (s.push q c).trace = story d s.trace := fun d =>
    story_append_of_not (by simp [Event.concerns]) _
  have hpushes : ∀ r, pushes r (s.push q c).trace =
      pushes r s.trace ++ (if q = r then [c] else []) := by
    intro r
    have htrace : (s.push q c).trace = s.trace ++ [.pushed q c] := rfl
    rw [htrace, pushes_append]
    by_cases hr : q = r <;> simp [pushes, hr]
  -- a command that has a runner is not the new one
  have hold : ∀ {r d}, d ∈ (s.queues r).cmds → d ≠ c := by
    rintro r d hd rfl
    cases hnone.symm.trans (h.runner_of_mem hd)
  obtain ⟨htold, hfresh⟩ := h.fresh c hnone
  have hunpushed : ∀ r, c ∉ pushes r s.trace := by
    intro r hc
    cases hnone.symm.trans ((h.pushed r c).mp hc)
  constructor
  case fresh =>
      intro d hd
      have hne : d ≠ c := by
        rintro rfl
        rw [hself] at hd
        cases hd
      rw [hcommand d hne] at hd ⊢
      rw [hstory]
      exact h.fresh d hd
  case waiting =>
      intro r d hd
      rw [hstory, hexecuted]
      by_cases hr : r = q
      · subst hr
        rw [hqueue] at hd
        rcases List.mem_append.mp hd with hd | hd
        · rw [hcommand d (hold hd)]
          exact h.waiting r d hd
        · rw [List.mem_singleton.mp hd, hself]
          refine ⟨rfl, ?_⟩
          rw [htold, hfresh]
          symm
          apply Phase.story_of_not_top
          intro q' htop
          exact hold (List.mem_of_mem_head? (h.top q' c htop)) rfl
      · rw [hqueues r hr] at hd
        rw [hcommand d (hold hd)]
        exact h.waiting r d hd
  case tail =>
      intro r d hd
      rw [hexecuted]
      by_cases hr : r = q
      · subst hr
        rw [hqueue] at hd
        cases hcmds : (s.queues r).cmds with
        | nil =>
          rw [hcmds] at hd
          cases hd
        | cons e ds =>
          rw [hcmds, List.cons_append, List.tail_cons] at hd
          rcases List.mem_append.mp hd with hd | hd
          · exact h.tail r d (by rw [hcmds]; exact hd)
          · rw [List.mem_singleton.mp hd]
            exact hfresh
      · rw [hqueues r hr] at hd
        exact h.tail r d hd
  case top =>
      intro q' d htop
      have hhead := h.top q' d htop
      by_cases hq : q' = q
      · subst hq
        rw [hqueue, List.head?_append, hhead]
        rfl
      · rw [hqueues q' hq]
        exact hhead
  case ran =>
      intro q' d hphase
      rw [hexecuted]
      exact h.ran q' d hphase
  case finish =>
      intro d hd
      refine List.mem_append_left _ (h.finish d ?_)
      by_cases hdc : d = c
      · rw [hdc, hself] at hd
        rw [hdc]
        exact hd
      · rwa [hcommand d hdc] at hd
  case pushed =>
      intro r d
      rw [hpushes, List.mem_append]
      by_cases hdc : d = c
      · rw [hdc, hself]
        simp only [hunpushed r, false_or, Option.some.injEq]
        split <;> simp_all
      · have hnot : d ∉ (if q = r then [c] else []) := by
          split <;> simp [hdc]
        rw [hcommand d hdc, or_iff_left hnot]
        exact h.pushed r d
  case nodup =>
      intro r
      rw [hpushes]
      split
      · exact List.nodup_append.mpr ⟨h.nodup r, List.nodup_singleton c, fun d hd e he => by
          rw [List.mem_singleton.mp he]
          exact fun heq => hunpushed r (heq ▸ hd)⟩
      · rw [List.append_nil]
        exact h.nodup r
  case through =>
      intro r
      obtain ⟨done, heq, hdelete, hdone⟩ := h.through r
      refine ⟨done, ?_, fun d hd => List.mem_append_left _ (hdelete d hd),
        fun hr d hd => (hdone ?_ d hd).append _⟩
      · rw [hpushes, heq, List.append_assoc]
        by_cases hr : q = r
        · rw [if_pos hr, ← hr, hqueue]
        · rw [if_neg hr, List.append_nil, hqueues r (Ne.symm hr)]
      · by_cases hr' : r = q
        · rw [hr']
          exact hrefs
        · rwa [hqueues r hr'] at hr
  case unborn =>
      intro r hr
      have hne : ¬ q = r := by
        rintro rfl
        exact hborn hr
      rw [hpushes, if_neg hne, List.append_nil]
      exact h.unborn r hr
  case lawful =>
      refine lawful_snoc.mpr ⟨h.lawful, fun r hmem => ?_⟩
      exact hunpushed r (mem_pushes.mpr hmem)

/-- `Stop` is called. -/
theorem stop (h : Tells s) (c : Nat) : Tells (s.stop c) := by
  have hcommand : ∀ d, d ≠ c → (s.stop c).commands d = s.commands d := fun d hd =>
    Function.update_of_ne hd _ _
  have hself : (s.stop c).commands c = { s.commands c with finish := true } :=
    Function.update_self _ _ _
  refine h.extend [.stop c] ?_ ?_ (fun _ => rfl) (fun _ => .inl) (fun _ => id)
    (fun _ _ => id) (fun _ _ => id) rfl rfl (by simp [Event.concerns]) (fun _ => rfl)
    (lawful_snoc.mpr ⟨h.lawful, trivial⟩)
  · intro d
    by_cases hd : d = c
    · rw [hd, hself]
      exact ⟨rfl, rfl⟩
    · rw [hcommand d hd]
      exact ⟨rfl, rfl⟩
  · intro d hfinish
    by_cases hd : d = c
    · rw [hd]
      exact List.mem_append_right _ (List.mem_singleton_self _)
    · rw [hcommand d hd] at hfinish
      exact List.mem_append_left _ (h.finish d hfinish)

end Tells

theorem foldl_deleteCommand (cs : List Nat) (s : RunnerMgr) :
    ∃ commands, cs.foldl deleteCommand s =
        { s with commands := commands, trace := s.trace ++ cs.map .delete } ∧
      ∀ c, (commands c).runner = (s.commands c).runner ∧
        (commands c).executed = (s.commands c).executed ∧
        (commands c).finish = (s.commands c).finish := by
  induction cs generalizing s with
  | nil => exact ⟨s.commands, by simp, fun c => ⟨rfl, rfl, rfl⟩⟩
  | cons d cs ih =>
      obtain ⟨commands, heq, hcommands⟩ := ih (s.deleteCommand d)
      refine ⟨commands, ?_, fun c => ?_⟩
      · rw [List.foldl_cons, heq, List.map_cons, List.append_cons]
        rfl
      · obtain ⟨hrunner, hexecuted, hfinish⟩ := hcommands c
        rw [hrunner, hexecuted, hfinish]
        by_cases hc : c = d
        · subst hc
          simp [deleteCommand, emit, setCommand]
        · simp [deleteCommand, emit, setCommand, Function.update_of_ne hc]

theorem story_deletes {c : Nat} {cs : List Nat} (hc : c ∉ cs) (t : List Event) :
    story c (t ++ cs.map .delete) = story c t := by
  apply story_append_of_not
  intro e he
  obtain ⟨d, hd, rfl⟩ := List.mem_map.mp he
  have hne : d ≠ c := fun heq => hc (heq ▸ hd)
  simpa [Event.concerns] using hne

theorem pushes_deletes (r : Nat) (cs : List Nat) (t : List Event) :
    pushes r (t ++ cs.map .delete) = pushes r t := by
  have hnil : pushes r (cs.map .delete) = [] := by simp [pushes, List.filterMap_map]
  rw [pushes_append, hnil, List.append_nil]

namespace Tells

variable {s : RunnerMgr}

/-- A queue without references is destroyed. -/
theorem destroyQueue (h : Tells s) {q : Nat} (hrefs : (s.queues q).referenceCount = 0)
    (htop : ∀ c, s.phase.top ≠ some (q, c)) : Tells (s.destroyQueue q) := by
  obtain ⟨commands, heq, hcommands⟩ := foldl_deleteCommand (s.queues q).cmds
    (s.setQueue q { s.queues q with cmds := [] })
  have hothers : ∀ r, r ≠ q → (Function.update s.queues q
      { s.queues q with cmds := ([] : List Nat) }) r = s.queues r := fun r hr =>
    Function.update_of_ne hr _ _
  have hleft : ∀ r c, c ∈ ((Function.update s.queues q { s.queues q with cmds := [] }) r).cmds →
      r ≠ q ∧ c ∈ (s.queues r).cmds := by
    intro r c hc
    by_cases hr : r = q
    · subst hr
      rw [Function.update_self] at hc
      cases hc
    · rw [hothers r hr] at hc
      exact ⟨hr, hc⟩
  have hdestroy : s.destroyQueue q =
      { s with
        commands := commands
        queues := Function.update s.queues q { s.queues q with cmds := [] }
        trace := s.trace ++ (s.queues q).cmds.map .delete } := heq
  change ∀ c, (commands c).runner = (s.commands c).runner ∧
    (commands c).executed = (s.commands c).executed ∧
    (commands c).finish = (s.commands c).finish at hcommands
  rw [hdestroy]
  constructor
  case fresh =>
      intro c hc
      rw [(hcommands c).1] at hc
      have hnot : c ∉ (s.queues q).cmds := by
        intro hmem
        cases hc.symm.trans (h.runner_of_mem hmem)
      simp only [(hcommands c).2.1, story_deletes hnot]
      exact h.fresh c hc
  case waiting =>
      intro r c hc
      obtain ⟨hr, hc⟩ := hleft r c hc
      have hnot : c ∉ (s.queues q).cmds := fun hmem => hr (h.queue_unique hc hmem)
      simp only [(hcommands c).1, (hcommands c).2.1, story_deletes hnot]
      exact h.waiting r c hc
  case tail =>
      intro r c hc
      have hr := (hleft r c (List.mem_of_mem_tail hc)).1
      simp only [hothers r hr] at hc
      simp only [(hcommands c).2.1]
      exact h.tail r c hc
  case top =>
      intro q' c hc
      have hne : q' ≠ q := by
        rintro rfl
        exact htop c hc
      simp only [hothers q' hne]
      exact h.top q' c hc
  case ran =>
      intro q' c hphase
      simp only [(hcommands c).2.1]
      exact h.ran q' c hphase
  case finish =>
      intro c hc
      rw [(hcommands c).2.2] at hc
      exact List.mem_append_left _ (h.finish c hc)
  case pushed =>
      intro r c
      simp only [(hcommands c).1, pushes_deletes]
      exact h.pushed r c
  case nodup =>
      intro r
      simp only [pushes_deletes]
      exact h.nodup r
  case through =>
      intro r
      obtain ⟨done, hdone, hdeleted, hfinished⟩ := h.through r
      simp only [pushes_deletes]
      by_cases hr : r = q
      · subst hr
        simp only [Function.update_self, List.append_nil]
        refine ⟨_, hdone, ?_, fun hne => absurd hrefs hne⟩
        intro d hd
        rcases List.mem_append.mp hd with hd | hd
        · exact List.mem_append_left _ (hdeleted d hd)
        · exact List.mem_append_right _ (List.mem_map_of_mem hd)
      · simp only [hothers r hr]
        exact ⟨done, hdone, fun d hd => List.mem_append_left _ (hdeleted d hd),
          fun hne d hd => (hfinished hne d hd).append _⟩
  case unborn =>
      intro r hr
      simp only [pushes_deletes]
      exact h.unborn r hr
  case lawful =>
      exact lawful_deletes h.lawful (h.nodup_cmds q) fun c hc => h.not_deleted hc

/-- A reference to a queue is released. -/
theorem release (h : Tells s) {q : Nat}
    (htop : (s.queues q).referenceCount - 1 = 0 → ∀ c, s.phase.top ≠ some (q, c)) :
    Tells (s.release q) := by
  have hset : Tells (s.setQueue q
      { s.queues q with referenceCount := (s.queues q).referenceCount - 1 }) := by
    refine h.congr rfl ?_ ?_ (fun _ => id) (fun _ _ => id) (fun _ _ => id) rfl rfl
    · intro r
      by_cases hr : r = q
      · subst hr
        simp [setQueue]
      · simp [setQueue, Function.update_of_ne hr]
    · intro r
      by_cases hr : r = q
      · subst hr
        simp only [setQueue, Function.update_self]
        exact fun hne => .inl fun hzero => hne (by rw [hzero])
      · simp only [setQueue, Function.update_of_ne hr]
        exact .inl
  rw [RunnerMgr.release]
  split
  · rename_i hzero
    refine hset.destroyQueue ?_ (htop hzero)
    simpa [setQueue] using hzero
  · exact hset

end Tells

end RunnerMgr

end Jengine.Runner
