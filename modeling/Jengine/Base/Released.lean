import Jengine.Base.Timer
import Jengine.Lib.Runs
import Mathlib.Data.List.Perm.Subperm

/-!
# Timers whose linker is released

An owner retains the linker of an interval and releases it to stop the interval
(`GateSession::StartTimer`, `StopTimer`).  From then on the callback is not run any more.
The action itself stays: `Update` puts every interval back, whether its linker has been
released or not, so it is visited again and again.

The machine takes the operations of a timer in any order.  A linker is released when no
reference is left but that of its action.
-/

namespace Jengine.Base.Timer

open Jengine.Lib

/-- What is done with a timer. -/
inductive Action where
  | perform (op : Op)
  | update (tick : Int) (cb : Callbacks tick)
  | stopAll

/-- A step.  There is fuel for every element of the queue; `update_spec` says that this is
    enough. -/
def step (s : Timer) : Action → Timer
  | .perform op => s.perform op
  | .update _ cb => (s.update cb (s.delayqueue.nodes.length + 1)).getD s
  | .stopAll => s.stopAll

/-- The visits of a step. -/
def newVisits (s : Timer) (a : Action) : List Visit := (s.step a).visits.drop s.visits.length

/-- Nobody but its action holds the linker. -/
def Released (s : Timer) (l : Nat) : Prop := l < s.next ∧ s.linkers l ≤ s.owned l

/-- The linker had been released when the action was visited. -/
def Visit.lapsed (v : Visit) : Bool := v.count.any fun c => c ≤ 1

/-- The timer is over: its action need not be visited any more. -/
def ended (s : Timer) (number : Nat) : Bool :=
  s.visits.any fun v => v.action.number == number && (v.lapsed || !v.action.repeats)

/-- What a step must do about linkers that have been released: they stay so, their actions are
    not run, and an action that is visited then leaves the queue. -/
structure Keeps (s : Timer) (a : Action) : Prop where
  released : ∀ l, s.Released l → (s.step a).Released l
  lapsed : ∀ v ∈ s.newVisits a, ∀ l, s.Released l → v.action.linker = some l →
    v.lapsed = true
  silent : ∀ v ∈ s.newVisits a, v.lapsed = true → v.fired = false
  left : ∀ v ∈ s.newVisits a, v.lapsed = true →
    v.action.number ∉ (s.step a).queued.map DelayAction.number

/-- No interval is reached with its linker released. -/
def NoStale (s : Timer) (a : Action) : Prop :=
  ∀ v ∈ s.newVisits a, v.lapsed = true → v.action.repeats = false

/-- No timer that is over is in the queue, and there are no more actions in it than timers that
    are not over. -/
structure Tidy (s : Timer) : Prop where
  live : ∀ a ∈ s.queued, s.ended a.number = false
  bounded : s.queued.length ≤ (s.created.filter fun a => !s.ended a.number).length

/-! ### Numbers and references -/

/-- The actions have been numbered one after the other. -/
def Numbered (s : Timer) : Prop := s.created.map DelayAction.number = List.range s.next

/-- Numbering goes on, and no linker comes back. -/
structure Goes (s s' : Timer) : Prop where
  numbered : s.Numbered → s'.Numbered
  released : ∀ l, s.Released l → s'.Released l

section

variable {tick : Int} {rest : List (Node Int DelayAction)} {s s' : Timer}
  {n : Node Int DelayAction}

theorem Goes.refl (s : Timer) : Goes s s := ⟨id, fun _ h => h⟩

theorem Goes.trans {s'' : Timer} (h : Goes s s') (h' : Goes s' s'') : Goes s s'' :=
  ⟨h'.numbered ∘ h.numbered, fun l hl => h'.released l (h.released l hl)⟩

theorem Goes.foldl {α : Type} {f : Timer → α → Timer} (h : ∀ s x, Goes s (f s x)) (s : Timer)
    (xs : List α) : Goes s (xs.foldl f s) := by
  induction xs generalizing s with
  | nil => exact Goes.refl s
  | cons x xs ih => exact (h s x).trans (ih (f s x))

theorem owned_le_one (s : Timer) (l : Nat) : s.owned l ≤ 1 := by
  unfold owned
  split
  · exact le_refl 1
  · exact Nat.zero_le 1

theorem Released.le_one {l : Nat} (h : s.Released l) : s.linkers l ≤ 1 :=
  h.2.trans (s.owned_le_one l)

/-- A linker with its action is still released when neither has gained. -/
theorem Released.of_alive {l : Nat} (h : s.Released l) (hnext : s.next ≤ s'.next)
    (hlinkers : s'.linkers l ≤ s.linkers l)
    (halive : (∃ a ∈ s.alive, a.linker = some l) → ∃ a ∈ s'.alive, a.linker = some l) :
    s'.Released l := by
  refine ⟨h.1.trans_le hnext, hlinkers.trans (h.2.trans ?_)⟩
  unfold owned
  simp only [List.any_eq_true, beq_iff_eq]
  by_cases howned : ∃ a ∈ s.alive, a.linker = some l
  · rw [if_pos howned, if_pos (halive howned)]
  · rw [if_neg howned]
    exact Nat.zero_le _

/-- Without any reference it is released anyhow. -/
theorem Released.of_zero {l : Nat} (hlt : l < s.next) (hlinkers : s.linkers l = 0) :
    s.Released l := by
  refine ⟨hlt, ?_⟩
  rw [hlinkers]
  exact Nat.zero_le _

theorem goes_add (s : Timer) (timeout : Int) (linked : Bool) (interval : Int) :
    Goes s (s.add timeout linked interval) := by
  constructor
  · intro h
    show (s.created ++ [_]).map DelayAction.number = List.range (s.next + 1)
    rw [List.map_append, h, List.range_succ]
    rfl
  · intro l h
    refine h.of_alive (Nat.le_succ s.next) ?_ ?_
    · show (if linked then Function.update s.linkers s.next 1 else s.linkers) l ≤ s.linkers l
      split
      · rw [Function.update_of_ne (Nat.ne_of_lt h.1)]
      · exact le_refl _
    · rintro ⟨a, ha, hlinker⟩
      refine ⟨a, ?_, hlinker⟩
      rcases List.mem_append.mp ha with ha | ha
      · obtain ⟨n, hn, rfl⟩ := List.mem_map.mp ha
        exact List.mem_append_left _
          (List.mem_map_of_mem (Multimap.mem_emplace.mpr (Or.inr hn)))
      · exact List.mem_append_right _ ha

/-- References to the linker of a new action. -/
theorem goes_retains_new {l n : Nat} (hgoes : Goes s s') (hl : s.next ≤ l) :
    Goes s (s'.retains l n) := by
  refine ⟨hgoes.numbered, ?_⟩
  intro m h
  refine (hgoes.released m h).of_alive (le_refl _) ?_ id
  show Function.update s'.linkers l (s'.linkers l + n) m ≤ s'.linkers m
  rw [Function.update_of_ne (Nat.ne_of_lt (h.1.trans_le hl))]

theorem goes_releaseOne (s : Timer) (l : Nat) : Goes s (s.releaseOne l) := by
  refine ⟨id, ?_⟩
  intro m h
  refine h.of_alive (le_refl _) ?_ id
  show Function.update s.linkers l (s.linkers l - 1) m ≤ s.linkers m
  by_cases hm : m = l
  · subst hm
    rw [Function.update_self]
    exact Nat.sub_le _ _
  · rw [Function.update_of_ne hm]

theorem goes_perform (s : Timer) (op : Op) : Goes s (s.perform op) := by
  cases op with
  | timeout delay now => exact goes_add s (delay + now) false 0
  | timeoutWithLinker delay now keep =>
      exact goes_retains_new (goes_add s (delay + now) true 0) (le_refl s.next)
  | intervalWithLinker interval now keep =>
      exact goes_retains_new (goes_add s (interval + now) true interval) (le_refl s.next)
  | retain l =>
      simp only [perform]
      split
      · rename_i hheld
        refine ⟨id, ?_⟩
        intro m h
        -- Who retains holds a reference, so this is another linker.
        have hm : m ≠ l := by
          rintro rfl
          exact absurd h.2 (not_le.mpr hheld)
        refine h.of_alive (le_refl _) ?_ id
        show Function.update s.linkers l (s.linkers l + 1) m ≤ s.linkers m
        rw [Function.update_of_ne hm]
      · exact Goes.refl s
  | release l =>
      simp only [perform]
      split
      · exact goes_releaseOne s l
      · exact Goes.refl s

theorem goes_call (cb : Callbacks tick) (s : Timer) (a : DelayAction) : Goes s (s.call cb a) := by
  have hseen : Goes s { s with visits := s.visits ++ [s.seen a] } := ⟨id, fun _ h => h⟩
  unfold call
  split
  · exact hseen.trans (Goes.foldl goes_perform _ (cb.ops a s))
  · exact hseen

/-- The action of an element leaves the queue, for the list aside or for good. -/
theorem goes_visit (h : Walking tick (n :: rest) s) (cb : Callbacks tick) :
    Goes s (s.visit cb n).1 := by
  have hcall := goes_call cb s n.val
  have hwalk := (h.call cb n.val).walking
  simp only [visit]
  generalize s.call cb n.val = s1 at hcall hwalk
  refine hcall.trans ?_
  by_cases hrepeats : n.val.repeats = true
  · rw [if_pos hrepeats]
    obtain ⟨-, -, hqueue⟩ := hwalk.erase
    refine ⟨id, ?_⟩
    intro l hl
    refine hl.of_alive (le_refl _) (le_refl _) ?_
    rintro ⟨a, ha, hlinker⟩
    refine ⟨a, ?_, hlinker⟩
    rw [alive, ← queued, ← hqueue] at ha
    show a ∈ queued _ ++ (s1.intervals ++ [n.val])
    simp only [List.mem_append, List.mem_cons, List.not_mem_nil, or_false] at ha ⊢
    tauto
  · rw [if_neg hrepeats]
    refine ⟨?_, ?_⟩
    · intro hnumbered
      unfold dispose
      split <;> exact hnumbered
    · intro l hl
      obtain ⟨-, -, hqueue⟩ := hwalk.erase
      have hkept : ∀ linkers : Nat → Nat, n.val.linker ≠ some l → linkers l ≤ s1.linkers l →
          Released { s1 with delayqueue := (s1.delayqueue.erase n.id).1, linkers := linkers } l := by
        intro linkers hother hle
        refine hl.of_alive (le_refl _) hle ?_
        rintro ⟨a, ha, hlinker⟩
        refine ⟨a, ?_, hlinker⟩
        have hne : a ≠ n.val := by
          rintro rfl
          exact hother hlinker
        rw [alive, ← queued, ← hqueue] at ha
        rcases List.mem_append.mp ha with ha | ha
        · exact List.mem_append_left _ ((List.mem_cons.mp ha).resolve_left hne)
        · exact List.mem_append_right _ ha
      cases hlinker : n.val.linker with
      | none =>
          simp only [dispose, hlinker]
          exact hkept s1.linkers (by rw [hlinker]; exact Option.some_ne_none l |>.symm) (le_refl _)
      | some m =>
          simp only [dispose, hlinker]
          by_cases hm : l = m
          · subst hm
            refine Released.of_zero hl.1 ?_
            show Function.update s1.linkers l (s1.linkers l - 1) l = 0
            rw [Function.update_self]
            exact Nat.sub_eq_zero_of_le hl.le_one
          · refine hkept _ (by rw [hlinker]; exact fun h => hm (Option.some.inj h).symm) ?_
            show Function.update s1.linkers m (s1.linkers m - 1) l ≤ s1.linkers l
            rw [Function.update_of_ne hm]

theorem lapsed_seen {l : Nat} {a : DelayAction} (h : s.Released l) (hlinker : a.linker = some l) :
    (s.seen a).lapsed = true := by
  show (a.linker.map s.linkers).any (fun c => c ≤ 1) = true
  rw [hlinker]
  exact decide_eq_true h.le_one

theorem fired_seen_of_lapsed {a : DelayAction} (h : (s.seen a).lapsed = true) :
    (s.seen a).fired = false := by
  have hlapsed : (a.linker.map s.linkers).any (fun c => c ≤ 1) = true := h
  show s.fires a = false
  unfold fires
  cases hlinker : a.linker with
  | none =>
      rw [hlinker] at hlapsed
      exact absurd hlapsed Bool.false_ne_true
  | some l =>
      rw [hlinker] at hlapsed
      have hle : s.linkers l ≤ 1 := of_decide_eq_true hlapsed
      exact beq_eq_false_iff_ne.mpr (by omega)

/-- The walk, and what it has seen of released linkers. -/
theorem goes_walk (h : Walking tick rest s) (cb : Callbacks tick) :
    Goes s (walk cb rest s) ∧ ∃ vs, (walk cb rest s).visits = s.visits ++ vs ∧
      (∀ v ∈ vs, ∀ l, s.Released l → v.action.linker = some l → v.lapsed = true) ∧
      ∀ v ∈ vs, v.lapsed = true → v.fired = false := by
  induction rest generalizing s with
  | nil =>
      refine ⟨Goes.refl s, [], (List.append_nil _).symm, ?_, ?_⟩
      · exact fun v hv => absurd hv List.not_mem_nil
      · exact fun v hv => absurd hv List.not_mem_nil
  | cons n rest ih =>
      obtain ⟨hone, -⟩ := h.visit cb
      have hgoes := goes_visit h cb
      obtain ⟨hmore, vs, hvisits, hlapsed, hsilent⟩ := ih hone.walking
      refine ⟨hgoes.trans hmore, s.seen n.val :: vs, ?_, ?_, ?_⟩
      · rw [walk, List.foldl_cons, ← walk, hvisits, hone.visits, List.append_assoc,
          List.singleton_append]
      · intro v hv l hl hlinker
        rcases List.mem_cons.mp hv with rfl | hv
        · exact lapsed_seen hl hlinker
        · exact hlapsed v hv l (hgoes.released l hl) hlinker
      · intro v hv hlapsed'
        rcases List.mem_cons.mp hv with rfl | hv
        · exact fired_seen_of_lapsed hlapsed'
        · exact hsilent v hv hlapsed'

theorem goes_settle (h : s.Sorted) (tick : Int) : Goes s (s.settle tick) := by
  obtain ⟨-, hqueue, -, hcreated, hlinkers, hnext⟩ := reinsert_spec tick h s.intervals
  constructor
  · intro hnumbered
    show (s.intervals.foldl (reinsert tick) s).created.map DelayAction.number =
      List.range (s.intervals.foldl (reinsert tick) s).next
    rw [hcreated, hnext, hnumbered]
  · intro l hl
    refine hl.of_alive (le_of_eq hnext.symm) (le_of_eq (congrFun hlinkers l)) ?_
    rintro ⟨a, ha, hlinker⟩
    have hmem : ∀ b ∈ s.queued ++ s.intervals.map (DelayAction.rearm tick),
        b ∈ (s.settle tick).alive := fun b hb => List.mem_append_left _ (hqueue.mem_iff.mpr hb)
    rcases List.mem_append.mp ha with ha | ha
    · exact ⟨a, hmem a (List.mem_append_left _ ha), hlinker⟩
    · exact ⟨a.rearm tick, hmem _ (List.mem_append_right _ (List.mem_map_of_mem ha)), hlinker⟩

theorem goes_stopAll (s : Timer) : Goes s s.stopAll := by
  have hdispose : ∀ (s : Timer) (a : DelayAction), Goes s (s.dispose a) := by
    intro s a
    unfold dispose
    split
    · exact Goes.refl s
    · exact goes_releaseOne s _
  have hfold := Goes.foldl hdispose s s.alive
  refine ⟨hfold.numbered, ?_⟩
  intro l hl
  refine Released.of_zero (hfold.released l hl).1 ?_
  -- Every action lets its linker go.
  have hzero : ∀ (as : List DelayAction) (s : Timer),
      s.linkers l ≤ (if as.any fun a => a.linker == some l then 1 else 0) →
        (as.foldl dispose s).linkers l = 0 := by
    intro as
    induction as with
    | nil => exact fun s h => Nat.le_zero.mp h
    | cons a as ih =>
        intro s h
        apply ih
        cases hlinker : a.linker with
        | none =>
            simp only [dispose, hlinker]
            simpa [hlinker] using h
        | some m =>
            simp only [dispose, hlinker]
            show Function.update s.linkers m (s.linkers m - 1) l ≤ _
            by_cases hm : l = m
            · subst hm
              have hone : s.linkers l ≤ 1 := by simpa [hlinker] using h
              rw [Function.update_self, Nat.sub_eq_zero_of_le hone]
              exact Nat.zero_le _
            · rw [Function.update_of_ne hm]
              simpa [hlinker, Ne.symm hm] using h
  exact hzero s.alive s hl.2

/-! ### The invariant -/

/-- Numbers are given once, and only to actions that have been set. -/
structure Good (s : Timer) : Prop where
  sorted : s.Sorted
  intervals : s.intervals = []
  numbered : s.Numbered
  known : ∀ a ∈ s.queued, a.number ∈ s.created.map DelayAction.number
  distinct : (s.queued.map DelayAction.number).Nodup
  visited : ∀ v ∈ s.visits, v.action.number ∈ s.created.map DelayAction.number

theorem good_init : Good init where
  sorted := ⟨Multimap.ordered_empty, fun _ h => absurd h List.not_mem_nil⟩
  intervals := rfl
  numbered := rfl
  known := fun _ h => absurd h List.not_mem_nil
  distinct := List.nodup_nil
  visited := fun _ h => absurd h List.not_mem_nil

theorem Numbered.nodup (h : s.Numbered) : (s.created.map DelayAction.number).Nodup := by
  rw [h]
  exact List.nodup_range

/-- The numbers of new actions are new, and different. -/
theorem Numbered.fresh {new : List DelayAction} (h : s'.Numbered)
    (hcreated : s'.created = s.created ++ new) :
    (new.map DelayAction.number).Nodup ∧
      ∀ x ∈ new.map DelayAction.number, x ∉ s.created.map DelayAction.number := by
  have hnodup := h.nodup
  rw [hcreated, List.map_append, List.nodup_append] at hnodup
  obtain ⟨-, hnew, hdisjoint⟩ := hnodup
  exact ⟨hnew, fun x hx hold => hdisjoint x hold x hx rfl⟩

theorem Good.stopAll (h : s.Good) : s.stopAll.Good ∧ s.stopAll.visits = s.visits ∧
    s.stopAll.created = s.created := by
  have hsame : ∀ (as : List DelayAction) (s : Timer),
      (as.foldl dispose s).visits = s.visits ∧ (as.foldl dispose s).created = s.created := by
    intro as
    induction as with
    | nil => exact fun s => ⟨rfl, rfl⟩
    | cons a as ih =>
        intro s
        obtain ⟨hvisits, hcreated⟩ := ih (s.dispose a)
        have hone : (s.dispose a).visits = s.visits ∧ (s.dispose a).created = s.created := by
          unfold dispose
          split <;> exact ⟨rfl, rfl⟩
        exact ⟨hvisits.trans hone.1, hcreated.trans hone.2⟩
  obtain ⟨hvisits, hcreated⟩ := hsame s.alive s
  refine ⟨⟨⟨?_, ?_⟩, rfl, (goes_stopAll s).numbered h.numbered, ?_, List.nodup_nil, ?_⟩, hvisits,
    hcreated⟩
  · exact h.sorted.ordered.sublist (List.nil_sublist _)
  · exact fun _ hn => absurd hn List.not_mem_nil
  · exact fun _ ha => absurd ha List.not_mem_nil
  · show ∀ v ∈ (s.alive.foldl dispose s).visits,
      v.action.number ∈ (s.alive.foldl dispose s).created.map DelayAction.number
    rw [hvisits, hcreated]
    exact h.visited

/-- What comes into the queue by an operation is new. -/
theorem Good.added {new : List DelayAction} (h : s.Good) (hsorted : s'.Sorted) (hgoes : Goes s s')
    (hvisits : s'.visits = s.visits) (hintervals : s'.intervals = s.intervals)
    (hcreated : s'.created = s.created ++ new) (hqueue : s'.queued.Perm (s.queued ++ new)) :
    s'.Good := by
  have hnumbered := hgoes.numbered h.numbered
  obtain ⟨hnew, hfresh⟩ := hnumbered.fresh hcreated
  refine ⟨hsorted, hintervals.trans h.intervals, hnumbered, ?_, ?_, ?_⟩
  · intro a ha
    rw [hcreated, List.map_append]
    rcases List.mem_append.mp (hqueue.mem_iff.mp ha) with ha | ha
    · exact List.mem_append_left _ (h.known a ha)
    · exact List.mem_append_right _ (List.mem_map_of_mem ha)
  · rw [(hqueue.map DelayAction.number).nodup_iff, List.map_append, List.nodup_append]
    refine ⟨h.distinct, hnew, ?_⟩
    rintro x hx y hy rfl
    obtain ⟨a, ha, rfl⟩ := List.mem_map.mp hx
    exact hfresh _ hy (h.known a ha)
  · intro v hv
    rw [hvisits] at hv
    rw [hcreated, List.map_append]
    exact List.mem_append_left _ (h.visited v hv)

theorem Good.perform (h : s.Good) (op : Op) : (s.perform op).Good ∧
    (s.perform op).visits = s.visits ∧ ∃ new, (s.perform op).created = s.created ++ new ∧
      (s.perform op).queued.Perm (s.queued ++ new) := by
  have hgoes := goes_perform s op
  obtain ⟨hsorted, hvisits, hintervals, new, hcreated, hqueue⟩ : (s.perform op).Sorted ∧
      (s.perform op).visits = s.visits ∧ (s.perform op).intervals = s.intervals ∧
      ∃ new, (s.perform op).created = s.created ++ new ∧
        (s.perform op).queued.Perm (s.queued ++ new) := by
    have hadd : ∀ timeout linked interval, (s.add timeout linked interval).Sorted ∧
        (s.add timeout linked interval).queued.Perm (s.queued ++
          [⟨s.next, timeout, if linked then some s.next else none, interval⟩]) := by
      intro timeout linked interval
      let a : DelayAction := ⟨s.next, timeout, if linked then some s.next else none, interval⟩
      have hsorted := h.sorted.emplace a
      exact ⟨⟨hsorted.ordered, hsorted.keyed⟩, queued_emplace s a⟩
    have hsame : ∀ linkers : Nat → Nat, Sorted { s with linkers := linkers } :=
      fun linkers => ⟨h.sorted.ordered, h.sorted.keyed⟩
    cases op with
    | timeout delay now =>
        obtain ⟨hsorted, hqueue⟩ := hadd (delay + now) false 0
        exact ⟨hsorted, rfl, rfl, _, rfl, hqueue⟩
    | timeoutWithLinker delay now keep =>
        obtain ⟨hsorted, hqueue⟩ := hadd (delay + now) true 0
        exact ⟨⟨hsorted.ordered, hsorted.keyed⟩, rfl, rfl, _, rfl, hqueue⟩
    | intervalWithLinker interval now keep =>
        obtain ⟨hsorted, hqueue⟩ := hadd (interval + now) true interval
        exact ⟨⟨hsorted.ordered, hsorted.keyed⟩, rfl, rfl, _, rfl, hqueue⟩
    | retain l =>
        simp only [Timer.perform]
        split
        · exact ⟨hsame _, rfl, rfl, [], (List.append_nil _).symm, by rw [List.append_nil]; rfl⟩
        · exact ⟨h.sorted, rfl, rfl, [], (List.append_nil _).symm, by rw [List.append_nil]⟩
    | release l =>
        simp only [Timer.perform]
        split
        · exact ⟨hsame _, rfl, rfl, [], (List.append_nil _).symm, by rw [List.append_nil]; rfl⟩
        · exact ⟨h.sorted, rfl, rfl, [], (List.append_nil _).symm, by rw [List.append_nil]⟩
  exact ⟨h.added hsorted hgoes hvisits hintervals hcreated hqueue, hvisits, new, hcreated, hqueue⟩

/-! ### What an update leaves in the queue -/

/-- An update of a timer whose invariant holds. -/
theorem Good.step_update (h : s.Good) (cb : Callbacks tick) :
    ∃ vs, Updated cb s vs (s.step (.update tick cb)) ∧ Goes s (s.step (.update tick cb)) ∧
      (∀ v ∈ vs, ∀ l, s.Released l → v.action.linker = some l → v.lapsed = true) ∧
      ∀ v ∈ vs, v.lapsed = true → v.fired = false := by
  obtain ⟨vs, s', hupdate, hupdated⟩ := update_spec s tick cb h.sorted h.intervals
  have hwalking := h.sorted.walking tick
  obtain ⟨hgoes, vs', hvisits, hlapsed, hsilent⟩ := goes_walk hwalking cb
  obtain ⟨_, hwalked, -⟩ := walk_spec cb hwalking
  have hlt : (s.due tick).length < s.delayqueue.nodes.length + 1 :=
    Nat.lt_succ_of_le (List.length_filter_le _ _)
  have hstep : s.step (.update tick cb) = s' := by
    rw [step, hupdate _ hlt]
    rfl
  have hsettle : s' = (walk cb (s.due tick) s).settle tick := by
    have heq := hupdate _ hlt
    unfold update at heq
    split at heq
    · rename_i hempty
      have hdue : s.due tick = [] := by
        rw [due, List.isEmpty_iff.mp hempty]
        rfl
      rw [hdue, ← Option.some.inj heq]
      show s = { s.intervals.foldl (reinsert tick) s with intervals := [] }
      rw [h.intervals]
      show s = { s with intervals := [] }
      rw [← h.intervals]
    · rw [updateLoop_eq cb hwalking hlt] at heq
      exact (Option.some.inj heq).symm
  have hvs : vs' = vs := by
    obtain ⟨-, -, hsame, -⟩ := reinsert_spec tick hwalked.walking.sorted
      (walk cb (s.due tick) s).intervals
    have hsame' : s'.visits = (walk cb (s.due tick) s).visits := by
      rw [hsettle]
      exact hsame
    rw [hupdated.visits, hvisits] at hsame'
    exact (List.append_cancel_left hsame').symm
  rw [hstep]
  subst hvs
  refine ⟨vs', hupdated, ?_, hlapsed, hsilent⟩
  rw [hsettle]
  exact hgoes.trans (goes_settle hwalked.walking.sorted tick)

/-- What an update makes of the queue, by numbers: what is not due stays, what is new is added,
    and of what is due stays what repeats. -/
structure Requeued (s s' : Timer) (due later new : List DelayAction) : Prop where
  split : s.queued = due ++ later
  created : s'.created = s.created ++ new
  nodup : (new.map DelayAction.number).Nodup
  fresh : ∀ x ∈ new.map DelayAction.number, x ∉ s.created.map DelayAction.number
  perm : (s'.queued.map DelayAction.number).Perm (later.map DelayAction.number ++
    new.map DelayAction.number ++ (due.filter DelayAction.repeats).map DelayAction.number)

theorem Good.requeued {cb : Callbacks tick} {vs : List Visit} (h : s.Good) (hgoes : Goes s s')
    (hupdated : Updated cb s vs s') :
    ∃ new, Requeued s s' ((s.due tick).map Node.val) ((s.notDue tick).map Node.val) new := by
  obtain ⟨new, hcreated, hqueue⟩ := hupdated.queue
  obtain ⟨hnodup, hfresh⟩ := (hgoes.numbered h.numbered).fresh hcreated
  refine ⟨new, ?_, hcreated, hnodup, hfresh, ?_⟩
  · rw [queued, h.sorted.ordered.split tick, List.map_append]
    rfl
  · have hrearm : ∀ due : List DelayAction, (due.map (DelayAction.rearm tick)).map
        DelayAction.number = due.map DelayAction.number := by
      intro due
      rw [List.map_map]
      rfl
    have hnumbers := hqueue.map DelayAction.number
    rwa [List.map_append, List.map_append, hrearm] at hnumbers

section

variable {due later new : List DelayAction}

theorem Requeued.mem_iff (hq : Requeued s s' due later new) {x : Nat} :
    x ∈ s'.queued.map DelayAction.number ↔ x ∈ later.map DelayAction.number ∨
      x ∈ new.map DelayAction.number ∨
      x ∈ (due.filter DelayAction.repeats).map DelayAction.number := by
  rw [hq.perm.mem_iff, List.mem_append, List.mem_append, or_assoc]

theorem filter_repeats_subset (due : List DelayAction) :
    (due.filter DelayAction.repeats).map DelayAction.number ⊆ due.map DelayAction.number :=
  List.map_subset _ (List.filter_subset_self _)

theorem Requeued.origin (hq : Requeued s s' due later new) {x : Nat}
    (hx : x ∈ s'.queued.map DelayAction.number) :
    x ∈ s.queued.map DelayAction.number ∨ x ∈ new.map DelayAction.number := by
  rw [hq.split, List.map_append]
  rcases hq.mem_iff.mp hx with hx | hx | hx
  · exact Or.inl (List.mem_append_right _ hx)
  · exact Or.inr hx
  · exact Or.inl (List.mem_append_left _ (filter_repeats_subset due hx))

/-- What was there has a number that has been given. -/
theorem Requeued.old (hq : Requeued s s' due later new) (h : s.Good) {x : Nat}
    (hx : x ∈ due.map DelayAction.number ∨ x ∈ later.map DelayAction.number) :
    x ∉ new.map DelayAction.number := by
  intro hnew
  have hx' : x ∈ s.queued.map DelayAction.number := by
    rw [hq.split, List.map_append]
    exact List.mem_append.mpr hx
  obtain ⟨a, ha, rfl⟩ := List.mem_map.mp hx'
  exact hq.fresh _ hnew (h.known a ha)

theorem Requeued.nodup_queued (hq : Requeued s s' due later new) (h : s.Good) :
    (s'.queued.map DelayAction.number).Nodup := by
  have hdistinct := h.distinct
  rw [hq.split, List.map_append, List.nodup_append] at hdistinct
  obtain ⟨hdue, hlater, hapart⟩ := hdistinct
  rw [hq.perm.nodup_iff, List.nodup_append, List.nodup_append]
  refine ⟨⟨hlater, hq.nodup, ?_⟩, hdue.sublist (List.filter_sublist.map _), ?_⟩
  · rintro x hx y hy rfl
    exact hq.old h (Or.inr hx) hy
  · rintro x hx y hy rfl
    have hy' := filter_repeats_subset due hy
    rcases List.mem_append.mp hx with hx | hx
    · exact hapart x hy' x hx rfl
    · exact hq.old h (Or.inl hy') hx

/-- What was due is there again iff it repeats. -/
theorem Requeued.again_iff (hq : Requeued s s' due later new) (h : s.Good) {a : DelayAction}
    (ha : a ∈ due) : a.number ∈ s'.queued.map DelayAction.number ↔ a.repeats = true := by
  have hdistinct := h.distinct
  rw [hq.split, List.map_append, List.nodup_append] at hdistinct
  obtain ⟨hdue, -, hapart⟩ := hdistinct
  have hnumber := List.mem_map_of_mem (f := DelayAction.number) ha
  constructor
  · intro hx
    rcases hq.mem_iff.mp hx with hx | hx | hx
    · exact absurd rfl (hapart _ hnumber _ hx)
    · exact absurd hx (hq.old h (Or.inl hnumber))
    · obtain ⟨b, hb, hnum⟩ := List.mem_map.mp hx
      obtain ⟨hb, hrepeats⟩ := List.mem_filter.mp hb
      -- Numbers are what identifies the actions that were due.
      rwa [List.inj_on_of_nodup_map hdue hb ha hnum] at hrepeats
  · exact fun hrepeats => hq.mem_iff.mpr
      (Or.inr (Or.inr (List.mem_map_of_mem (List.mem_filter.mpr ⟨ha, hrepeats⟩))))

end

/-- What is in the queue after an update: the invariant is kept, and of the actions visited those
    that repeat are there again. -/
theorem Good.updated {cb : Callbacks tick} {vs : List Visit} (h : s.Good) (hgoes : Goes s s')
    (hupdated : Updated cb s vs s') :
    s'.Good ∧ (∀ v ∈ vs, v.action.number ∈ s'.queued.map DelayAction.number ↔
      v.action.repeats = true) ∧
    ∀ a ∈ s'.queued, (∃ b ∈ s.queued, b.number = a.number) ∨
      a.number ∉ s.created.map DelayAction.number := by
  obtain ⟨new, hq⟩ := h.requeued hgoes hupdated
  have hvisited : ∀ v ∈ vs, v.action ∈ (s.due tick).map Node.val := by
    intro v hv
    rw [← hupdated.each]
    exact List.mem_map_of_mem hv
  have hcreated : s'.created.map DelayAction.number =
      s.created.map DelayAction.number ++ new.map DelayAction.number := by
    rw [hq.created, List.map_append]
  have hknown : ∀ x ∈ s.queued.map DelayAction.number, x ∈ s.created.map DelayAction.number := by
    intro x hx
    obtain ⟨a, ha, rfl⟩ := List.mem_map.mp hx
    exact h.known a ha
  refine ⟨⟨hupdated.sorted, hupdated.intervals, hgoes.numbered h.numbered, ?_, hq.nodup_queued h, ?_⟩,
    fun v hv => hq.again_iff h (hvisited v hv), ?_⟩
  · intro a ha
    rw [hcreated, List.mem_append]
    exact (hq.origin (List.mem_map_of_mem ha)).imp_left (hknown _)
  · intro v hv
    rw [hcreated, List.mem_append]
    rw [hupdated.visits] at hv
    rcases List.mem_append.mp hv with hv | hv
    · exact Or.inl (h.visited v hv)
    · have hqueued : v.action ∈ s.queued := by
        rw [hq.split]
        exact List.mem_append_left _ (hvisited v hv)
      exact Or.inl (h.known _ hqueued)
  · intro a ha
    rcases hq.origin (List.mem_map_of_mem ha) with hx | hx
    · obtain ⟨b, hb, hnum⟩ := List.mem_map.mp hx
      exact Or.inl ⟨b, hb, hnum⟩
    · exact Or.inr (hq.fresh _ hx)

/-- From the `k`-th on, the actions that have been set have no number below `k`. -/
theorem Good.mem_drop (h : s.Good) {k : Nat} {a : DelayAction} (ha : a ∈ s.created)
    (hk : k ≤ a.number) : a ∈ s.created.drop k := by
  rw [← List.take_append_drop k s.created, List.mem_append] at ha
  refine ha.resolve_left fun htake => ?_
  have hnumber := List.mem_map_of_mem (f := DelayAction.number) htake
  rw [List.map_take, h.numbered, List.take_range, List.mem_range] at hnumber
  omega

/-- Numbers bound the queue. -/
theorem Good.bounded (h : s.Good) (hlive : ∀ a ∈ s.queued, s.ended a.number = false) {k : Nat}
    (hsince : ∀ a ∈ s.queued, k ≤ a.number) :
    s.queued.length ≤ ((s.created.drop k).filter fun a => !s.ended a.number).length := by
  have hsub : s.queued.map DelayAction.number ⊆
      ((s.created.drop k).filter fun a => !s.ended a.number).map DelayAction.number := by
    intro x hx
    obtain ⟨a, ha, rfl⟩ := List.mem_map.mp hx
    obtain ⟨b, hb, hnum⟩ := List.mem_map.mp (h.known a ha)
    have hdrop := h.mem_drop hb (hnum ▸ hsince a ha)
    refine List.mem_map.mpr ⟨b, List.mem_filter.mpr ⟨hdrop, ?_⟩, hnum⟩
    rw [hnum, hlive a ha]
    rfl
  have hle := (List.subperm_of_subset h.distinct hsub).length_le
  rwa [List.length_map, List.length_map] at hle

theorem Good.tidy (h : s.Good) (hlive : ∀ a ∈ s.queued, s.ended a.number = false) : s.Tidy :=
  ⟨hlive, h.bounded hlive fun a _ => Nat.zero_le a.number⟩

/-- The visits of a step, from the visits after it. -/
theorem newVisits_eq {vs : List Visit} {a : Action} (h : (s.step a).visits = s.visits ++ vs) :
    s.newVisits a = vs := by
  rw [newVisits, h, List.drop_left]

theorem ended_eq_false {x : Nat} : s.ended x = false ↔
    ∀ v ∈ s.visits, v.action.number = x → v.lapsed = false ∧ v.action.repeats = true := by
  simp [ended, List.any_eq_false]

/-- Where nothing is visited, all that matters is that no linker comes back. -/
theorem keeps_of_no_visits {a : Action} (h : (s.step a).visits = s.visits)
    (hgoes : Goes s (s.step a)) : s.Keeps a ∧ s.NoStale a := by
  have hnone : s.newVisits a = [] := newVisits_eq (by rw [h, List.append_nil])
  refine ⟨⟨hgoes.released, ?_, ?_, ?_⟩, ?_⟩
  all_goals
    intro v hv
    rw [hnone] at hv
    exact absurd hv List.not_mem_nil

theorem Good.step (h : s.Good) (a : Action) : (s.step a).Good := by
  cases a with
  | perform op => exact (h.perform op).1
  | update tick cb =>
      obtain ⟨vs, hupdated, hgoes, -⟩ := h.step_update cb
      exact (h.updated hgoes hupdated).1
  | stopAll => exact h.stopAll.1

/-- What is asked of a step fails only where an interval is reached with its linker released. -/
theorem Good.keeps_iff (h : s.Good) (a : Action) : s.Keeps a ↔ s.NoStale a := by
  cases a with
  | perform op =>
      obtain ⟨hkeeps, hstale⟩ := keeps_of_no_visits (a := .perform op) (h.perform op).2.1
        (goes_perform s op)
      exact iff_of_true hkeeps hstale
  | update tick cb =>
      obtain ⟨vs, hupdated, hgoes, hlapsed, hsilent⟩ := h.step_update cb
      obtain ⟨-, hleft, -⟩ := h.updated hgoes hupdated
      have hvs := newVisits_eq hupdated.visits
      constructor
      · intro hkeeps v hv hlapsed'
        have hnot := hkeeps.left v hv hlapsed'
        rw [hvs] at hv
        rw [hleft v hv] at hnot
        exact Bool.eq_false_iff.mpr hnot
      · intro hstale
        refine ⟨hgoes.released, ?_, ?_, ?_⟩
        · rw [hvs]
          exact hlapsed
        · rw [hvs]
          exact hsilent
        · intro v hv hlapsed' hmem
          have hrepeats := hstale v hv hlapsed'
          rw [hvs] at hv
          rw [(hleft v hv).mp hmem] at hrepeats
          exact absurd hrepeats.symm Bool.false_ne_true
  | stopAll =>
      obtain ⟨hkeeps, hstale⟩ := keeps_of_no_visits (a := .stopAll) h.stopAll.2.1 (goes_stopAll s)
      exact iff_of_true hkeeps hstale

/-- A step that reaches no such interval leaves nothing behind. -/
theorem Good.tidy_step (h : s.Good) (htidy : s.Tidy) {a : Action} (hstale : s.NoStale a) :
    (s.step a).Tidy := by
  refine (h.step a).tidy ?_
  have hlive : ∀ b ∈ s.queued, ∀ v ∈ s.visits, v.action.number = b.number →
      v.lapsed = false ∧ v.action.repeats = true :=
    fun b hb => ended_eq_false.mp (htidy.live b hb)
  intro b hb
  rw [ended_eq_false]
  intro v hv hnum
  cases a with
  | perform op =>
      obtain ⟨-, hvisits, new, hcreated, hqueue⟩ := h.perform op
      have hv : v ∈ s.visits := by
        rw [← hvisits]
        exact hv
      rcases List.mem_append.mp (hqueue.mem_iff.mp hb) with hb | hb
      · exact hlive b hb v hv hnum
      · obtain ⟨-, hfresh⟩ := ((goes_perform s op).numbered h.numbered).fresh hcreated
        exact absurd (hnum ▸ h.visited v hv) (hfresh _ (List.mem_map_of_mem hb))
  | update tick cb =>
      obtain ⟨vs, hupdated, hgoes, -⟩ := h.step_update cb
      obtain ⟨-, hleft, hbefore⟩ := h.updated hgoes hupdated
      have hvs := newVisits_eq hupdated.visits
      rw [hupdated.visits] at hv
      rcases List.mem_append.mp hv with hv | hv
      · rcases hbefore b hb with ⟨c, hc, hnum'⟩ | hfresh
        · exact hlive c hc v hv (hnum.trans hnum'.symm)
        · exact absurd (hnum ▸ h.visited v hv) hfresh
      · have hrepeats := (hleft v hv).mp (hnum ▸ List.mem_map_of_mem hb)
        refine ⟨?_, hrepeats⟩
        rw [← hvs] at hv
        refine Bool.eq_false_iff.mpr fun hlapsed => ?_
        rw [hstale v hv hlapsed] at hrepeats
        exact Bool.false_ne_true hrepeats
  | stopAll => exact absurd hb List.not_mem_nil

/-- What a step puts into the queue has not been set before it. -/
theorem Good.created_step (h : s.Good) (a : Action) :
    (∃ new, (s.step a).created = s.created ++ new) ∧ ∀ b ∈ (s.step a).queued,
      (∃ c ∈ s.queued, c.number = b.number) ∨ b.number ∉ s.created.map DelayAction.number := by
  cases a with
  | perform op =>
      obtain ⟨-, -, new, hcreated, hqueue⟩ := h.perform op
      obtain ⟨-, hfresh⟩ := ((goes_perform s op).numbered h.numbered).fresh hcreated
      refine ⟨⟨new, hcreated⟩, fun b hb => ?_⟩
      rcases List.mem_append.mp (hqueue.mem_iff.mp hb) with hb | hb
      · exact Or.inl ⟨b, hb, rfl⟩
      · exact Or.inr (hfresh _ (List.mem_map_of_mem hb))
  | update tick cb =>
      obtain ⟨vs, hupdated, hgoes, -⟩ := h.step_update cb
      obtain ⟨new, hcreated, -⟩ := hupdated.queue
      exact ⟨⟨new, hcreated⟩, (h.updated hgoes hupdated).2.2⟩
  | stopAll =>
      exact ⟨⟨[], h.stopAll.2.2.trans (List.append_nil _).symm⟩,
        fun b hb => absurd hb List.not_mem_nil⟩

/-- The first `k` timers have left the queue for ever. -/
def Since (k : Nat) (s : Timer) : Prop := k ≤ s.created.length ∧ ∀ a ∈ s.queued, k ≤ a.number

theorem Good.since_step (h : s.Good) {k : Nat} (hsince : s.Since k) (a : Action) :
    (s.step a).Since k := by
  obtain ⟨⟨new, hcreated⟩, horigin⟩ := h.created_step a
  refine ⟨?_, fun b hb => ?_⟩
  · rw [hcreated, List.length_append]
    exact Nat.le_add_right_of_le hsince.1
  · rcases horigin b hb with ⟨c, hc, hnum⟩ | hfresh
    · exact hnum ▸ hsince.2 c hc
    · have hlength := congrArg List.length h.numbered
      rw [List.length_map, List.length_range] at hlength
      rw [h.numbered, List.mem_range, Nat.not_lt, ← hlength] at hfresh
      exact Nat.le_trans hsince.1 hfresh

theorem good_run (as : List Action) : (run step init as).Good :=
  run_keeps (I := Good) (fun _ a h => h.step a) good_init as

theorem tidy_run {as : List Action} (hstale : Along step NoStale init as) :
    (run step init as).Tidy := by
  have htidy : init.Tidy := good_init.tidy fun a ha => absurd ha List.not_mem_nil
  exact (run_invariant (I := fun s : Timer => s.Good ∧ s.Tidy)
    (fun s a h hstale => ⟨h.1.step a, h.1.tidy_step h.2 hstale⟩) ⟨good_init, htidy⟩ hstale).2

/-- A run that reaches no such interval leaves no more actions in the queue than there are live
    timers that have been set since a `StopAll`. -/
theorem tidy_since_stopAll (as bs : List Action)
    (hstale : Along step NoStale init (as ++ .stopAll :: bs)) :
    let s := run step init (as ++ .stopAll :: bs)
    s.queued.length ≤ ((s.created.drop (run step init as).created.length).filter
      fun a => !s.ended a.number).length := by
  intro s
  have hstop : ((run step init as).step .stopAll).Since (run step init as).created.length :=
    ⟨Nat.le_of_eq (congrArg List.length (good_run as).stopAll.2.2.symm),
      fun b hb => absurd hb List.not_mem_nil⟩
  have hsince : s.Since (run step init as).created.length := by
    show (run step init (as ++ .stopAll :: bs)).Since _
    rw [run_append, run_cons]
    exact (run_keeps (I := fun t : Timer => t.Good ∧ t.Since (run step init as).created.length)
      (fun _ a h => ⟨h.1.step a, h.1.since_step h.2 a⟩)
      ⟨(good_run as).step .stopAll, hstop⟩ bs).2
  exact (good_run _).bounded (tidy_run hstale).live hsince.2

/-- **Intervals whose linker is released leave the queue along a run iff none is reached**; a
    run that reaches none leaves no more actions in the queue than there are live timers. -/
theorem intervals_leave_iff (as : List Action) :
    (Along step Keeps init as ↔ Along step NoStale init as) ∧
      (Along step NoStale init as → (run step init as).Tidy) := by
  constructor
  · exact along_congr (I := Good) (fun s a h => h.keeps_iff a) (fun s a h _ => h.step a)
      good_init as
  · exact tidy_run

/-- The callbacks do nothing. -/
def idle (tick : Int) : Callbacks tick := ⟨fun _ _ => [], by simp⟩

/-- `StartTimer`, `StopTimer`, and a tick at which the interval is due. -/
def startStop : List Action :=
  [.perform (.intervalWithLinker 10 0 1), .perform (.release 0), .update 10 (idle 10)]

/-- The interval is visited, not run, and queued again for the tick 20. -/
theorem startStop_stays : ¬Along step Keeps init startStop ∧
    (run step init startStop).queued = [⟨0, 20, some 0, 10⟩] := by
  refine ⟨?_, by decide⟩
  rintro ⟨-, -, hkeeps, -⟩
  exact hkeeps.left ⟨⟨0, 10, some 0, 10⟩, some 1, false⟩ (by decide) rfl (by decide)

end

end Jengine.Base.Timer
