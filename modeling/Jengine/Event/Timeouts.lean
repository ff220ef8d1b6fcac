import Jengine.Lib.Multimap
import Jengine.Lib.Runs
import Mathlib.Algebra.Order.Group.Int
import Mathlib.Logic.Function.Basic

/-!
# Timeouts of the dispatcher

`EventTimeout::AddToDispatcher` and `RemoveFromDispatcher` (`base/event/eventtimeout.cpp`)
keep timeouts in the multimap `timers_` by the tick they expire at, each entry with a
reference.  The timer phase of `Dispatcher::Dispatch` (`base/event/dispatcher.cpp`) takes the
first entry, while it has expired: it calls `OnTimeout`, then erases the entry, then reads
the timeout out of it for the `Release`.

Timeouts are numbered.  While `OnTimeout` runs, timeouts with a positive delay may be added,
and any timeout removed; outside the phase any timeout may be added.  The trace records what
is done with the entries, which have the numbers of the multimap's nodes.  An entry that has
been erased keeps its content.
-/

namespace Jengine.Event

open Jengine.Lib

/-- What is done with an entry of `timers_`. -/
inductive Mark where
  | read (id : Nat)
  /-- `OnTimeout`: the tick it expires at, and `tick_` in which phase. -/
  | fired (id : Nat) (expire tick : Int) (phase : Nat)
  | erased (id : Nat)
  /-- The `Release` for the entry. -/
  | released (id : Nat)
deriving DecidableEq, Repr

def Mark.id : Mark → Nat
  | .read id => id
  | .fired id _ _ _ => id
  | .erased id => id
  | .released id => id

structure Timeouts where
  timers : Multimap Int Nat
  tick : Int
  /-- How often the timer phase has begun. -/
  phase : Nat
  inPhase : Bool
  /-- `it`, while its `OnTimeout` runs. -/
  it : Option (Node Int Nat)
  /-- The references that have been retained for entries and not released. -/
  held : Nat → Int
  trace : List Mark

namespace Timeouts

/-- Steps: `update` is the begin of the timer phase, `next` the test of the loop with the call of
    `OnTimeout`, and `returned` what follows when it returns. -/
inductive Action where
  | add (o : Nat)
  | remove (o : Nat)
  | update (now : Int)
  | next
  | returned
deriving DecidableEq

def init : Timeouts := ⟨Multimap.empty, 0, 0, false, none, fun _ => 0, []⟩

def mark (s : Timeouts) (ms : List Mark) : Timeouts := { s with trace := s.trace ++ ms }

def retain (s : Timeouts) (o : Nat) : Timeouts :=
  { s with held := Function.update s.held o (s.held o + 1) }

/-- `Release` of the timeout of an entry. -/
def release (s : Timeouts) (o id : Nat) : Timeouts :=
  { s with held := Function.update s.held o (s.held o - 1), trace := s.trace ++ [.released id] }

def erase (s : Timeouts) (id : Nat) : Timeouts :=
  { s with timers := (s.timers.erase id).1, trace := s.trace ++ [.erased id] }

/-- `AddToDispatcher`. -/
def addToDispatcher (delay : Nat → Int) (s : Timeouts) (o : Nat) : Timeouts :=
  ({ s with timers := s.timers.emplace (s.tick + delay o) o } : Timeouts).retain o

/-- The loop of `RemoveFromDispatcher`: the entries it reads, and the one it finds. -/
def removeLoop (o : Nat) : List (Node Int Nat) → List Nat × Option Nat
  | [] => ([], none)
  | n :: nodes =>
      if n.val = o then ([n.id], some n.id)
      else
        let (ids, it) := removeLoop o nodes
        (n.id :: ids, it)

/-- `RemoveFromDispatcher`. -/
def removeFromDispatcher (s : Timeouts) (o : Nat) : Timeouts :=
  let (ids, it) := removeLoop o s.timers.nodes
  let s := s.mark (ids.map Mark.read)
  match it with
  | none => s
  | some id => (s.erase id).release o id

/-- The test of the loop, and the call. -/
def next (s : Timeouts) : Timeouts :=
  match s.timers.nodes with
  | [] => { s with inPhase := false }
  | n :: _ =>
      let s := s.mark [.read n.id]
      if s.tick < n.key then { s with inPhase := false }
      else { s.mark [.fired n.id n.key s.tick s.phase] with it := some n }

/-- `timers_.erase(it); it->second->Release();` -/
def returned (s : Timeouts) (n : Node Int Nat) : Timeouts :=
  { ((s.erase n.id).mark [.read n.id]).release n.val n.id with it := none }

def step (delay : Nat → Int) (s : Timeouts) : Action → Timeouts
  | .add o =>
      if s.inPhase = false ∨ (s.it.isSome ∧ 0 < delay o) then s.addToDispatcher delay o else s
  | .remove o => if s.inPhase = false ∨ s.it.isSome then s.removeFromDispatcher o else s
  | .update now =>
      if s.inPhase then s else { s with tick := now, phase := s.phase + 1, inPhase := true }
  | .next => if s.inPhase ∧ s.it = none then s.next else s
  | .returned =>
      match s.it with
      | none => s
      | some n => s.returned n

/-! ### What is right -/

/-- How often an entry should have been erased, and released. -/
def gone (s : Timeouts) (id : Nat) : Nat := if ∃ n ∈ s.timers.nodes, n.id = id then 0 else 1

/-- An entry is erased once and fires once, not when it has been erased; and what fires in one
    phase fires in the order of expiry. -/
def Follows : Mark → Mark → Prop
  | .erased id, .erased id' => id ≠ id'
  | .erased id, .fired id' _ _ _ => id ≠ id'
  | .fired id expire _ phase, .fired id' expire' _ phase' =>
      id ≠ id' ∧ (phase = phase' → expire ≤ expire')
  | _, _ => True

/-- An entry is not read when it has been erased. -/
def Unread : Mark → Mark → Prop
  | .erased id, .read id' => id ≠ id'
  | _, _ => True

/-- Every addition has had one removal and one `Release` if its entry is gone, and none if it is
    not; nothing fires early, twice, after its removal or out of order. -/
structure Sound (s : Timeouts) : Prop where
  matched : ∀ id < s.timers.next, s.trace.count (.erased id) = s.gone id ∧
    s.trace.count (.released id) = s.gone id
  balanced : ∀ o, s.held o = (s.timers.nodes.countP fun n => n.val == o : Nat)
  late : ∀ id expire tick phase, Mark.fired id expire tick phase ∈ s.trace → expire ≤ tick
  follows : s.trace.Pairwise Follows

/-- No entry is read after it has been erased. -/
def Clean (s : Timeouts) : Prop := s.trace.Pairwise Unread

/-- When an `OnTimeout` returns, its entry is still there. -/
def Kept (s : Timeouts) (a : Action) : Prop :=
  a = .returned → ∀ n, s.it = some n → n ∈ s.timers.nodes

/-- No `OnTimeout` returns. -/
def NoReturn (s : Timeouts) (a : Action) : Prop := a = .returned → s.it = none

/-! ### The invariant -/

structure Inv (s : Timeouts) : Prop where
  ordered : s.timers.Ordered
  sound : s.Sound
  known : ∀ m ∈ s.trace, m.id < s.timers.next
  it : ∀ n, s.it = some n → s.inPhase = true ∧ n.id < s.timers.next ∧
    ∀ m ∈ s.timers.nodes, m.id = n.id → m = n
  fired : ∀ id expire tick phase, Mark.fired id expire tick phase ∈ s.trace →
    (∃ n ∈ s.timers.nodes, n.id = id) → ∃ n, s.it = some n ∧ n.id = id
  past : ∀ id expire tick phase, Mark.fired id expire tick phase ∈ s.trace → phase ≤ s.phase
  reached : ∀ id expire tick phase, Mark.fired id expire tick phase ∈ s.trace →
    s.inPhase = true → phase = s.phase → expire ≤ s.tick ∧ ∀ m ∈ s.timers.nodes, expire ≤ m.key

theorem inv_init : Inv init where
  ordered := Multimap.ordered_empty
  sound := ⟨fun _ h => absurd h (Nat.not_lt_zero _), fun _ => rfl,
    fun _ _ _ _ h => absurd h List.not_mem_nil, List.Pairwise.nil⟩
  known := fun _ h => absurd h List.not_mem_nil
  it := fun _ h => absurd h (Option.some_ne_none _).symm
  fired := fun _ _ _ _ h => absurd h List.not_mem_nil
  past := fun _ _ _ _ h => absurd h List.not_mem_nil
  reached := fun _ _ _ _ h => absurd h List.not_mem_nil

section

variable {s : Timeouts} {n : Node Int Nat}

/-- What is in the multimap has not been erased. -/
theorem Inv.not_erased (h : s.Inv) (hn : n ∈ s.timers.nodes) : Mark.erased n.id ∉ s.trace := by
  have hcount := (h.sound.matched n.id (h.ordered.lt n hn)).1
  rw [gone, if_pos ⟨n, hn, rfl⟩] at hcount
  exact List.count_eq_zero.mp hcount

/-- What is not there any more has been. -/
theorem Inv.erased (h : s.Inv) (hid : n.id < s.timers.next)
    (hn : ¬∃ m ∈ s.timers.nodes, m.id = n.id) : Mark.erased n.id ∈ s.trace := by
  have hcount := (h.sound.matched n.id hid).1
  rw [gone, if_neg hn] at hcount
  exact List.count_pos_iff.mp (by omega)

/-- Reading entries changes nothing. -/
theorem Inv.read (h : s.Inv) {ids : List Nat} (hids : ∀ id ∈ ids, id < s.timers.next) :
    (s.mark (ids.map Mark.read)).Inv := by
  have hmem : ∀ id expire tick phase,
      Mark.fired id expire tick phase ∈ s.trace ++ ids.map Mark.read →
        Mark.fired id expire tick phase ∈ s.trace := by
    intro id expire tick phase hm
    simpa using hm
  refine ⟨h.ordered, ⟨?_, h.sound.balanced, ?_, ?_⟩, ?_, h.it, ?_, ?_, ?_⟩
  · intro id hid
    have hnone : ∀ m : Mark, (∀ x, m ≠ .read x) → (ids.map Mark.read).count m = 0 := by
      intro m hm
      rw [List.count_eq_zero, List.mem_map]
      rintro ⟨x, -, rfl⟩
      exact hm x rfl
    show (s.trace ++ ids.map Mark.read).count _ = s.gone id ∧
      (s.trace ++ ids.map Mark.read).count _ = s.gone id
    rw [List.count_append, List.count_append, hnone _ (by simp), hnone _ (by simp)]
    exact h.sound.matched id hid
  · exact fun id expire tick phase hm => h.sound.late id expire tick phase (hmem _ _ _ _ hm)
  · refine List.pairwise_append.mpr ⟨h.sound.follows, ?_, ?_⟩
    · rw [List.pairwise_map]
      exact List.pairwise_of_forall fun _ _ => trivial
    · intro m _ m' hm'
      obtain ⟨id, -, rfl⟩ := List.mem_map.mp hm'
      cases m <;> exact trivial
  · exact List.forall_mem_append.mpr ⟨h.known, List.forall_mem_map.mpr hids⟩
  · exact fun id expire tick phase hm => h.fired id expire tick phase (hmem _ _ _ _ hm)
  · exact fun id expire tick phase hm => h.past id expire tick phase (hmem _ _ _ _ hm)
  · exact fun id expire tick phase hm => h.reached id expire tick phase (hmem _ _ _ _ hm)

/-- An addition, later than what has fired in the phase. -/
theorem Inv.add (h : s.Inv) {delay : Nat → Int} {o : Nat}
    (hlater : s.inPhase = true → 0 < delay o) : (s.addToDispatcher delay o).Inv := by
  have hcons : ∀ {n : Node Int Nat}, n ∈ (s.addToDispatcher delay o).timers.nodes ↔
      n = ⟨s.timers.next, s.tick + delay o, o⟩ ∨ n ∈ s.timers.nodes := Multimap.mem_emplace
  have hnew : ∀ m ∈ s.trace, m.id ≠ s.timers.next := fun m hm => Nat.ne_of_lt (h.known m hm)
  refine ⟨h.ordered.emplace _ _, ⟨?_, ?_, h.sound.late, h.sound.follows⟩, ?_, ?_, ?_, h.past, ?_⟩
  · intro id hid
    show s.trace.count (.erased id) = gone _ id ∧ s.trace.count (.released id) = gone _ id
    by_cases hold : id = s.timers.next
    · subst hold
      rw [gone, if_pos ⟨_, hcons.mpr (Or.inl rfl), rfl⟩, List.count_eq_zero, List.count_eq_zero]
      exact ⟨fun hm => hnew _ hm rfl, fun hm => hnew _ hm rfl⟩
    · have hgone : gone (s.addToDispatcher delay o) id = s.gone id := by
        unfold gone
        simp only [hcons, exists_eq_or_imp, Ne.symm hold, false_or]
      rw [hgone]
      exact h.sound.matched id (Nat.lt_of_le_of_ne (Nat.le_of_lt_succ hid) hold)
  · intro p
    have hperm := Multimap.perm_emplace s.timers (s.tick + delay o) o
    show Function.update s.held o (s.held o + 1) p =
      ((s.timers.emplace (s.tick + delay o) o).nodes.countP fun n => n.val == p : Nat)
    rw [hperm.countP_eq, List.countP_cons, Int.natCast_add, ← h.sound.balanced p]
    by_cases hp : p = o
    · subst hp
      rw [Function.update_self]
      simp
    · rw [Function.update_of_ne hp]
      simp [Ne.symm hp]
  · exact fun m hm => Nat.lt_succ_of_lt (h.known m hm)
  · intro n hn
    obtain ⟨hphase, hlt, hsame⟩ := h.it n hn
    refine ⟨hphase, Nat.lt_succ_of_lt hlt, ?_⟩
    intro m hm hid
    rcases hcons.mp hm with rfl | hm
    · exact absurd hid (Ne.symm (Nat.ne_of_lt hlt))
    · exact hsame m hm hid
  · rintro id expire tick phase hm ⟨n, hn, hid⟩
    rcases hcons.mp hn with rfl | hn
    · exact absurd hid.symm (hnew _ hm)
    · exact h.fired id expire tick phase hm ⟨n, hn, hid⟩
  · intro id expire tick phase hm hphase heq
    obtain ⟨htick, hle⟩ := h.reached id expire tick phase hm hphase heq
    refine ⟨htick, ?_⟩
    intro n hn
    rcases hcons.mp hn with rfl | hn
    · have := hlater hphase
      show expire ≤ s.tick + delay o
      omega
    · exact hle n hn

/-- What is done with an entry that is erased comes after all that was done with it. -/
theorem Inv.follows_drop (h : s.Inv) (hn : n ∈ s.timers.nodes) {ms : List Mark}
    (hms : ms = [.erased n.id, .released n.id] ∨
      ms = [.erased n.id, .read n.id, .released n.id]) : (s.trace ++ ms).Pairwise Follows := by
  have hnot := h.not_erased hn
  refine List.pairwise_append.mpr ⟨h.sound.follows, ?_, ?_⟩
  · rcases hms with rfl | rfl <;> simp [Follows]
  · intro m hm m' hm'
    have hm'' : m' = .erased n.id ∨ m' = .read n.id ∨ m' = .released n.id := by
      rcases hms with rfl | rfl <;> simp only [List.mem_cons, List.not_mem_nil, or_false] at hm'
      · exact hm'.imp_right Or.inr
      · exact hm'
    cases m with
    | erased id =>
        have hne : id ≠ n.id := by
          rintro rfl
          exact hnot hm
        rcases hm'' with rfl | rfl | rfl
        · exact hne
        · exact trivial
        · exact trivial
    | fired id expire tick phase => rcases hm'' with rfl | rfl | rfl <;> exact trivial
    | read id => cases m' <;> exact trivial
    | released id => cases m' <;> exact trivial

/-- An entry that is there is erased and its timeout released; the entry may be read between. -/
theorem Inv.drop (h : s.Inv) (hn : n ∈ s.timers.nodes) {ms : List Mark}
    (hms : ms = [.erased n.id, .released n.id] ∨ ms = [.erased n.id, .read n.id, .released n.id])
    {it : Option (Node Int Nat)} (hit : it = s.it ∨ it = none ∧ s.it = some n) :
    Inv { s with timers := (s.timers.erase n.id).1
                 held := Function.update s.held n.val (s.held n.val - 1)
                 it := it
                 trace := s.trace ++ ms } := by
  have hmem : ∀ id expire tick phase, Mark.fired id expire tick phase ∈ s.trace ++ ms →
      Mark.fired id expire tick phase ∈ s.trace := by
    intro id expire tick phase hm
    rcases hms with rfl | rfl <;> simpa using hm
  have hkept : ∀ {m : Node Int Nat}, m ∈ (s.timers.erase n.id).1.nodes →
      m ∈ s.timers.nodes ∧ m.id ≠ n.id := Multimap.mem_erase.mp
  refine ⟨h.ordered.erase n.id, ⟨?_, ?_, ?_, h.follows_drop hn hms⟩, ?_, ?_, ?_, ?_, ?_⟩
  · intro id hid
    show (s.trace ++ ms).count _ =
        (if ∃ m ∈ (s.timers.erase n.id).1.nodes, m.id = id then 0 else 1) ∧
      (s.trace ++ ms).count _ = (if ∃ m ∈ (s.timers.erase n.id).1.nodes, m.id = id then 0 else 1)
    obtain ⟨herased, hreleased⟩ := h.sound.matched id hid
    rw [List.count_append, List.count_append, herased, hreleased]
    by_cases hsame : id = n.id
    · subst hsame
      rw [gone, if_pos ⟨n, hn, rfl⟩,
        if_neg (by rintro ⟨m, hm, hid'⟩; exact (hkept hm).2 hid')]
      rcases hms with rfl | rfl <;> simp
    · have hgone : (if ∃ m ∈ (s.timers.erase n.id).1.nodes, m.id = id then 0 else 1) =
          s.gone id := by
        refine if_congr (exists_congr fun m => ?_) rfl rfl
        rw [Multimap.mem_erase, and_assoc]
        exact and_congr_right fun _ => and_iff_right_of_imp fun hid' => hid' ▸ hsame
      rw [hgone]
      rcases hms with rfl | rfl <;> simp [Ne.symm hsame]
  · intro p
    show Function.update s.held n.val (s.held n.val - 1) p =
      ((s.timers.erase n.id).1.nodes.countP fun m => m.val == p : Nat)
    have hbalanced := h.sound.balanced p
    rw [(h.ordered.perm_erase hn).countP_eq, List.countP_cons] at hbalanced
    by_cases hp : p = n.val
    · subst hp
      rw [Function.update_self, hbalanced]
      simp
    · rw [Function.update_of_ne hp, hbalanced]
      simp [Ne.symm hp]
  · exact fun id expire tick phase hm => h.sound.late id expire tick phase (hmem _ _ _ _ hm)
  · refine List.forall_mem_append.mpr ⟨h.known, fun m hm => ?_⟩
    have hid : m.id = n.id := by
      rcases hms with rfl | rfl <;> simp only [List.mem_cons, List.not_mem_nil, or_false] at hm
      · rcases hm with rfl | rfl <;> rfl
      · rcases hm with rfl | rfl | rfl <;> rfl
    rw [hid]
    exact h.ordered.lt n hn
  · intro m hm
    rcases hit with rfl | ⟨rfl, -⟩
    · obtain ⟨hphase, hlt, hsame⟩ := h.it m hm
      exact ⟨hphase, hlt, fun k hk => hsame k (hkept hk).1⟩
    · exact absurd hm (Option.some_ne_none m).symm
  · rintro id expire tick phase hm ⟨m, hm', hid⟩
    obtain ⟨k, hk, hid'⟩ := h.fired id expire tick phase (hmem _ _ _ _ hm) ⟨m, (hkept hm').1, hid⟩
    rcases hit with rfl | ⟨rfl, hit⟩
    · exact ⟨k, hk, hid'⟩
    · -- What fired is the entry that goes.
      rw [hit] at hk
      obtain rfl := Option.some.inj hk
      exact absurd (hid.trans hid'.symm) (hkept hm').2
  · exact fun id expire tick phase hm => h.past id expire tick phase (hmem _ _ _ _ hm)
  · intro id expire tick phase hm hphase heq
    obtain ⟨htick, hle⟩ := h.reached id expire tick phase (hmem _ _ _ _ hm) hphase heq
    exact ⟨htick, fun m hm => hle m (hkept hm).1⟩

/-- What fires had not, in the phase, and what fired before in it was due no later. -/
theorem Inv.follows_fire (h : s.Inv) (hn : n ∈ s.timers.nodes) (hphase : s.inPhase = true)
    (hit : s.it = none) : (s.trace ++ [Mark.fired n.id n.key s.tick s.phase]).Pairwise Follows := by
  refine List.pairwise_append.mpr ⟨h.sound.follows, List.pairwise_singleton _ _, ?_⟩
  intro m hm m' hm'
  obtain rfl := List.mem_singleton.mp hm'
  cases m with
  | erased id =>
      rintro rfl
      exact h.not_erased hn hm
  | fired id expire tick phase =>
      constructor
      · rintro rfl
        obtain ⟨k, hk, -⟩ := h.fired _ _ _ _ hm ⟨n, hn, rfl⟩
        rw [hit] at hk
        exact absurd hk (Option.some_ne_none k).symm
      · intro heq
        exact (h.reached id expire tick phase hm hphase heq).2 n hn
  | read id => exact trivial
  | released id => exact trivial

/-- The first entry fires. -/
theorem Inv.fire (h : s.Inv) {rest : List (Node Int Nat)} (hnodes : s.timers.nodes = n :: rest)
    (hphase : s.inPhase = true) (hit : s.it = none) (hle : n.key ≤ s.tick) :
    Inv { s.mark [.fired n.id n.key s.tick s.phase] with it := some n } := by
  have hn : n ∈ s.timers.nodes := by
    rw [hnodes]
    exact List.mem_cons_self
  have hlt := h.ordered.lt n hn
  have hfirst : ∀ m ∈ s.timers.nodes, n.key ≤ m.key := by
    intro m hm
    have hbefore := h.ordered.before
    rw [hnodes] at hm hbefore
    rcases List.mem_cons.mp hm with rfl | hm
    · exact le_refl _
    · exact ((List.pairwise_cons.mp hbefore).1 m hm).key_le
  have hmem : ∀ {id expire tick phase}, Mark.fired id expire tick phase ∈
      s.trace ++ [.fired n.id n.key s.tick s.phase] →
        Mark.fired id expire tick phase ∈ s.trace ∨
          (id = n.id ∧ expire = n.key ∧ tick = s.tick ∧ phase = s.phase) := by
    intro id expire tick phase hm
    simpa using hm
  refine ⟨h.ordered, ⟨?_, h.sound.balanced, ?_, h.follows_fire hn hphase hit⟩, ?_, ?_, ?_, ?_, ?_⟩
  · intro id hid
    show (s.trace ++ [_]).count _ = s.gone id ∧ (s.trace ++ [_]).count _ = s.gone id
    rw [List.count_append, List.count_append]
    exact h.sound.matched id hid
  · intro id expire tick phase hm
    rcases hmem hm with hm | ⟨-, rfl, rfl, -⟩
    · exact h.sound.late id expire tick phase hm
    · exact hle
  · exact List.forall_mem_append.mpr ⟨h.known, List.forall_mem_singleton.mpr hlt⟩
  · intro m hm
    obtain rfl := Option.some.inj hm
    refine ⟨hphase, hlt, ?_⟩
    intro k hk hid
    have hfind := h.ordered.find hk
    rw [hid, h.ordered.find hn] at hfind
    exact (Option.some.inj hfind).symm
  · intro id expire tick phase hm hqueued
    rcases hmem hm with hm | ⟨rfl, -⟩
    · obtain ⟨k, hk, -⟩ := h.fired id expire tick phase hm hqueued
      rw [hit] at hk
      exact absurd hk (Option.some_ne_none k).symm
    · exact ⟨n, rfl, rfl⟩
  · intro id expire tick phase hm
    rcases hmem hm with hm | ⟨-, -, -, rfl⟩
    · exact h.past id expire tick phase hm
    · exact le_refl _
  · intro id expire tick phase hm _ heq
    rcases hmem hm with hm | ⟨-, rfl, -⟩
    · exact h.reached id expire tick phase hm hphase heq
    · exact ⟨hle, hfirst⟩

/-! ### Steps -/

/-- What the loop reads is there, and what it finds is an entry of the timeout. -/
theorem removeLoop_spec (o : Nat) (nodes : List (Node Int Nat)) :
    (∀ id ∈ (removeLoop o nodes).1, ∃ n ∈ nodes, n.id = id) ∧
      ∀ id, (removeLoop o nodes).2 = some id → ∃ n ∈ nodes, n.id = id ∧ n.val = o := by
  induction nodes with
  | nil => exact ⟨fun _ h => absurd h List.not_mem_nil, fun _ h => absurd h (by simp [removeLoop])⟩
  | cons n nodes ih =>
      rw [removeLoop]
      split
      · rename_i hval
        constructor
        · intro id hid
          exact ⟨n, List.mem_cons_self, (List.mem_singleton.mp hid).symm⟩
        · intro id hid
          exact ⟨n, List.mem_cons_self, Option.some.inj hid, hval⟩
      · constructor
        · intro id hid
          rcases List.mem_cons.mp hid with rfl | hid
          · exact ⟨n, List.mem_cons_self, rfl⟩
          · obtain ⟨m, hm, hid'⟩ := ih.1 id hid
            exact ⟨m, List.mem_cons_of_mem n hm, hid'⟩
        · intro id hid
          obtain ⟨m, hm, hid', hval⟩ := ih.2 id hid
          exact ⟨m, List.mem_cons_of_mem n hm, hid', hval⟩

/-- `RemoveFromDispatcher`: entries are read, and possibly one is erased and released. -/
theorem removeFromDispatcher_cases (s : Timeouts) (o : Nat) : ∃ ids : List Nat,
    (∀ id ∈ ids, ∃ n ∈ s.timers.nodes, n.id = id) ∧
      (s.removeFromDispatcher o = s.mark (ids.map Mark.read) ∨
        ∃ n ∈ s.timers.nodes, s.removeFromDispatcher o =
          ((s.mark (ids.map Mark.read)).erase n.id).release n.val n.id) := by
  obtain ⟨hread, hfound⟩ := removeLoop_spec o s.timers.nodes
  refine ⟨_, hread, ?_⟩
  cases hit : (removeLoop o s.timers.nodes).2 with
  | none => exact Or.inl (by simp only [removeFromDispatcher, hit])
  | some id =>
      obtain ⟨n, hn, rfl, rfl⟩ := hfound id hit
      exact Or.inr ⟨n, hn, by simp only [removeFromDispatcher, hit]⟩

theorem Inv.remove (h : s.Inv) (o : Nat) : (s.removeFromDispatcher o).Inv := by
  obtain ⟨ids, hids, hcases⟩ := removeFromDispatcher_cases s o
  have hread : (s.mark (ids.map Mark.read)).Inv := by
    refine h.read fun id hid => ?_
    obtain ⟨n, hn, rfl⟩ := hids id hid
    exact h.ordered.lt n hn
  rcases hcases with heq | ⟨n, hn, heq⟩
  · rw [heq]
    exact hread
  · have hdrop := hread.drop (n := n) hn (Or.inl rfl) (Or.inl rfl)
    rw [heq]
    simpa [mark, erase, release] using hdrop

theorem Inv.next (h : s.Inv) (hphase : s.inPhase = true) (hit : s.it = none) : s.next.Inv := by
  have hstop : ∀ {s : Timeouts}, s.Inv → s.it = none → Inv { s with inPhase := false } := by
    intro s h hit
    refine ⟨h.ordered, ⟨h.sound.matched, h.sound.balanced, h.sound.late, h.sound.follows⟩, h.known,
      ?_, h.fired, h.past, ?_⟩
    · intro n hn
      rw [show s.it = some n from hn] at hit
      exact absurd hit (Option.some_ne_none n)
    · exact fun _ _ _ _ _ hphase => absurd hphase Bool.false_ne_true
  rw [Timeouts.next]
  split
  · exact hstop h hit
  · rename_i n rest hnodes
    have hread : (s.mark [.read n.id]).Inv := by
      have hlt := h.ordered.lt n (by rw [hnodes]; exact List.mem_cons_self)
      have hall : ∀ id ∈ [n.id], id < s.timers.next := by
        intro id hid
        rwa [List.mem_singleton.mp hid]
      exact h.read hall
    dsimp only
    split
    · exact hstop hread hit
    · rename_i hle
      exact hread.fire hnodes hphase hit (not_lt.mp hle)

theorem Inv.step (delay : Nat → Int) (h : s.Inv) {a : Action} (ha : s.Kept a) :
    (s.step delay a).Inv := by
  cases a with
  | add o =>
      rw [Timeouts.step]
      split
      · rename_i hadd
        refine h.add fun hphase => ?_
        rcases hadd with hidle | ⟨-, hpos⟩
        · rw [hphase] at hidle
          exact absurd hidle.symm Bool.false_ne_true
        · exact hpos
      · exact h
  | remove o =>
      rw [Timeouts.step]
      split
      · exact h.remove o
      · exact h
  | update now =>
      rw [Timeouts.step]
      split
      · exact h
      · rename_i hidle
        have hnone : ∀ n, s.it ≠ some n := fun n hn => hidle (h.it n hn).1
        refine ⟨h.ordered, ⟨h.sound.matched, h.sound.balanced, h.sound.late, h.sound.follows⟩,
          h.known, fun n hn => absurd hn (hnone n), h.fired, ?_, ?_⟩
        · exact fun id expire tick phase hm => Nat.le_succ_of_le (h.past id expire tick phase hm)
        · intro id expire tick phase hm _ heq
          exact absurd (h.past id expire tick phase hm) (by rw [heq]; exact Nat.not_succ_le_self _)
  | next =>
      rw [Timeouts.step]
      split
      · rename_i hnext
        exact h.next hnext.1 hnext.2
      · exact h
  | returned =>
      cases hit : s.it with
      | none =>
          simp only [Timeouts.step, hit]
          exact h
      | some n =>
          have hdrop := h.drop (ha rfl n hit) (Or.inr rfl) (Or.inr ⟨rfl, hit⟩)
          simp only [Timeouts.step, hit]
          simpa [returned, mark, erase, release] using hdrop

/-- The trace only grows. -/
theorem trace_step (delay : Nat → Int) (s : Timeouts) (a : Action) :
    ∃ ms, (s.step delay a).trace = s.trace ++ ms := by
  cases a with
  | add o =>
      rw [step]
      split <;> exact ⟨[], (List.append_nil _).symm⟩
  | remove o =>
      rw [step]
      split
      · obtain ⟨ids, -, heq | ⟨n, -, heq⟩⟩ := removeFromDispatcher_cases s o
        · exact ⟨_, by rw [heq]; rfl⟩
        · exact ⟨ids.map Mark.read ++ [.erased n.id, .released n.id],
            by rw [heq]; simp [mark, erase, release]⟩
      · exact ⟨[], (List.append_nil _).symm⟩
  | update now =>
      rw [step]
      split <;> exact ⟨[], (List.append_nil _).symm⟩
  | next =>
      rw [step]
      split
      · rw [next]
        split
        · exact ⟨[], (List.append_nil _).symm⟩
        · dsimp only
          split
          · exact ⟨_, rfl⟩
          · exact ⟨_, List.append_assoc _ _ _⟩
      · exact ⟨[], (List.append_nil _).symm⟩
  | returned =>
      cases hit : s.it with
      | none => exact ⟨[], by simp only [step, hit, List.append_nil]⟩
      | some n =>
          exact ⟨[.erased n.id, .read n.id, .released n.id],
            by simp [step, hit, returned, mark, erase, release]⟩

/-- What is wrong in the trace stays wrong. -/
theorem not_pairwise_step {R : Mark → Mark → Prop} (delay : Nat → Int) (a : Action)
    (h : ¬s.trace.Pairwise R) : ¬(s.step delay a).trace.Pairwise R := by
  obtain ⟨ms, htrace⟩ := trace_step delay s a
  rw [htrace]
  exact fun hpairwise => h (List.pairwise_append.mp hpairwise).1

theorem Inv.clean_read (h : s.Inv) (hclean : s.Clean) {ms : List Mark}
    (hms : ms.Pairwise Unread) (hread : ∀ id, Mark.read id ∈ ms → ∃ n ∈ s.timers.nodes, n.id = id) :
    (s.trace ++ ms).Pairwise Unread := by
  refine List.pairwise_append.mpr ⟨hclean, hms, ?_⟩
  intro m hm m' hm'
  cases m with
  | erased id =>
      cases m' with
      | read id' =>
          obtain ⟨n, hn, rfl⟩ := hread id' hm'
          rintro rfl
          exact h.not_erased hn hm
      | fired _ _ _ _ => exact trivial
      | erased _ => exact trivial
      | released _ => exact trivial
  | read _ => exact trivial
  | fired _ _ _ _ => exact trivial
  | released _ => exact trivial

/-- Only the return of an `OnTimeout` reads an entry that has been erased. -/
theorem Inv.clean_step (delay : Nat → Int) (h : s.Inv) (hclean : s.Clean) {a : Action}
    (ha : s.NoReturn a) : (s.step delay a).Clean := by
  cases a with
  | add o =>
      rw [Timeouts.step]
      split <;> exact hclean
  | remove o =>
      rw [Timeouts.step]
      split
      · obtain ⟨ids, hids, hcases⟩ := removeFromDispatcher_cases s o
        have hreads : (ids.map Mark.read).Pairwise Unread := by
          rw [List.pairwise_map]
          exact List.pairwise_of_forall fun _ _ => trivial
        rcases hcases with heq | ⟨n, -, heq⟩
        · rw [heq]
          refine h.clean_read hclean hreads fun id hid => hids id ?_
          simpa using hid
        · rw [heq]
          have hall : (s.trace ++ (ids.map Mark.read ++
              [Mark.erased n.id, Mark.released n.id])).Pairwise Unread := by
            refine h.clean_read hclean ?_ fun id hid => hids id (by simpa using hid)
            refine List.pairwise_append.mpr ⟨hreads, by simp [Unread], ?_⟩
            intro m hm m' _
            obtain ⟨id, -, rfl⟩ := List.mem_map.mp hm
            exact trivial
          simpa [Clean, mark, erase, release] using hall
      · exact hclean
  | update now =>
      rw [Timeouts.step]
      split <;> exact hclean
  | next =>
      rw [Timeouts.step]
      split
      · rw [Timeouts.next]
        split
        · exact hclean
        · rename_i n rest hnodes
          have hn : n ∈ s.timers.nodes := by
            rw [hnodes]
            exact List.mem_cons_self
          have hread : (s.trace ++ [Mark.read n.id]).Pairwise Unread :=
            h.clean_read hclean (List.pairwise_singleton _ _) fun id hid =>
              ⟨n, hn, by simpa [eq_comm] using hid⟩
          dsimp only
          split
          · exact hread
          · have hfired : (s.trace ++
                [Mark.read n.id, Mark.fired n.id n.key s.tick s.phase]).Pairwise Unread :=
              h.clean_read hclean (by simp [Unread]) fun id hid =>
                ⟨n, hn, by simpa [eq_comm] using hid⟩
            simpa [Clean, mark] using hfired
      · exact hclean
  | returned =>
      simp only [Timeouts.step, ha rfl]
      exact hclean

/-- The read after the erase. -/
theorem not_clean_returned (delay : Nat → Int) {a : Action} (ha : ¬s.NoReturn a) :
    ¬(s.step delay a).Clean := by
  unfold NoReturn at ha
  push Not at ha
  obtain ⟨rfl, hit⟩ := ha
  obtain ⟨n, hn⟩ := Option.ne_none_iff_exists'.mp hit
  have htrace : (s.step delay .returned).trace =
      s.trace ++ [.erased n.id, .read n.id, .released n.id] := by
    simp [step, hn, returned, mark, erase, release]
  rw [Clean, htrace]
  intro hclean
  have hboth := (List.pairwise_append.mp hclean).2.1
  simp [Unread] at hboth

/-- An entry that its own `OnTimeout` has removed is erased again. -/
theorem Inv.not_follows_returned (delay : Nat → Int) (h : s.Inv) {a : Action} (ha : ¬s.Kept a) :
    ¬(s.step delay a).trace.Pairwise Follows := by
  unfold Kept at ha
  push Not at ha
  obtain ⟨rfl, n, hn, hnot⟩ := ha
  obtain ⟨-, hlt, hsame⟩ := h.it n hn
  have herased := h.erased hlt (by
    rintro ⟨m, hm, hid⟩
    rw [hsame m hm hid] at hm
    exact hnot hm)
  have htrace : (s.step delay .returned).trace =
      s.trace ++ [.erased n.id, .read n.id, .released n.id] := by
    simp [Timeouts.step, hn, returned, mark, Timeouts.erase, release]
  rw [htrace]
  intro hfollows
  exact (List.pairwise_append.mp hfollows).2.2 _ herased (.erased n.id) List.mem_cons_self rfl

/-- **A run of the timer phase is right in everything but the reads iff no `OnTimeout` returns to
    an entry that has been removed, and in these too iff none returns at all.** -/
theorem timeouts_sound_iff (delay : Nat → Int) (as : List Action) :
    ((run (step delay) init as).Sound ∧ (run (step delay) init as).Clean ↔
        Along (step delay) NoReturn init as) ∧
      ((run (step delay) init as).Sound ↔ Along (step delay) Kept init as) := by
  constructor
  · refine run_iff_along (I := fun s : Timeouts => s.Inv ∧ s.Clean)
      (Q := fun s => s.Sound ∧ s.Clean) (B := fun s => ¬s.Clean) ?_ ?_ ?_ ?_ ?_ ⟨inv_init, List.Pairwise.nil⟩ as
    · rintro s a ⟨h, hclean⟩ ha
      refine ⟨h.step delay ?_, h.clean_step delay hclean ha⟩
      intro hreturned n hn
      rw [ha hreturned] at hn
      exact absurd hn (Option.some_ne_none n).symm
    · exact fun s h => ⟨h.1.sound, h.2⟩
    · exact fun s a _ ha => not_clean_returned delay ha
    · exact fun s a h => not_pairwise_step delay a h
    · exact fun s h hright => h hright.2
  · refine run_iff_along (I := Inv) (Q := Sound) (B := fun s => ¬s.trace.Pairwise Follows)
      ?_ ?_ ?_ ?_ ?_ inv_init as
    · exact fun s a h ha => h.step delay ha
    · exact fun s h => h.sound
    · exact fun s a h ha => h.not_follows_returned delay ha
    · exact fun s a h => not_pairwise_step delay a h
    · exact fun s h hsound => h hsound.follows

/-- A timeout is added and fires. -/
def oneFires : List Action := [.add 0, .update 10, .next, .returned]

/-- The entry is read after it has been erased. -/
theorem oneFires_unclean : (run (step fun _ => 5) init oneFires).trace =
      [.read 0, .fired 0 5 10 1, .erased 0, .read 0, .released 0] ∧
    ¬((run (step fun _ => 5) init oneFires).Sound ∧ (run (step fun _ => 5) init oneFires).Clean) := by
  have htrace : (run (step fun _ => 5) init oneFires).trace =
      [.read 0, .fired 0 5 10 1, .erased 0, .read 0, .released 0] := by decide
  refine ⟨htrace, ?_⟩
  rintro ⟨-, hclean⟩
  rw [Clean, htrace] at hclean
  simp [Unread] at hclean

end

end Timeouts

end Jengine.Event
