import Jengine.Lib.IntrusiveList
import Jengine.Lib.Runs

/-!
# Events and their handlers

`Event` (`base/event.h`) keeps its handlers in an intrusive list, the newest first.  A
handler has a linker with a reference of its own, and whoever wants to be called holds
another one; `Trigger` calls the handlers whose linker has two references or more, and
deletes the others.

Handlers are numbered in the order of `Attach`.  A callback may attach handlers and retain
and release linkers; which of this it does may depend on anything.  A linker is freed with
its handler, and nobody releases a reference he does not hold: `retain` and `release` have
no effect where the source would touch freed memory.

What an event is for is said by a `Roster`: the handlers as a list, of which a trigger
visits those that are there when it begins.  The event does what its roster does.
-/

namespace Jengine.Base

open Jengine.Lib

/-- What `Trigger` did with a handler, and the `reference_count()` it saw. -/
inductive Visit where
  | called (handler count : Nat)
  | deleted (handler count : Nat)
deriving DecidableEq, Repr

namespace Visit

def handler : Visit → Nat
  | called h _ => h
  | deleted h _ => h

def count : Visit → Nat
  | called _ n => n
  | deleted _ n => n

def isCalled : Visit → Bool
  | called _ _ => true
  | deleted _ _ => false

end Visit

/-- The handlers of an event, from the newest to the oldest. -/
structure Roster where
  handlers : List Nat
  /-- `linker->reference_count()`. -/
  linkers : Nat → Nat
  /-- The number of the next handler. -/
  next : Nat
  /-- What the calls of `Trigger` have done so far. -/
  visits : List Visit

/-- `Event`. -/
structure Event where
  handlers : IntrusiveList Nat
  linkers : Nat → Nat
  next : Nat
  visits : List Visit

/-- What code outside may do with handlers and linkers. -/
inductive Op where
  | attach
  | retain (handler : Nat)
  | release (handler : Nat)

/-- The callbacks: what a handler does when it is called. -/
abbrev Callbacks := Nat → Roster → List Op

namespace Event

def init : Event := ⟨IntrusiveList.empty, fun _ => 0, 0, []⟩

/-- The roster, read along the links of the list. -/
def roster (s : Event) : Roster :=
  ⟨(IntrusiveList.follow s.handlers.next s.handlers.size s.handlers.front).1, s.linkers, s.next,
    s.visits⟩

/-- `Attach`. -/
def attach (s : Event) : Event :=
  { s with handlers := s.handlers.pushFront s.next
           linkers := Function.update s.linkers s.next 1
           next := s.next + 1 }

/-- `linker->Retain()`. -/
def retain (s : Event) (h : Nat) : Event :=
  if s.handlers.contains h then
    { s with linkers := Function.update s.linkers h (s.linkers h + 1) }
  else s

/-- `linker->Release()` of a reference that the handler does not hold. -/
def release (s : Event) (h : Nat) : Event :=
  if s.handlers.contains h && decide (2 ≤ s.linkers h) then
    { s with linkers := Function.update s.linkers h (s.linkers h - 1) }
  else s

def perform (s : Event) : Op → Event
  | .attach => s.attach
  | .retain h => s.retain h
  | .release h => s.release h

/-- `cur->cb(args...)`. -/
def call (s : Event) (cb : Callbacks) (cur : Nat) : Event :=
  (cb cur s.roster).foldl perform { s with visits := s.visits ++ [.called cur (s.linkers cur)] }

/-- `handlers_.erase(cur)`, followed by `delete`; the second component is what `erase`
    returned. -/
def delete (s : Event) (cur : Nat) : Event × Option Nat :=
  let (l, next) := s.handlers.erase cur
  ({ s with handlers := l
            linkers := Function.update s.linkers cur (s.linkers cur - 1) }, next)

/-- The loop of `Trigger`; `none` if it is not over after so many rounds. -/
def triggerLoop (cb : Callbacks) : Nat → Option Nat → Event → Option Event
  | _, none, s => some s
  | 0, some _, _ => none
  | fuel + 1, some cur, s =>
      if 2 ≤ s.linkers cur then
        let s := s.call cb cur
        triggerLoop cb fuel (s.handlers.next cur) s
      else
        let (s', next) :=
          delete { s with visits := s.visits ++ [.deleted cur (s.linkers cur)] } cur
        triggerLoop cb fuel next s'

/-- `Trigger`. -/
def trigger (cb : Callbacks) (fuel : Nat) (s : Event) : Option Event :=
  triggerLoop cb fuel s.handlers.front s

/-- The loop of `Clear`. -/
def clearLoop : Nat → Option Nat → Event → Option Event
  | _, none, s => some s
  | 0, some _, _ => none
  | fuel + 1, some cur, s =>
      let (s', next) := s.delete cur
      clearLoop fuel next s'

/-- `Clear`. -/
def clear (fuel : Nat) (s : Event) : Option Event := clearLoop fuel s.handlers.front s

/-- What is done with an event from outside of its callbacks. -/
inductive Action where
  | perform (op : Op)
  | trigger (cb : Callbacks)
  | clear

/-- A step.  There is fuel for every handler; that this is enough is part of the results. -/
def step (s : Event) : Action → Event
  | .perform op => s.perform op
  | .trigger cb => (s.trigger cb (s.handlers.size + 1)).getD s
  | .clear => (s.clear (s.handlers.size + 1)).getD s

end Event

/-! ### What an event is for -/

namespace Roster

def init : Roster := ⟨[], fun _ => 0, 0, []⟩

/-- A new handler; its linker has the reference of the handler. -/
def attach (r : Roster) : Roster :=
  { r with handlers := r.next :: r.handlers
           linkers := Function.update r.linkers r.next 1
           next := r.next + 1 }

def retain (r : Roster) (h : Nat) : Roster :=
  if h ∈ r.handlers then { r with linkers := Function.update r.linkers h (r.linkers h + 1) } else r

def release (r : Roster) (h : Nat) : Roster :=
  if h ∈ r.handlers ∧ 2 ≤ r.linkers h then
    { r with linkers := Function.update r.linkers h (r.linkers h - 1) }
  else r

def perform (r : Roster) : Op → Roster
  | .attach => r.attach
  | .retain h => r.retain h
  | .release h => r.release h

def remove (r : Roster) (h : Nat) : Roster :=
  { r with handlers := r.handlers.erase h
           linkers := Function.update r.linkers h (r.linkers h - 1) }

/-- A handler is reached: it is called, and does what its callback does, or it is removed. -/
def visit (cb : Callbacks) (r : Roster) (h : Nat) : Roster :=
  if 2 ≤ r.linkers h then
    (cb h r).foldl perform { r with visits := r.visits ++ [.called h (r.linkers h)] }
  else remove { r with visits := r.visits ++ [.deleted h (r.linkers h)] } h

/-- The handlers that are attached are visited, from the newest to the oldest. -/
def trigger (cb : Callbacks) (r : Roster) : Roster := r.handlers.foldl (visit cb) r

def clear (r : Roster) : Roster := r.handlers.foldl remove r

def step (r : Roster) : Event.Action → Roster
  | .perform op => r.perform op
  | .trigger cb => r.trigger cb
  | .clear => r.clear

/-- The handlers attached in a run and not removed since. -/
def after (as : List Event.Action) : Roster := run step init as

/-- Handlers are in the order of their numbers, and every linker has the reference of its
    handler. -/
structure Good (r : Roster) : Prop where
  newest : r.handlers.Pairwise (· > ·)
  lt : ∀ h ∈ r.handlers, h < r.next
  own : ∀ h ∈ r.handlers, 1 ≤ r.linkers h

theorem init_good : init.Good where
  newest := List.Pairwise.nil
  lt := fun _ h => absurd h List.not_mem_nil
  own := fun _ h => absurd h List.not_mem_nil

/-- The handlers attached since the next one was `a`, when the next one is `b`. -/
def attached (a b : Nat) : List Nat := (List.range' a (b - a)).reverse

theorem attached_self (a : Nat) : attached a a = [] := by
  rw [attached, Nat.sub_self]
  rfl

theorem attached_succ {a b : Nat} (h : a ≤ b) : attached a (b + 1) = b :: attached a b := by
  rw [attached, attached, Nat.succ_sub h, List.range'_1_concat, List.reverse_append,
    Nat.add_sub_cancel' h]
  rfl

theorem attached_append {a b c : Nat} (hab : a ≤ b) (hbc : b ≤ c) :
    attached b c ++ attached a b = attached a c := by
  have happend := List.range'_append_1 (s := a) (m := b - a) (n := c - b)
  rw [Nat.add_sub_cancel' hab, show b - a + (c - b) = c - a by omega] at happend
  rw [attached, attached, attached, ← List.reverse_append, happend]

section

variable {r r' : Roster}

/-- From `r` handlers have been attached and references counted. -/
structure Extends (r r' : Roster) : Prop where
  good : r'.Good
  next_le : r.next ≤ r'.next
  handlers : r'.handlers = attached r.next r'.next ++ r.handlers
  visits : r'.visits = r.visits

theorem Good.extends_refl (h : r.Good) : Extends r r where
  good := h
  next_le := Nat.le_refl _
  handlers := by rw [attached_self, List.nil_append]
  visits := rfl

/-- Only the counts of linkers change. -/
theorem Good.recount (h : r.Good) {linkers : Nat → Nat}
    (hown : ∀ h ∈ r.handlers, 1 ≤ linkers h) : Good { r with linkers := linkers } where
  newest := h.newest
  lt := h.lt
  own := hown

theorem Good.attach (h : r.Good) : r.attach.Good where
  newest := List.pairwise_cons.mpr ⟨h.lt, h.newest⟩
  lt := by
    intro y hy
    show y < r.next + 1
    rcases List.mem_cons.mp hy with rfl | hy
    · exact Nat.lt_succ_self _
    · exact Nat.lt_succ_of_lt (h.lt y hy)
  own := by
    intro y hy
    show 1 ≤ Function.update r.linkers r.next 1 y
    rw [Function.update_apply]
    split
    · exact Nat.le_refl 1
    · rename_i hne
      exact h.own y ((List.mem_cons.mp hy).resolve_left hne)

theorem Extends.perform (h : Extends r r') (op : Op) : Extends r (r'.perform op) := by
  cases op with
  | attach =>
      refine ⟨h.good.attach, Nat.le_succ_of_le h.next_le, ?_, h.visits⟩
      show r'.next :: r'.handlers = attached r.next (r'.next + 1) ++ r.handlers
      rw [attached_succ h.next_le, h.handlers, List.cons_append]
  | retain x =>
      simp only [Roster.perform, retain]
      split
      · refine ⟨h.good.recount ?_, h.next_le, h.handlers, h.visits⟩
        intro y hy
        have hle := h.good.own y hy
        rw [Function.update_apply]
        split <;> omega
      · exact h
  | release x =>
      simp only [Roster.perform, release]
      split
      · rename_i hmany
        refine ⟨h.good.recount ?_, h.next_le, h.handlers, h.visits⟩
        intro y hy
        have hle := h.good.own y hy
        rw [Function.update_apply]
        split <;> omega
      · exact h

theorem Extends.performs (h : Extends r r') (ops : List Op) :
    Extends r (ops.foldl Roster.perform r') := by
  induction ops generalizing r' with
  | nil => exact h
  | cons op ops ih => exact ih (h.perform op)

/-- What a callback does with the roster it finds. -/
theorem Good.called (h : r.Good) (cb : Callbacks) (cur : Nat) :
    Extends { r with visits := r.visits ++ [.called cur (r.linkers cur)] }
      ((cb cur r).foldl Roster.perform
        { r with visits := r.visits ++ [.called cur (r.linkers cur)] }) := by
  have hseen : Good { r with visits := r.visits ++ [.called cur (r.linkers cur)] } :=
    ⟨h.newest, h.lt, h.own⟩
  exact hseen.extends_refl.performs (cb cur r)

theorem Good.nodup (h : r.Good) : r.handlers.Nodup := h.newest.imp fun hgt => Nat.ne_of_gt hgt

theorem Good.remove (h : r.Good) (cur : Nat) : (r.remove cur).Good where
  newest := h.newest.sublist List.erase_sublist
  lt := fun x hx => h.lt x (List.mem_of_mem_erase hx)
  own := by
    intro x hx
    obtain ⟨hne, hmem⟩ := h.nodup.mem_erase_iff.mp hx
    show 1 ≤ Function.update r.linkers cur (r.linkers cur - 1) x
    rw [Function.update_of_ne hne]
    exact h.own x hmem

theorem Good.visit (h : r.Good) (cb : Callbacks) (cur : Nat) : (r.visit cb cur).Good := by
  unfold Roster.visit
  split
  · exact (h.called cb cur).good
  · exact Good.remove (r := { r with visits := r.visits ++ [.deleted cur (r.linkers cur)] })
      ⟨h.newest, h.lt, h.own⟩ cur

theorem Good.visits (h : r.Good) (cb : Callbacks) (hs : List Nat) :
    (hs.foldl (Roster.visit cb) r).Good := by
  induction hs generalizing r with
  | nil => exact h
  | cons cur hs ih => exact ih (h.visit cb cur)

theorem Good.removes (h : r.Good) (hs : List Nat) : (hs.foldl Roster.remove r).Good := by
  induction hs generalizing r with
  | nil => exact h
  | cons cur hs ih => exact ih (h.remove cur)

theorem Good.step (h : r.Good) (a : Event.Action) : (r.step a).Good := by
  cases a with
  | perform op => exact (h.extends_refl.perform op).good
  | trigger cb => exact h.visits cb r.handlers
  | clear => exact h.removes r.handlers

/-- What visiting `rest` has done: each of these handlers has been visited, those whose linker
    had two references when they were reached called and the others removed; the handlers before
    them are as they were, with the new ones in front. -/
structure Walked (r : Roster) (before rest : List Nat) (visits : List Visit) (r' : Roster) :
    Prop where
  log : r'.visits = r.visits ++ visits
  each : visits.map Visit.handler = rest
  called_iff : ∀ v ∈ visits, v.isCalled = true ↔ 2 ≤ v.count
  next_le : r.next ≤ r'.next
  handlers : r'.handlers = attached r.next r'.next ++
    (before ++ (visits.filter Visit.isCalled).map Visit.handler)

theorem Good.visit_called (h : r.Good) (cb : Callbacks) {cur : Nat} (hcount : 2 ≤ r.linkers cur) :
    r.next ≤ (r.visit cb cur).next ∧
      (r.visit cb cur).handlers = attached r.next (r.visit cb cur).next ++ r.handlers ∧
      (r.visit cb cur).visits = r.visits ++ [.called cur (r.linkers cur)] := by
  have hext := h.called cb cur
  rw [Roster.visit, if_pos hcount]
  exact ⟨hext.next_le, hext.handlers, hext.visits⟩

theorem Good.visit_deleted (h : r.Good) (cb : Callbacks) {before rest : List Nat} {cur : Nat}
    (hcount : ¬2 ≤ r.linkers cur) (hr : r.handlers = before ++ cur :: rest) :
    (r.visit cb cur).next = r.next ∧ (r.visit cb cur).handlers = before ++ rest ∧
      (r.visit cb cur).visits = r.visits ++ [.deleted cur (r.linkers cur)] := by
  have hnodup := h.nodup
  rw [hr, List.nodup_append] at hnodup
  have hbefore : cur ∉ before := fun hmem => hnodup.2.2 cur hmem cur List.mem_cons_self rfl
  rw [Roster.visit, if_neg hcount]
  refine ⟨rfl, ?_, rfl⟩
  show r.handlers.erase cur = before ++ rest
  rw [hr, List.erase_append_right _ hbefore, List.erase_cons_head]

/-- The visits, by induction on the handlers that are still to be visited. -/
theorem visits_spec (cb : Callbacks) : ∀ (rest before : List Nat) (r : Roster), r.Good →
    r.handlers = before ++ rest →
    ∃ visits, Walked r before rest visits (rest.foldl (Roster.visit cb) r) := by
  intro rest
  induction rest with
  | nil =>
      intro before r h hr
      refine ⟨[], (List.append_nil _).symm, rfl, ?_, Nat.le_refl _, ?_⟩
      · exact fun v hv => absurd hv List.not_mem_nil
      · rw [List.foldl_nil, attached_self, List.nil_append, hr]
        rfl
  | cons cur rest ih =>
      intro before r h hr
      have hgood := h.visit cb cur
      by_cases hcount : 2 ≤ r.linkers cur
      · obtain ⟨hle, hhandlers, hvisits⟩ := h.visit_called cb hcount
        have hsplit : (r.visit cb cur).handlers =
            (attached r.next (r.visit cb cur).next ++ before ++ [cur]) ++ rest := by
          rw [hhandlers, hr]
          simp
        obtain ⟨visits, hwalk⟩ := ih _ _ hgood hsplit
        refine ⟨.called cur (r.linkers cur) :: visits, ?_, ?_, ?_, ?_, ?_⟩
        · rw [List.foldl_cons, hwalk.log, hvisits, List.append_assoc, List.singleton_append]
        · rw [List.map_cons, hwalk.each]
          rfl
        · intro v hv
          rcases List.mem_cons.mp hv with rfl | hv
          · exact iff_of_true rfl hcount
          · exact hwalk.called_iff v hv
        · exact Nat.le_trans hle hwalk.next_le
        · have hkept := hwalk.handlers
          rw [List.foldl_cons, ← attached_append hle hwalk.next_le]
          simpa [List.filter_cons, Visit.isCalled, Visit.handler] using hkept
      · obtain ⟨hnext, hhandlers, hvisits⟩ := h.visit_deleted cb hcount hr
        obtain ⟨visits, hwalk⟩ := ih _ _ hgood hhandlers
        refine ⟨.deleted cur (r.linkers cur) :: visits, ?_, ?_, ?_, ?_, ?_⟩
        · rw [List.foldl_cons, hwalk.log, hvisits, List.append_assoc, List.singleton_append]
        · rw [List.map_cons, hwalk.each]
          rfl
        · intro v hv
          rcases List.mem_cons.mp hv with rfl | hv
          · exact iff_of_false Bool.false_ne_true hcount
          · exact hwalk.called_iff v hv
        · rw [← hnext]
          exact hwalk.next_le
        · have hkept := hwalk.handlers
          rw [hnext] at hkept
          exact hkept

/-- Removing all handlers leaves none. -/
theorem clear_handlers (r : Roster) : r.clear.handlers = [] := by
  have hfrom : ∀ (hs : List Nat) (r : Roster), r.handlers = hs →
      (hs.foldl Roster.remove r).handlers = [] := by
    intro hs
    induction hs with
    | nil => exact fun r hr => hr
    | cons cur hs ih =>
        intro r hr
        apply ih
        show r.handlers.erase cur = hs
        rw [hr, List.erase_cons_head]
  exact hfrom r.handlers r rfl

end

end Roster

/-! ### The event does what its roster does -/

namespace Event

variable {s : Event} {r : Roster}

/-- The links spell the handlers of the roster, and the rest is the same. -/
structure Shows (s : Event) (r : Roster) : Prop where
  rep : s.handlers.Represents r.handlers
  linkers : s.linkers = r.linkers
  next : s.next = r.next
  visits : s.visits = r.visits

theorem init_shows : init.Shows Roster.init where
  rep := IntrusiveList.represents_empty
  linkers := rfl
  next := rfl
  visits := rfl

theorem Shows.roster_eq (h : s.Shows r) : s.roster = r := by
  have hfollow := h.rep.follow_eq
  rw [← h.rep.size] at hfollow
  rw [roster, hfollow, h.linkers, h.next, h.visits]

theorem Shows.attach (h : s.Shows r) (hr : r.Good) : s.attach.Shows r.attach where
  rep := by
    show (s.handlers.pushFront s.next).Represents (r.next :: r.handlers)
    rw [h.next]
    exact h.rep.pushFront fun hmem => Nat.lt_irrefl _ (hr.lt _ hmem)
  linkers := by
    show Function.update s.linkers s.next 1 = Function.update r.linkers r.next 1
    rw [h.linkers, h.next]
  next := congrArg Nat.succ h.next
  visits := h.visits

theorem Shows.retain (h : s.Shows r) (x : Nat) : (s.retain x).Shows (r.retain x) := by
  unfold Event.retain Roster.retain
  by_cases hx : x ∈ r.handlers
  · rw [if_pos ((h.rep.mem_iff x).mpr hx), if_pos hx, h.linkers]
    exact ⟨h.rep, rfl, h.next, h.visits⟩
  · rw [if_neg (mt (h.rep.mem_iff x).mp hx), if_neg hx]
    exact h

theorem Shows.release (h : s.Shows r) (x : Nat) : (s.release x).Shows (r.release x) := by
  unfold Event.release Roster.release
  have hiff : (s.handlers.contains x && decide (2 ≤ s.linkers x)) = true ↔
      x ∈ r.handlers ∧ 2 ≤ r.linkers x := by
    rw [Bool.and_eq_true, h.rep.mem_iff, decide_eq_true_eq, h.linkers]
  by_cases hx : x ∈ r.handlers ∧ 2 ≤ r.linkers x
  · rw [if_pos (hiff.mpr hx), if_pos hx, h.linkers]
    exact ⟨h.rep, rfl, h.next, h.visits⟩
  · rw [if_neg (mt hiff.mp hx), if_neg hx]
    exact h

theorem Shows.perform (h : s.Shows r) (hr : r.Good) (op : Op) :
    (s.perform op).Shows (r.perform op) := by
  cases op with
  | attach => exact h.attach hr
  | retain x => exact h.retain x
  | release x => exact h.release x

theorem Shows.performs (h : s.Shows r) (hr : r.Good) (ops : List Op) :
    (ops.foldl Event.perform s).Shows (ops.foldl Roster.perform r) := by
  induction ops generalizing s r with
  | nil => exact h
  | cons op ops ih => exact ih (h.perform hr op) (hr.extends_refl.perform op).good

theorem Shows.seen (h : s.Shows r) (v : Visit) :
    Shows { s with visits := s.visits ++ [v] } { r with visits := r.visits ++ [v] } where
  rep := h.rep
  linkers := h.linkers
  next := h.next
  visits := congrArg (· ++ [v]) h.visits

/-- The callback is given the roster, and does the same with both. -/
theorem Shows.call (h : s.Shows r) (hr : r.Good) (cb : Callbacks) {cur : Nat}
    (hcount : 2 ≤ r.linkers cur) : (s.call cb cur).Shows (r.visit cb cur) := by
  have hseen := h.seen (.called cur (r.linkers cur))
  rw [Event.call, Roster.visit, if_pos hcount, h.roster_eq, h.linkers]
  rw [h.linkers] at hseen
  exact hseen.performs ⟨hr.newest, hr.lt, hr.own⟩ (cb cur r)

/-- A handler is taken out of the list, and `erase` returns the one behind it. -/
theorem Shows.delete (h : s.Shows r) (hr : r.Good) {before rest : List Nat} {cur : Nat}
    (hhandlers : r.handlers = before ++ cur :: rest) :
    (s.delete cur).1.Shows (r.remove cur) ∧ (s.delete cur).2 = rest.head? := by
  have hrep := h.rep
  rw [hhandlers] at hrep
  obtain ⟨hrep', hnext⟩ := hrep.erase_at
  have hnodup := hr.nodup
  rw [hhandlers, List.nodup_append] at hnodup
  have hbefore : cur ∉ before := fun hmem => hnodup.2.2 cur hmem cur List.mem_cons_self rfl
  refine ⟨⟨?_, ?_, h.next, h.visits⟩, hnext⟩
  · show (s.handlers.erase cur).1.Represents (r.handlers.erase cur)
    rw [hhandlers, List.erase_append_right _ hbefore, List.erase_cons_head]
    exact hrep'
  · show Function.update s.linkers cur (s.linkers cur - 1) =
      Function.update r.linkers cur (r.linkers cur - 1)
    rw [h.linkers]

theorem Shows.deleted (h : s.Shows r) (hr : r.Good) (cb : Callbacks) {before rest : List Nat}
    {cur : Nat} (hcount : ¬2 ≤ r.linkers cur) (hhandlers : r.handlers = before ++ cur :: rest) :
    (Event.delete { s with visits := s.visits ++ [.deleted cur (s.linkers cur)] } cur).1.Shows
        (r.visit cb cur) ∧
      (Event.delete { s with visits := s.visits ++ [.deleted cur (s.linkers cur)] } cur).2 =
        rest.head? := by
  have hseen := h.seen (.deleted cur (s.linkers cur))
  rw [Roster.visit, if_neg hcount, ← congrFun h.linkers cur]
  exact hseen.delete ⟨hr.newest, hr.lt, hr.own⟩ hhandlers

/-- The loop of `Trigger` from any place on, by induction on the handlers it has still to visit:
    those the callbacks attach lie in front of them. -/
theorem triggerLoop_spec (cb : Callbacks) : ∀ (rest before : List Nat) (s : Event) (r : Roster),
    s.Shows r → r.Good → r.handlers = before ++ rest →
    ∃ s', (∀ fuel, rest.length ≤ fuel → triggerLoop cb fuel rest.head? s = some s') ∧
      s'.Shows (rest.foldl (Roster.visit cb) r) := by
  intro rest
  induction rest with
  | nil =>
      intro before s r h hr hhandlers
      refine ⟨s, fun fuel _ => ?_, h⟩
      rw [List.head?_nil, triggerLoop]
  | cons cur rest ih =>
      intro before s r h hr hhandlers
      have hgood := hr.visit cb cur
      by_cases hcount : 2 ≤ r.linkers cur
      · have hcall := h.call hr cb hcount
        obtain ⟨-, hvisited, -⟩ := hr.visit_called cb hcount
        have hsplit : (r.visit cb cur).handlers =
            (Roster.attached r.next (r.visit cb cur).next ++ before ++ [cur]) ++ rest := by
          rw [hvisited, hhandlers]
          simp
        obtain ⟨s', hloop, hshows⟩ := ih _ _ _ hcall hgood hsplit
        have hrep := hcall.rep
        rw [hsplit, List.append_assoc, List.singleton_append] at hrep
        refine ⟨s', fun fuel hfuel => ?_, hshows⟩
        obtain ⟨fuel, rfl⟩ := Nat.exists_eq_add_one_of_ne_zero (Nat.ne_zero_of_lt hfuel)
        rw [← h.linkers] at hcount
        simp only [List.head?_cons, triggerLoop, if_pos hcount, hrep.next_eq]
        exact hloop fuel (Nat.le_of_succ_le_succ hfuel)
      · obtain ⟨hdelete, hnext⟩ := h.deleted hr cb hcount hhandlers
        obtain ⟨-, hvisited, -⟩ := hr.visit_deleted cb hcount hhandlers
        obtain ⟨s', hloop, hshows⟩ := ih before _ _ hdelete hgood hvisited
        refine ⟨s', fun fuel hfuel => ?_, hshows⟩
        obtain ⟨fuel, rfl⟩ := Nat.exists_eq_add_one_of_ne_zero (Nat.ne_zero_of_lt hfuel)
        rw [← h.linkers] at hcount
        simp only [List.head?_cons, triggerLoop, if_neg hcount, hnext]
        exact hloop fuel (Nat.le_of_succ_le_succ hfuel)

theorem trigger_spec (h : s.Shows r) (hr : r.Good) (cb : Callbacks) :
    ∃ s', (∀ fuel, r.handlers.length ≤ fuel → s.trigger cb fuel = some s') ∧
      s'.Shows (r.trigger cb) := by
  obtain ⟨s', hloop, hshows⟩ := triggerLoop_spec cb r.handlers [] s r h hr rfl
  rw [← h.rep.head] at hloop
  exact ⟨s', hloop, hshows⟩

theorem clear_spec (h : s.Shows r) (hr : r.Good) :
    ∃ s', (∀ fuel, r.handlers.length ≤ fuel → s.clear fuel = some s') ∧ s'.Shows r.clear := by
  have hfrom : ∀ (hs : List Nat) (s : Event) (r : Roster), s.Shows r → r.Good → r.handlers = hs →
      ∃ s', (∀ fuel, hs.length ≤ fuel → clearLoop fuel hs.head? s = some s') ∧
        s'.Shows (hs.foldl Roster.remove r) := by
    intro hs
    induction hs with
    | nil =>
        intro s r h _ _
        refine ⟨s, fun fuel _ => ?_, h⟩
        rw [List.head?_nil, clearLoop]
    | cons cur rest ih =>
        intro s r h hr hhandlers
        have hfirst : r.handlers = [] ++ cur :: rest := hhandlers
        obtain ⟨hdelete, hnext⟩ := h.delete hr hfirst
        have hrest : (r.remove cur).handlers = rest := by
          show r.handlers.erase cur = rest
          rw [hhandlers, List.erase_cons_head]
        obtain ⟨s', hloop, hshows⟩ := ih _ _ hdelete (hr.remove cur) hrest
        refine ⟨s', fun fuel hfuel => ?_, hshows⟩
        obtain ⟨fuel, rfl⟩ := Nat.exists_eq_add_one_of_ne_zero (Nat.ne_zero_of_lt hfuel)
        simp only [List.head?_cons, clearLoop, hnext]
        exact hloop fuel (Nat.le_of_succ_le_succ hfuel)
  obtain ⟨s', hloop, hshows⟩ := hfrom r.handlers s r h hr rfl
  rw [← h.rep.head] at hloop
  exact ⟨s', hloop, hshows⟩

/-! ### Runs -/

theorem Shows.step (h : s.Shows r) (hr : r.Good) (a : Action) : (s.step a).Shows (r.step a) := by
  have hfuel : r.handlers.length ≤ s.handlers.size + 1 := by
    rw [h.rep.size]
    exact Nat.le_succ _
  cases a with
  | perform op => exact h.perform hr op
  | trigger cb =>
      obtain ⟨s', htrigger, hshows⟩ := trigger_spec h hr cb
      simp only [Event.step, htrigger _ hfuel, Option.getD_some]
      exact hshows
  | clear =>
      obtain ⟨s', hclear, hshows⟩ := clear_spec h hr
      simp only [Event.step, hclear _ hfuel, Option.getD_some]
      exact hshows

theorem run_shows (as : List Action) :
    (run step init as).Shows (Roster.after as) ∧ (Roster.after as).Good := by
  have hpair : ∀ (as : List Action) (s : Event) (r : Roster), s.Shows r → r.Good →
      (run step s as).Shows (run Roster.step r as) ∧ (run Roster.step r as).Good := by
    intro as
    induction as with
    | nil => exact fun s r h hr => ⟨h, hr⟩
    | cons a as ih => exact fun s r h hr => ih _ _ (h.step hr a) (hr.step a)
  exact hpair as init Roster.init init_shows Roster.init_good

/-- **`Trigger` in any run.**  It ends; it visits the handlers attached in the run and not removed
    since, from the newest to the oldest, each once; the callbacks of those whose linker has two
    references when they are reached do what they do, the others are removed, and the handlers
    attached meanwhile are kept. -/
theorem trigger_of_run (as : List Action) (cb : Callbacks) :
    (run step init as).roster = Roster.after as ∧ (Roster.after as).Good ∧
      ∃ s' visits, (∀ fuel, (Roster.after as).handlers.length ≤ fuel →
        (run step init as).trigger cb fuel = some s') ∧
      s'.roster = (Roster.after as).trigger cb ∧
      Roster.Walked (Roster.after as) [] (Roster.after as).handlers visits s'.roster := by
  obtain ⟨hshows, hgood⟩ := run_shows as
  obtain ⟨s', htrigger, hshows'⟩ := trigger_spec hshows hgood cb
  obtain ⟨visits, hwalk⟩ := Roster.visits_spec cb _ [] (Roster.after as) hgood rfl
  have hroster := hshows'.roster_eq
  rw [Roster.trigger] at hroster
  rw [← hroster] at hwalk
  exact ⟨hshows.roster_eq, hgood, s', visits, htrigger, hshows'.roster_eq, hwalk⟩

/-- The handler 1 attaches a handler and releases the linker of 0. -/
def renews : Callbacks := fun h _ => if h = 1 then [.attach, .release 0] else []

/-- Both handlers have two references when the trigger begins. -/
def bothHeld : List Action :=
  [.perform .attach, .perform .attach, .perform (.retain 0), .perform (.retain 1)]

theorem trigger_of_run_bothHeld :
    ∃ s' visits, (∀ fuel, 2 ≤ fuel → (run step init bothHeld).trigger renews fuel = some s') ∧
      visits = [.called 1 2, .deleted 0 1] ∧ s'.roster.handlers = [2, 1] ∧
      Roster.Walked (Roster.after bothHeld) [] [1, 0] visits s'.roster := by
  obtain ⟨-, -, s', visits, htrigger, hroster, hwalk⟩ := trigger_of_run bothHeld renews
  have hvisits := hwalk.log
  rw [hroster] at hvisits
  refine ⟨s', visits, htrigger, hvisits.symm, ?_, hwalk⟩
  rw [hroster]
  rfl

end Event

end Jengine.Base
