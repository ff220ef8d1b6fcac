import Jengine.Lib.IntrusiveList
import Jengine.Lib.Runs

/-!
# Intrusive lists

`IntrusiveList` (`base/utils/intrusive_list.h`).  The hook of an item holds its neighbours and
the list it is in, so an item is in one list at a time and there are many lists over the same
items.  Lists and items are named by the values of two types, and a state is the members of all
lists and the hooks of all items.
-/

namespace Jengine.Utils

open Jengine.Lib (Hook run Along)

variable {L α : Type}

/-- `IntrusiveListMemberHook`. -/
structure IntrusiveListMemberHook (L α : Type) where
  listPre : Option α
  listNext : Option α
  list : Option L

/-- The members `head_` and `size_` of all lists, and the member `list_member_hook_` of all
    items. -/
structure IntrusiveLists (L α : Type) where
  head : L → Option α
  size : L → Nat
  hook : α → IntrusiveListMemberHook L α

namespace IntrusiveLists

/-- All lists and items as they are constructed. -/
def make : IntrusiveLists L α := ⟨fun _ => none, fun _ => 0, fun _ => ⟨none, none, none⟩⟩

def empty (w : IntrusiveLists L α) (this : L) : Bool := w.size this == 0

def front (w : IntrusiveLists L α) (this : L) : Option α := w.head this

def contains [DecidableEq L] (w : IntrusiveLists L α) (this : L) (item : α) : Bool :=
  (w.hook item).list = some this

/-- `list_next` and the static `next`. -/
def listNext (w : IntrusiveLists L α) (item : α) : Option α := (w.hook item).listNext

def listLinked (w : IntrusiveLists L α) (item : α) : Bool := (w.hook item).list.isSome

variable [DecidableEq α] [DecidableEq L]

/-- Change the hook of an item. -/
def setHook (w : IntrusiveLists L α) (item : α) (h : IntrusiveListMemberHook L α) :
    IntrusiveLists L α :=
  { w with hook := Function.update w.hook item h }

/-- `x->list_member_hook_.list_pre_ = pre`, behind a test that `x` is not null. -/
def setPre (w : IntrusiveLists L α) (x pre : Option α) : IntrusiveLists L α :=
  match x with
  | none => w
  | some x => w.setHook x { w.hook x with listPre := pre }

/-- `x->list_member_hook_.list_next_ = next`, behind a test that `x` is not null. -/
def setNext (w : IntrusiveLists L α) (x next : Option α) : IntrusiveLists L α :=
  match x with
  | none => w
  | some x => w.setHook x { w.hook x with listNext := next }

/-- `item->list_member_hook_.list_ = list`. -/
def setList (w : IntrusiveLists L α) (item : α) (list : Option L) : IntrusiveLists L α :=
  w.setHook item { w.hook item with list := list }

def setHead (w : IntrusiveLists L α) (this : L) (head : Option α) : IntrusiveLists L α :=
  { w with head := Function.update w.head this head }

def setSize (w : IntrusiveLists L α) (this : L) (size : Nat) : IntrusiveLists L α :=
  { w with size := Function.update w.size this size }

/-- `erase`; the second component is what it returns. -/
def erase (w : IntrusiveLists L α) (this : L) (item : α) : IntrusiveLists L α × Option α :=
  let (w', next) :=
    if some item = w.head this then
      let w' := w.setPre (w.hook item).listNext none
      let w' := w'.setHead this (w'.hook item).listNext
      (w', w'.head this)
    else
      let w' := w.setPre (w.hook item).listNext (w.hook item).listPre
      let w' := w'.setNext (w'.hook item).listPre (w'.hook item).listNext
      (w', (w'.hook item).listNext)
  let w' := w'.setSize this (w'.size this - 1)
  let w' := w'.setNext (some item) none
  let w' := w'.setPre (some item) none
  (w'.setList item none, next)

def pushFront (w : IntrusiveLists L α) (this : L) (item : α) : IntrusiveLists L α :=
  let w' :=
    if w.head this = none then
      let w' := w.setPre (some item) none
      let w' := w'.setNext (some item) none
      w'.setHead this (some item)
    else
      let w' := w.setNext (some item) (w.head this)
      let w' := w'.setPre (some item) none
      let w' := w'.setPre (w'.head this) (some item)
      w'.setHead this (some item)
  let w' := w'.setList item (some this)
  w'.setSize this (w'.size this + 1)

/-! ### One of the lists -/

/-- What a list can see: its own members, and of an item whether it is in this list. -/
def view (w : IntrusiveLists L α) (this : L) : Lib.IntrusiveList α :=
  ⟨w.head this, w.size this, fun x =>
    ⟨(w.hook x).listPre, (w.hook x).listNext, decide ((w.hook x).list = some this)⟩⟩

/-- The hook of an item as one of the lists sees it. -/
def viewHook (this : L) (h : IntrusiveListMemberHook L α) : Hook α :=
  ⟨h.listPre, h.listNext, decide (h.list = some this)⟩

variable (w : IntrusiveLists L α) (this : L)

theorem view_setHook (item : α) (h : IntrusiveListMemberHook L α) :
    (w.setHook item h).view this = (w.view this).setHook item (viewHook this h) := by
  simp only [setHook, view, Lib.IntrusiveList.setHook]
  congr 1
  funext x
  by_cases hx : x = item
  · subst hx
    simp only [Function.update_self]
    rfl
  · simp only [Function.update_of_ne hx]

theorem view_setPre (x pre : Option α) :
    (w.setPre x pre).view this = (w.view this).setPre x pre := by
  cases x with
  | none => rfl
  | some x => exact w.view_setHook this x _

theorem view_setNext (x next : Option α) :
    (w.setNext x next).view this = (w.view this).setNext x next := by
  cases x with
  | none => rfl
  | some x => exact w.view_setHook this x _

omit [DecidableEq α] in
theorem view_setHead (head : Option α) :
    (w.setHead this head).view this = { w.view this with head := head } := by
  simp only [setHead, view, Function.update_self]
  rfl

omit [DecidableEq α] in
theorem view_setSize (size : Nat) :
    (w.setSize this size).view this = { w.view this with size := size } := by
  simp only [setSize, view, Function.update_self]
  rfl

omit [DecidableEq L] in
/-- What `erase` leaves in the hook of the item. -/
theorem setHook_cleared (item : α) :
    ((w.setNext (some item) none).setPre (some item) none).setList item none =
      w.setHook item ⟨none, none, none⟩ := by
  simp only [setPre, setNext, setList, setHook, Function.update_self, Function.update_idem]

omit [DecidableEq L] in
theorem size_setPre (x pre : Option α) : (w.setPre x pre).size = w.size := by
  cases x <;> rfl

omit [DecidableEq L] in
theorem size_setNext (x next : Option α) : (w.setNext x next).size = w.size := by
  cases x <;> rfl

omit [DecidableEq L] in
theorem listNext_setPre (x pre : Option α) (y : α) :
    ((w.setPre x pre).hook y).listNext = (w.hook y).listNext := by
  cases x with
  | none => rfl
  | some x =>
      simp only [setPre, setHook]
      by_cases hy : y = x
      · rw [hy, Function.update_self]
      · rw [Function.update_of_ne hy]

/-- A list takes an item out of itself as it would if it were alone. -/
theorem view_erase (item : α) :
    (w.erase this item).1.view this = ((w.view this).erase item).1 ∧
      (w.erase this item).2 = ((w.view this).erase item).2 := by
  simp only [erase, setHook_cleared, view_setHook, view_setSize]
  by_cases hhead : some item = w.head this
  · rw [Lib.IntrusiveList.erase, if_pos (show some item = (w.view this).head from hhead)]
    simp only [if_pos hhead, view_setHead, view_setPre, listNext_setPre]
    simp only [setHead, size_setPre, Function.update_self]
    exact ⟨rfl, rfl⟩
  · rw [Lib.IntrusiveList.erase, if_neg (show ¬ some item = (w.view this).head from hhead)]
    obtain ⟨w', hw'⟩ : ∃ w', w.setPre (w.hook item).listNext (w.hook item).listPre = w' := ⟨_, rfl⟩
    have hpre : (w.view this).setPre ((w.view this).hooks item).next
        ((w.view this).hooks item).pre = w'.view this := by
      rw [← hw']
      exact (w.view_setPre this _ _).symm
    have hsize : w'.size = w.size := by rw [← hw', size_setPre]
    have hnext := w'.view_setNext this (w'.hook item).listPre (w'.hook item).listNext
    simp only [if_neg hhead, hw', hpre, size_setNext, hsize, hnext]
    exact ⟨rfl, congrArg (fun v => (v.hooks item).next) hnext⟩

/-- `push_front` links the item in before the front, if there is one. -/
theorem pushFront_eq (item : α) :
    w.pushFront this item =
      (((w.setHook item ⟨none, w.head this, some this⟩).setPre (w.head this) (some item)).setHead
        this (some item)).setSize this (w.size this + 1) := by
  unfold pushFront
  cases hhead : w.head this with
  | none =>
      rw [if_pos rfl]
      simp only [setPre, setNext, setList, setHook, setHead, setSize, Function.update_self,
        Function.update_idem]
  | some front =>
      rw [if_neg (Option.some_ne_none front)]
      have hfront : ((w.setNext (some item) (some front)).setPre (some item) none).head this =
          some front := hhead
      simp only [hfront]
      by_cases hitem : front = item
      · subst hitem
        simp only [setPre, setNext, setList, setHook, setHead, setSize, Function.update_self,
          Function.update_idem]
      · simp only [setPre, setNext, setList, setHook, setHead, setSize, Function.update_self,
          Function.update_of_ne hitem, Function.update_of_ne (Ne.symm hitem), Function.update_idem,
          Function.update_comm hitem]

/-- A list puts an item before its front as it would if it were alone. -/
theorem view_pushFront (item : α) :
    (w.pushFront this item).view this = (w.view this).pushFront item := by
  have hlinked : viewHook this (⟨none, w.head this, some this⟩ : IntrusiveListMemberHook L α) =
      ⟨none, (w.view this).head, true⟩ := by
    rw [viewHook, decide_eq_true rfl]
    rfl
  rw [pushFront_eq, view_setSize, view_setHead, view_setPre, view_setHook, hlinked]
  rfl

/-! ### What the operations leave alone -/

section

variable {w : IntrusiveLists L α} {this other : L} {item x : α}

omit [DecidableEq L] in
theorem hook_setPre_of_ne {y : Option α} (h : y ≠ some x) (pre : Option α) :
    (w.setPre y pre).hook x = w.hook x := by
  cases y with
  | none => rfl
  | some y => exact Function.update_of_ne (fun heq => h (congrArg some heq.symm)) _ _

omit [DecidableEq L] in
theorem hook_setNext_of_ne {y : Option α} (h : y ≠ some x) (next : Option α) :
    (w.setNext y next).hook x = w.hook x := by
  cases y with
  | none => rfl
  | some y => exact Function.update_of_ne (fun heq => h (congrArg some heq.symm)) _ _

omit [DecidableEq L] in
theorem list_setPre (y pre : Option α) : ((w.setPre y pre).hook x).list = (w.hook x).list := by
  cases y with
  | none => rfl
  | some y =>
      simp only [setPre, setHook]
      by_cases hx : x = y
      · rw [hx, Function.update_self]
      · rw [Function.update_of_ne hx]

omit [DecidableEq L] in
theorem list_setNext (y next : Option α) : ((w.setNext y next).hook x).list = (w.hook x).list := by
  cases y with
  | none => rfl
  | some y =>
      simp only [setNext, setHook]
      by_cases hx : x = y
      · rw [hx, Function.update_self]
      · rw [Function.update_of_ne hx]

theorem hook_pushFront_of_ne (hitem : x ≠ item) (hfront : w.head this ≠ some x) :
    (w.pushFront this item).hook x = w.hook x := by
  rw [pushFront_eq]
  exact (hook_setPre_of_ne hfront _).trans (Function.update_of_ne hitem _ _)

theorem list_pushFront :
    ((w.pushFront this item).hook x).list =
      if x = item then some this else (w.hook x).list := by
  rw [pushFront_eq]
  refine (list_setPre _ _).trans ?_
  simp only [setHook, Function.update_apply]
  split <;> rfl

omit [DecidableEq L] in
/-- Closing the gap behind an item leaves what is before it. -/
theorem listPre_setPre_self (next : Option α) :
    ((w.setPre next (w.hook item).listPre).hook item).listPre = (w.hook item).listPre := by
  by_cases hnext : next = some item
  · rw [hnext]
    exact congrArg _ (Function.update_self _ _ _)
  · rw [hook_setPre_of_ne hnext]

theorem hook_erase_of_ne (hitem : x ≠ item) (hnext : (w.hook item).listNext ≠ some x)
    (hpre : (w.hook item).listPre ≠ some x) : (w.erase this item).1.hook x = w.hook x := by
  simp only [erase, setHook_cleared]
  refine (Function.update_of_ne hitem _ _).trans ?_
  by_cases hhead : some item = w.head this
  · simp only [if_pos hhead]
    exact hook_setPre_of_ne hnext _
  · simp only [if_neg hhead]
    refine (hook_setNext_of_ne ?_ _).trans (hook_setPre_of_ne hnext _)
    rwa [listPre_setPre_self]

theorem list_erase :
    ((w.erase this item).1.hook x).list = if x = item then none else (w.hook x).list := by
  simp only [erase, setHook_cleared]
  by_cases hx : x = item
  · rw [if_pos hx, hx]
    exact congrArg _ (Function.update_self _ _ _)
  · rw [if_neg hx]
    refine (congrArg _ (Function.update_of_ne hx _ _)).trans ?_
    by_cases hhead : some item = w.head this
    · simp only [if_pos hhead]
      exact list_setPre _ _
    · simp only [if_neg hhead]
      exact (list_setNext _ _).trans (list_setPre _ _)

theorem head_pushFront_of_ne (h : other ≠ this) :
    (w.pushFront this item).head other = w.head other := by
  have hpre (v : IntrusiveLists L α) (y pre : Option α) : (v.setPre y pre).head = v.head := by
    cases y <;> rfl
  rw [pushFront_eq]
  exact (Function.update_of_ne h _ _).trans (congrFun (hpre _ _ _) other)

theorem size_pushFront_of_ne (h : other ≠ this) :
    (w.pushFront this item).size other = w.size other := by
  rw [pushFront_eq]
  exact (Function.update_of_ne h _ _).trans (congrFun (size_setPre _ _ _) other)

theorem head_erase_of_ne (h : other ≠ this) :
    (w.erase this item).1.head other = w.head other := by
  have hpre (v : IntrusiveLists L α) (y pre : Option α) : (v.setPre y pre).head = v.head := by
    cases y <;> rfl
  have hnext (v : IntrusiveLists L α) (y next : Option α) : (v.setNext y next).head = v.head := by
    cases y <;> rfl
  simp only [erase, setHook_cleared]
  by_cases hhead : some item = w.head this
  · simp only [if_pos hhead]
    exact (Function.update_of_ne h _ _).trans (congrFun (hpre _ _ _) other)
  · simp only [if_neg hhead]
    exact congrFun ((hnext _ _ _).trans (hpre _ _ _)) other

theorem size_erase_of_ne (h : other ≠ this) :
    (w.erase this item).1.size other = w.size other := by
  simp only [erase, setHook_cleared]
  refine (Function.update_of_ne h _ _).trans ?_
  by_cases hhead : some item = w.head this
  · simp only [if_pos hhead]
    exact congrFun (size_setPre _ _ _) other
  · simp only [if_neg hhead]
    exact congrFun ((size_setNext _ _ _).trans (size_setPre _ _ _)) other

end

/-! ### All lists at once -/

/-- Each list spells its sequence. -/
def Spells (w : IntrusiveLists L α) (seqs : L → List α) : Prop :=
  ∀ this, (w.view this).Represents (seqs this)

omit [DecidableEq α] in
/-- A list whose own members are untouched spells what it did. -/
theorem represents_of_untouched {w w' : IntrusiveLists L α} {this : L} {xs : List α}
    (h : (w.view this).Represents xs) (hhead : w'.head this = w.head this)
    (hsize : w'.size this = w.size this) (hhook : ∀ x ∈ xs, w'.hook x = w.hook x)
    (hlist : ∀ x, (w'.hook x).list = some this ↔ (w.hook x).list = some this) :
    (w'.view this).Represents xs where
  head := hhead.trans h.head
  links := h.links.congr fun x hx => congrArg (viewHook this) (hhook x hx)
  nodup := h.nodup
  mem_iff x := by
    rw [← h.mem_iff x]
    simp only [Lib.IntrusiveList.contains, view, decide_eq_true_eq]
    exact hlist x
  size := hsize.trans h.size

namespace Spells

variable {w : IntrusiveLists L α} {seqs : L → List α} {this other : L} {item x : α}

omit [DecidableEq α] in
theorem mem_iff (h : w.Spells seqs) (this : L) (x : α) :
    x ∈ seqs this ↔ (w.hook x).list = some this := by
  rw [← (h this).mem_iff x]
  simp only [Lib.IntrusiveList.contains, view, decide_eq_true_eq]

omit [DecidableEq α] in
theorem contains_iff (h : w.Spells seqs) : w.contains this x = true ↔ x ∈ seqs this := by
  rw [h.mem_iff, contains, decide_eq_true_eq]

omit [DecidableEq α] in
theorem listLinked_iff (h : w.Spells seqs) : w.listLinked x = true ↔ ∃ this, x ∈ seqs this := by
  simp only [h.mem_iff, listLinked, Option.isSome_iff_exists]

omit [DecidableEq α] in
/-- The neighbours of a member are members. -/
theorem listPre_mem (h : w.Spells seqs) (hx : x ∈ seqs this) {y : α}
    (hpre : (w.hook x).listPre = some y) : y ∈ seqs this := by
  obtain ⟨before, after, hseq⟩ := List.append_of_mem hx
  have hrep := h this
  rw [hseq] at hrep ⊢
  exact List.mem_append_left _ (List.mem_of_getLast? (hrep.pre_eq.symm.trans hpre))

omit [DecidableEq α] in
theorem listNext_mem (h : w.Spells seqs) (hx : x ∈ seqs this) {y : α}
    (hnext : (w.hook x).listNext = some y) : y ∈ seqs this :=
  (h this).next_mem hx hnext

/-- `push_front` touches the hooks of the item and of the members of its list. -/
theorem hook_pushFront (h : w.Spells seqs) (hitem : x ≠ item) (hx : x ∉ seqs this) :
    (w.pushFront this item).hook x = w.hook x :=
  hook_pushFront_of_ne hitem fun hfront => hx ((h this).front_mem hfront)

/-- `erase` touches the hooks of the members of the list. -/
theorem hook_erase (h : w.Spells seqs) (hitem : item ∈ seqs this) (hx : x ∉ seqs this) :
    (w.erase this item).1.hook x = w.hook x :=
  hook_erase_of_ne (fun heq => hx (heq ▸ hitem)) (fun hnext => hx (h.listNext_mem hitem hnext))
    fun hpre => hx (h.listPre_mem hitem hpre)

theorem pushFront (h : w.Spells seqs) (hitem : ∀ l, item ∉ seqs l) :
    (w.pushFront this item).Spells (Function.update seqs this (item :: seqs this)) := by
  intro other
  by_cases hother : other = this
  · subst hother
    rw [Function.update_self, view_pushFront]
    exact (h other).pushFront (hitem other)
  · rw [Function.update_of_ne hother]
    refine represents_of_untouched (h other) (head_pushFront_of_ne hother)
      (size_pushFront_of_ne hother) ?_ ?_
    · intro x hx
      refine h.hook_pushFront (fun heq => hitem other (heq ▸ hx)) fun hthis => hother ?_
      exact Option.some.inj (((h.mem_iff other x).mp hx).symm.trans ((h.mem_iff this x).mp hthis))
    · intro x
      rw [list_pushFront]
      split
      · rename_i heq
        have hnot := hitem other
        rw [h.mem_iff, ← heq] at hnot
        exact iff_of_false (fun hsome => hother (Option.some.inj hsome).symm) hnot
      · exact Iff.rfl

theorem erase (h : w.Spells seqs) (hitem : item ∈ seqs this) :
    (w.erase this item).1.Spells (Function.update seqs this ((seqs this).erase item)) := by
  have hlist := (h.mem_iff this item).mp hitem
  intro other
  by_cases hother : other = this
  · subst hother
    rw [Function.update_self, (w.view_erase other item).1]
    exact ((h other).erase hitem).1
  · rw [Function.update_of_ne hother]
    refine represents_of_untouched (h other) (head_erase_of_ne hother)
      (size_erase_of_ne hother) ?_ ?_
    · intro x hx
      refine h.hook_erase hitem fun hthis => hother ?_
      exact Option.some.inj (((h.mem_iff other x).mp hx).symm.trans ((h.mem_iff this x).mp hthis))
    · intro x
      rw [list_erase]
      split
      · rename_i heq
        rw [heq, hlist]
        exact iff_of_false (Option.some_ne_none other).symm
          fun hsome => hother (Option.some.inj hsome).symm
      · exact Iff.rfl

end Spells

/-! ### Runs -/

/-- A call of one of the two operations. -/
inductive Op (L α : Type) where
  | pushFront (this : L) (item : α)
  | erase (this : L) (item : α)
deriving DecidableEq, Repr

/-- The list that a call is made on. -/
def Op.list : Op L α → L
  | pushFront this _ => this
  | erase this _ => this

def step (w : IntrusiveLists L α) : Op L α → IntrusiveLists L α
  | .pushFront this item => w.pushFront this item
  | .erase this item => (w.erase this item).1

/-- Only an item that is in no list is put into one, and only a member is taken out. -/
def Allowed (w : IntrusiveLists L α) : Op L α → Prop
  | .pushFront _ item => w.listLinked item = false
  | .erase this item => w.contains this item = true

instance (w : IntrusiveLists L α) : ∀ op, Decidable (w.Allowed op)
  | .pushFront _ item => inferInstanceAs (Decidable (w.listLinked item = false))
  | .erase this item => inferInstanceAs (Decidable (w.contains this item = true))

/-- What the calls do to the members of the lists, the last one put in first. -/
def members (seqs : L → List α) : Op L α → L → List α
  | .pushFront this item => Function.update seqs this (item :: seqs this)
  | .erase this item => Function.update seqs this ((seqs this).erase item)

omit [DecidableEq α] in
theorem spells_make : (make : IntrusiveLists L α).Spells fun _ => [] :=
  fun _ => Lib.IntrusiveList.represents_empty

theorem Spells.step {w : IntrusiveLists L α} {seqs : L → List α} (h : w.Spells seqs) {op : Op L α}
    (hop : w.Allowed op) : (w.step op).Spells (members seqs op) := by
  cases op with
  | pushFront this item =>
      apply h.pushFront
      intro l hl
      have hlinked : w.listLinked item = false := hop
      rw [h.listLinked_iff.mpr ⟨l, hl⟩] at hlinked
      cases hlinked
  | erase this item => exact h.erase (h.contains_iff.mp hop)

theorem spells_run {w : IntrusiveLists L α} {seqs : L → List α} (h : w.Spells seqs)
    {ops : List (Op L α)} (hops : Along step Allowed w ops) :
    (run step w ops).Spells (run members seqs ops) := by
  induction ops generalizing w seqs with
  | nil => exact h
  | cons op ops ih => exact ih (h.step hops.1) hops.2

/-- What the lists answer when their members are `seqs`. -/
structure Right (w : IntrusiveLists L α) (seqs : L → List α) : Prop where
  visits : ∀ this, Lib.IntrusiveList.follow w.listNext (seqs this).length (w.front this) =
    (seqs this, none)
  nodup : ∀ this, (seqs this).Nodup
  pre_front : ∀ this x, w.front this = some x → (w.hook x).listPre = none
  next_iff_pre : ∀ this, ∀ x ∈ seqs this, ∀ y,
    w.listNext x = some y ↔ y ∈ seqs this ∧ (w.hook y).listPre = some x
  size : ∀ this, w.size this = (seqs this).length
  contains : ∀ this x, w.contains this x = true ↔ x ∈ seqs this
  listLinked : ∀ x, w.listLinked x = true ↔ ∃ this, x ∈ seqs this

omit [DecidableEq α] in
theorem Spells.right {w : IntrusiveLists L α} {seqs : L → List α} (h : w.Spells seqs) :
    w.Right seqs where
  visits this := (h this).follow_eq
  nodup this := (h this).nodup
  pre_front this x hfront := by
    have hrep := h this
    have hhead : (seqs this).head? = some x := hrep.head.symm.trans hfront
    obtain ⟨rest, hseq⟩ := List.head?_eq_some_iff.mp hhead
    rw [hseq, ← List.nil_append (x :: rest)] at hrep
    exact hrep.pre_eq
  next_iff_pre this x hx y := (h this).next_iff_pre hx
  size this := (h this).size
  contains this x := h.contains_iff
  listLinked x := h.listLinked_iff

/-- A member is taken out between its neighbours, and the one behind it is returned. -/
theorem Spells.erase_returns {w : IntrusiveLists L α} {seqs : L → List α} (h : w.Spells seqs)
    {this : L} {item : α} {before after : List α} (hseq : seqs this = before ++ item :: after) :
    (w.erase this item).2 = after.head? ∧ w.listNext item = after.head? := by
  have hrep := h this
  rw [hseq] at hrep
  exact ⟨(w.view_erase this item).2.trans hrep.erase_at.2, hrep.next_eq⟩

/-- What is in another list is untouched. -/
theorem Spells.other_untouched {w : IntrusiveLists L α} {seqs : L → List α} (h : w.Spells seqs)
    {op : Op L α} (hop : w.Allowed op) {x : α} {other : L} (hx : (w.hook x).list = some other)
    (hother : other ≠ op.list) : (w.step op).hook x = w.hook x := by
  have hnot : x ∉ seqs op.list := fun hmem =>
    hother (Option.some.inj (hx.symm.trans ((h.mem_iff op.list x).mp hmem)))
  cases op with
  | pushFront this item =>
      refine h.hook_pushFront ?_ hnot
      rintro rfl
      have hlinked : w.listLinked x = false := hop
      rw [listLinked, hx] at hlinked
      cases hlinked
  | erase this item => exact h.hook_erase (h.contains_iff.mp hop) hnot

/-- **Intrusive lists are lists.**  After any calls on any lists, each list holds what was put in
    and not taken out, the last one first, and its answers are about these items. -/
theorem run_right {ops : List (Op L α)} (hops : Along step Allowed make ops) :
    (run step make ops).Right (run members (fun _ => []) ops) ∧
      (∀ this before item after,
        run members (fun _ => []) ops this = before ++ item :: after →
        ((run step make ops).erase this item).2 = after.head? ∧
          (run step make ops).listNext item = after.head?) ∧
      ∀ op x other, (run step make ops).Allowed op →
        ((run step make ops).hook x).list = some other → other ≠ op.list →
        ((run step make ops).step op).hook x = (run step make ops).hook x := by
  have h := spells_run spells_make hops
  exact ⟨h.right, fun _ _ _ _ hseq => h.erase_returns hseq,
    fun _ _ _ hop hx hother => h.other_untouched hop hx hother⟩

/-- Two lists; the second of three items is taken out of the first. -/
def twoLists : List (Op Nat Nat) :=
  [.pushFront 0 10, .pushFront 1 20, .pushFront 0 11, .pushFront 0 12, .erase 0 11]

theorem run_right_twoLists :
    (run step make twoLists).Right (run members (fun _ => []) twoLists) ∧
      (∀ this before item after,
        run members (fun _ => []) twoLists this = before ++ item :: after →
        ((run step make twoLists).erase this item).2 = after.head? ∧
          (run step make twoLists).listNext item = after.head?) ∧
      ∀ op x other, (run step make twoLists).Allowed op →
        ((run step make twoLists).hook x).list = some other → other ≠ op.list →
        ((run step make twoLists).step op).hook x = (run step make twoLists).hook x :=
  run_right (by decide)

end IntrusiveLists

end Jengine.Utils
