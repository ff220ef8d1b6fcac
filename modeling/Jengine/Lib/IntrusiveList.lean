import Mathlib.Data.List.Nodup
import Mathlib.Logic.Function.Basic

/-!
# An intrusive list

A doubly linked list whose links are members of the items: an item holds its neighbours
and whether it is in the list.  Items are named by the values of a type, and the hooks of
all of them are a function.  `Represents` says which sequence the links spell; the
operations are those of sequences.
-/

namespace Jengine.Lib

variable {α : Type}

/-- The links of an item. -/
structure Hook (α : Type) where
  pre : Option α
  next : Option α
  linked : Bool

structure IntrusiveList (α : Type) where
  head : Option α
  size : Nat
  hooks : α → Hook α

namespace IntrusiveList

def empty : IntrusiveList α := ⟨none, 0, fun _ => ⟨none, none, false⟩⟩

def front (l : IntrusiveList α) : Option α := l.head

def next (l : IntrusiveList α) (item : α) : Option α := (l.hooks item).next

def contains (l : IntrusiveList α) (item : α) : Bool := (l.hooks item).linked

/-! ### The sequence of a list -/

/-- The hooks of `xs` link them in this order behind `pre`. -/
def Linked (hooks : α → Hook α) : Option α → List α → Prop
  | _, [] => True
  | pre, x :: xs => hooks x = ⟨pre, xs.head?, true⟩ ∧ Linked hooks (some x) xs

/-- The links of the list spell a sequence. -/
structure Represents (l : IntrusiveList α) (xs : List α) : Prop where
  head : l.head = xs.head?
  links : Linked l.hooks none xs
  nodup : xs.Nodup
  mem_iff : ∀ x, l.contains x = true ↔ x ∈ xs
  size : l.size = xs.length

theorem represents_empty : (empty : IntrusiveList α).Represents [] where
  head := rfl
  links := trivial
  nodup := List.nodup_nil
  mem_iff x := by simp [empty, contains]
  size := rfl

theorem Linked.congr {hooks hooks' : α → Hook α} {pre : Option α} {xs : List α}
    (h : Linked hooks pre xs) (heq : ∀ x ∈ xs, hooks' x = hooks x) : Linked hooks' pre xs := by
  induction xs generalizing pre with
  | nil => trivial
  | cons x xs ih =>
      obtain ⟨hx, hxs⟩ := h
      constructor
      · rw [heq x List.mem_cons_self, hx]
      · exact ih hxs fun y hy => heq y (List.mem_cons_of_mem x hy)

/-- The hook of an item holds its neighbours. -/
theorem Linked.hook_eq {hooks : α → Hook α} {x : α} {after : List α} :
    ∀ {before : List α} {pre : Option α}, Linked hooks pre (before ++ x :: after) →
      hooks x = ⟨before.getLast?.or pre, after.head?, true⟩ := by
  intro before
  induction before with
  | nil => exact fun h => h.1
  | cons b before ih =>
      intro pre h
      rw [ih h.2, List.getLast?_cons]
      cases before.getLast? <;> rfl

theorem Linked.next_mem {hooks : α → Hook α} {pre : Option α} {xs : List α}
    (h : Linked hooks pre xs) {x y : α} (hx : x ∈ xs) (hnext : (hooks x).next = some y) :
    y ∈ xs := by
  induction xs generalizing pre with
  | nil => cases hx
  | cons z zs ih =>
      obtain ⟨hz, hzs⟩ := h
      rcases List.mem_cons.mp hx with rfl | hx
      · rw [hz] at hnext
        exact List.mem_cons_of_mem _ (List.mem_of_mem_head? hnext)
      · exact List.mem_cons_of_mem _ (ih hzs hx)

namespace Represents

variable {l : IntrusiveList α} {xs : List α}

theorem next_mem (h : l.Represents xs) {x y : α} (hx : x ∈ xs) (hnext : l.next x = some y) :
    y ∈ xs := h.links.next_mem hx hnext

theorem front_mem (h : l.Represents xs) {x : α} (hfront : l.front = some x) : x ∈ xs :=
  List.mem_of_mem_head? (h.head.symm.trans hfront)

/-- An item points to the item behind it. -/
theorem next_eq {x : α} {before after : List α} (h : l.Represents (before ++ x :: after)) :
    l.next x = after.head? := by
  rw [next, h.links.hook_eq]

/-- An item points back to the item before it. -/
theorem pre_eq {x : α} {before after : List α} (h : l.Represents (before ++ x :: after)) :
    (l.hooks x).pre = before.getLast? := by
  rw [h.links.hook_eq, Option.or_none]

/-- Pointing back is the inverse of pointing forth. -/
theorem next_iff_pre (h : l.Represents xs) {x y : α} (hx : x ∈ xs) :
    l.next x = some y ↔ y ∈ xs ∧ (l.hooks y).pre = some x := by
  constructor
  · intro hnext
    refine ⟨h.next_mem hx hnext, ?_⟩
    obtain ⟨before, after, rfl⟩ := List.append_of_mem hx
    rw [h.next_eq, List.head?_eq_some_iff] at hnext
    obtain ⟨rest, rfl⟩ := hnext
    rw [← List.singleton_append, ← List.append_assoc] at h
    rw [h.pre_eq, List.getLast?_concat]
  · rintro ⟨hy, hpre⟩
    obtain ⟨before, after, rfl⟩ := List.append_of_mem hy
    rw [h.pre_eq, List.getLast?_eq_some_iff] at hpre
    obtain ⟨rest, rfl⟩ := hpre
    rw [List.append_assoc, List.singleton_append] at h
    rw [h.next_eq, List.head?_cons]

end Represents

/-! ### Walking a list -/

/-- At most `n` items from `item` on, and where the walk is then. -/
def follow (next : α → Option α) : Nat → Option α → List α × Option α
  | 0, item => ([], item)
  | _ + 1, none => ([], none)
  | n + 1, some x => (x :: (follow next n (next x)).1, (follow next n (next x)).2)

theorem Linked.follow_eq {hooks : α → Hook α} {pre : Option α} {xs : List α}
    (h : Linked hooks pre xs) :
    follow (fun x => (hooks x).next) xs.length xs.head? = (xs, none) := by
  induction xs generalizing pre with
  | nil => rfl
  | cons x xs ih =>
      obtain ⟨hx, hxs⟩ := h
      rw [List.length_cons, List.head?_cons, follow, hx, ih hxs]

/-- A walk from the front goes through the sequence and ends. -/
theorem Represents.follow_eq {l : IntrusiveList α} {xs : List α} (h : l.Represents xs) :
    follow l.next xs.length l.front = (xs, none) := by
  rw [front, h.head]
  exact h.links.follow_eq

/-! ### The operations -/

variable [DecidableEq α]

/-- Change the hook of an item. -/
def setHook (l : IntrusiveList α) (item : α) (h : Hook α) : IntrusiveList α :=
  { l with hooks := Function.update l.hooks item h }

/-- `x->list_pre_ = pre`, where `x` may be null. -/
def setPre (l : IntrusiveList α) (x pre : Option α) : IntrusiveList α :=
  match x with
  | none => l
  | some x => l.setHook x { l.hooks x with pre := pre }

/-- `x->list_next_ = next`, where `x` may be null. -/
def setNext (l : IntrusiveList α) (x next : Option α) : IntrusiveList α :=
  match x with
  | none => l
  | some x => l.setHook x { l.hooks x with next := next }

def pushFront (l : IntrusiveList α) (item : α) : IntrusiveList α :=
  let l' := (l.setHook item ⟨none, l.head, true⟩).setPre l.head (some item)
  { l' with head := some item, size := l.size + 1 }

/-- Take an item out; the second component is the item behind it. -/
def erase (l : IntrusiveList α) (item : α) : IntrusiveList α × Option α :=
  if some item = l.head then
    let next := (l.hooks item).next
    let l' := (l.setPre next none).setHook item ⟨none, none, false⟩
    ({ l' with head := next, size := l.size - 1 }, next)
  else
    let l' := l.setPre (l.hooks item).next (l.hooks item).pre
    let l' := l'.setNext (l'.hooks item).pre (l'.hooks item).next
    let next := (l'.hooks item).next
    let l' := l'.setHook item ⟨none, none, false⟩
    ({ l' with size := l.size - 1 }, next)

/-- The links close up when an item is taken out: the one before it points behind it, and the
    one behind it before it. -/
theorem Linked.remove {hooks hooks' : α → Hook α} {x : α} {after : List α} :
    ∀ {before : List α} {pre : Option α}, Linked hooks pre (before ++ x :: after) →
      (before ++ x :: after).Nodup →
      (∀ y ∈ before ++ after, hooks' y =
        ⟨if after.head? = some y then before.getLast?.or pre else (hooks y).pre,
          if before.getLast? = some y then after.head? else (hooks y).next, (hooks y).linked⟩) →
      Linked hooks' pre (before ++ after) := by
  intro before
  induction before with
  | nil =>
      intro pre h hnodup hhooks
      cases after with
      | nil => trivial
      | cons z zs =>
        obtain ⟨-, hz, hzs⟩ := h
        have hzzs := (List.nodup_cons.mp (List.nodup_cons.mp hnodup).2).1
        constructor
        · rw [hhooks z List.mem_cons_self]
          simp [hz]
        · apply hzs.congr
          intro y hy
          have hne : ¬ z = y := fun heq => hzzs (heq ▸ hy)
          rw [hhooks y (List.mem_cons_of_mem z hy)]
          simp [hne]
  | cons b before ih =>
      intro pre h hnodup hhooks
      obtain ⟨hb, hrest⟩ := h
      obtain ⟨hbmem, hnodup'⟩ := List.nodup_cons.mp hnodup
      have hafter : ¬ after.head? = some b := by
        intro hhead
        exact hbmem (List.mem_append_right _ (List.mem_cons_of_mem x (List.mem_of_mem_head? hhead)))
      constructor
      · rw [hhooks b List.mem_cons_self, hb, if_neg hafter, List.getLast?_cons]
        cases hlast : before.getLast? with
        | none =>
          rw [List.getLast?_eq_none_iff] at hlast
          simp [hlast]
        | some c =>
          have hc : c ∈ before := List.mem_of_getLast? hlast
          have hne : ¬ c = b := fun heq => hbmem (heq ▸ List.mem_append_left _ hc)
          obtain ⟨d, ds, rfl⟩ := List.exists_cons_of_ne_nil (List.ne_nil_of_mem hc)
          simp [hne]
      · apply ih hrest hnodup'
        intro y hy
        have hyb : ¬ b = y := by
          rintro rfl
          rcases List.mem_append.mp hy with hy | hy
          · exact hbmem (List.mem_append_left _ hy)
          · exact hbmem (List.mem_append_right _ (List.mem_cons_of_mem x hy))
        rw [hhooks y (List.mem_cons_of_mem b hy), List.getLast?_cons]
        cases before.getLast? <;> simp [hyb]

/-- What `erase` does to the other hooks. -/
theorem hooks_erase {l : IntrusiveList α} {x : α} {p n : Option α}
    (hx : l.hooks x = ⟨p, n, true⟩) (hhead : some x = l.head ↔ p = none) (hp : p ≠ some x)
    (hn : n ≠ some x) {y : α} (hy : y ≠ x) :
    (l.erase x).1.hooks y =
      ⟨if n = some y then p else (l.hooks y).pre, if p = some y then n else (l.hooks y).next,
        (l.hooks y).linked⟩ := by
  cases p with
  | none =>
      simp only [erase, if_pos (hhead.mpr rfl), hx, setHook, Function.update_of_ne hy]
      cases n with
      | none => simp [setPre]
      | some b =>
        by_cases hyb : b = y
        · simp [setPre, setHook, hyb]
        · simp [setPre, setHook, hyb, Function.update_of_ne (Ne.symm hyb)]
  | some a =>
      have hne : ¬ some x = l.head := fun heq => Option.some_ne_none a (hhead.mp heq)
      have hax : x ≠ a := fun heq => hp (by rw [heq])
      simp only [erase, if_neg hne, hx, setHook, Function.update_of_ne hy]
      cases n with
      | none =>
        simp only [setPre, setNext, setHook, hx]
        by_cases hya : a = y
        · simp [hya]
        · simp [hya, Function.update_of_ne (Ne.symm hya)]
      | some b =>
        have hbx : x ≠ b := fun heq => hn (by rw [heq])
        simp only [setPre, setNext, setHook, Function.update_of_ne hbx, hx]
        by_cases hya : a = y
        · subst hya
          by_cases hab : b = a
          · simp [hab]
          · simp [hab, Function.update_of_ne (Ne.symm hab)]
        · by_cases hyb : b = y
          · simp [hyb, hya, Function.update_of_ne (Ne.symm hya)]
          · simp [hyb, hya, Function.update_of_ne (Ne.symm hya), Function.update_of_ne (Ne.symm hyb)]

/-- What `erase` leaves of the item itself, and what else it changes. -/
theorem erase_self {l : IntrusiveList α} {x : α} {p n : Option α} (hx : l.hooks x = ⟨p, n, true⟩)
    (hhead : some x = l.head ↔ p = none) (hp : p ≠ some x) (hn : n ≠ some x) :
    (l.erase x).1.contains x = false ∧ (l.erase x).2 = n ∧ (l.erase x).1.size = l.size - 1 ∧
      (l.erase x).1.head = (if p = none then n else l.head) := by
  cases p with
  | none =>
      simp only [erase, if_pos (hhead.mpr rfl), hx, contains, setHook, Function.update_self, if_true]
      exact ⟨trivial, trivial, trivial, trivial⟩
  | some a =>
      have hne : ¬ some x = l.head := fun heq => Option.some_ne_none a (hhead.mp heq)
      have hax : x ≠ a := fun heq => hp (by rw [heq])
      cases n with
      | none =>
        simp [erase, if_neg hne, hx, contains, setHook, setPre, setNext, Function.update_of_ne hax]
      | some b =>
        have hbx : x ≠ b := fun heq => hn (by rw [heq])
        simp [erase, if_neg hne, hx, contains, setHook, setPre, setNext, Function.update_of_ne hax,
          Function.update_of_ne hbx]

namespace Represents

variable {l : IntrusiveList α} {xs : List α}

/-- `push_front` of an item that is in no list. -/
theorem pushFront (h : l.Represents xs) {x : α} (hx : x ∉ xs) :
    (l.pushFront x).Represents (x :: xs) := by
  cases xs with
  | nil =>
      have hhead : l.head = none := h.head
      refine ⟨rfl, ⟨?_, trivial⟩, List.nodup_singleton x, ?_, ?_⟩
      · simp [IntrusiveList.pushFront, hhead, setPre, setHook]
      · intro y
        have hy := h.mem_iff y
        simp only [contains] at hy
        simp only [IntrusiveList.pushFront, hhead, setPre, setHook, contains, Function.update_apply]
        by_cases heq : y = x
        · simp [heq]
        · simpa [heq] using hy
      · simp [IntrusiveList.pushFront, h.size]
  | cons z zs =>
      have hhead : l.head = some z := h.head
      obtain ⟨hz, hzs⟩ := h.links
      obtain ⟨hzzs, hnodup⟩ := List.nodup_cons.mp h.nodup
      have hne : z ≠ x := by
        rintro rfl
        exact hx List.mem_cons_self
      have hhooks : (l.pushFront x).hooks =
          Function.update (Function.update l.hooks x ⟨none, some z, true⟩) z
            ⟨some x, zs.head?, true⟩ := by
        simp only [IntrusiveList.pushFront, hhead, setPre, setHook, Function.update_of_ne hne, hz]
      refine ⟨rfl, ⟨?_, ?_, ?_⟩, List.nodup_cons.mpr ⟨hx, h.nodup⟩, ?_, ?_⟩
      · rw [hhooks, Function.update_of_ne hne.symm, Function.update_self, List.head?_cons]
      · rw [hhooks, Function.update_self]
      · apply hzs.congr
        intro y hy
        have hyz : y ≠ z := fun heq => hzzs (heq ▸ hy)
        have hyx : y ≠ x := fun heq => hx (heq ▸ List.mem_cons_of_mem z hy)
        rw [hhooks, Function.update_of_ne hyz, Function.update_of_ne hyx]
      · intro y
        have hy := h.mem_iff y
        simp only [contains] at hy ⊢
        rw [hhooks]
        by_cases hyz : y = z
        · simp [hyz]
        · by_cases hyx : y = x
          · simp [hyx, Function.update_of_ne hne.symm]
          · rw [Function.update_of_ne hyz, Function.update_of_ne hyx, hy, List.mem_cons (b := x)]
            simp [hyx]
      · simp [IntrusiveList.pushFront, h.size]

/-- `erase` of an item at its place. -/
theorem erase_at {x : α} {before after : List α} (h : l.Represents (before ++ x :: after)) :
    (l.erase x).1.Represents (before ++ after) ∧ (l.erase x).2 = after.head? := by
  have hnodup := h.nodup
  obtain ⟨-, hnodup', hdisjoint⟩ := List.nodup_append.mp hnodup
  have hbefore : x ∉ before := fun hmem => hdisjoint x hmem x List.mem_cons_self rfl
  have hafter : x ∉ after := (List.nodup_cons.mp hnodup').1
  have hhook := h.links.hook_eq
  rw [Option.or_none] at hhook
  have hhead : some x = l.head ↔ before.getLast? = none := by
    rw [h.head]
    cases before with
    | nil => simp
    | cons b before =>
      have hne : ¬ x = b := fun heq => hbefore (heq ▸ List.mem_cons_self)
      simp [hne]
  have hlast : before.getLast? ≠ some x := fun heq => hbefore (List.mem_of_getLast? heq)
  have hfirst : after.head? ≠ some x := fun heq => hafter (List.mem_of_mem_head? heq)
  obtain ⟨hself, hnext, hsize, hhead'⟩ := erase_self hhook hhead hlast hfirst
  refine ⟨⟨?_, ?_, ?_, ?_, ?_⟩, hnext⟩
  · rw [hhead', h.head]
    cases before <;> simp
  · apply Linked.remove h.links hnodup
    intro y hy
    have hyx : y ≠ x := by
      rintro rfl
      exact (List.mem_append.mp hy).elim hbefore hafter
    rw [hooks_erase hhook hhead hlast hfirst hyx, Option.or_none]
  · exact hnodup.sublist ((List.sublist_cons_self x after).append_left before)
  · intro y
    by_cases hyx : y = x
    · rw [hyx, hself]
      simp [hbefore, hafter]
    · have hy := h.mem_iff y
      simp only [contains] at hy ⊢
      rw [hooks_erase hhook hhead hlast hfirst hyx, hy]
      simp [hyx]
  · rw [hsize, h.size]
    simp

/-- `erase` of an item that is in the list. -/
theorem erase (h : l.Represents xs) {x : α} (hx : x ∈ xs) :
    (l.erase x).1.Represents (xs.erase x) ∧ ∀ y, (l.erase x).2 = some y → y ∈ xs.erase x := by
  obtain ⟨before, after, rfl⟩ := List.append_of_mem hx
  obtain ⟨-, -, hdisjoint⟩ := List.nodup_append.mp h.nodup
  have hbefore : x ∉ before := fun hmem => hdisjoint x hmem x List.mem_cons_self rfl
  rw [List.erase_append_right _ hbefore, List.erase_cons_head]
  obtain ⟨hrep, hnext⟩ := h.erase_at
  refine ⟨hrep, ?_⟩
  intro y hy
  rw [hnext] at hy
  exact List.mem_append_right _ (List.mem_of_mem_head? hy)

end Represents

end IntrusiveList

end Jengine.Lib
