import Jengine.Lib.Ring
import Mathlib.Algebra.Ring.Nat

/-!
# The circular buffer of the robot

`CircularBuffer` (`robot/utility/circular_buffer.h`): a ring of `m_max` bytes in an allocation
of twice that size.  A block that is written is copied to the mirror behind the ring as well, as
a whole where it crosses the border, and nothing ever reads the mirror.

The sizes are of the type `size_t`, with 64 bits, and so is the sum of two of them.  Every
`memcpy` is checked against the allocation.
-/

namespace Jengine.Robot

open Jengine.Lib Segments

/-- How a call ends that does not return. -/
inductive Stop where
  /-- An access outside the allocation. -/
  | outOfBounds
  /-- A loop that still runs when its fuel is used up. -/
  | running
deriving DecidableEq, Repr

/-- A sum as a `size_t`. -/
def sizeT (n : Nat) : Nat := n % 2 ^ 64

/-- `CircularBuffer`.  What `buf` points to is segment 0 of the memory. -/
structure CircularBuffer where
  buf : Segments UInt8
  max : Nat
  q : Nat
  b : Nat
  t : Nat
  count : Nat

namespace CircularBuffer

/-- The constructor, with whatever the new memory holds. -/
def make (buf : Segments UInt8) (size : Nat) : CircularBuffer := ⟨buf, size, 0, 0, 0, 0⟩

/-- The size of the allocation. -/
def allocated (c : CircularBuffer) : Nat := sizeT (2 * c.max)

/-- `memcpy(buf + off, s, l)`. -/
def copyIn (c : CircularBuffer) (off : Nat) (s : List UInt8) : Except Stop CircularBuffer :=
  if off + s.length ≤ c.allocated then .ok { c with buf := c.buf.write 0 off s }
  else .error .outOfBounds

/-- `memcpy(dest, buf + off, l)`. -/
def copyOut (c : CircularBuffer) (off l : Nat) : Except Stop (List UInt8) :=
  if off + l ≤ c.allocated then .ok (c.buf.read 0 off l) else .error .outOfBounds

/-- `Write`, of the `l` bytes that `s` points to. -/
def write (c : CircularBuffer) (s : List UInt8) : Except Stop (Bool × CircularBuffer) :=
  let l := s.length
  if c.max < sizeT (c.q + l) then .ok (false, c)
  else
    let c := { c with count := sizeT (c.count + l) }
    if c.max < sizeT (c.t + l) then do
      -- block crosses circular border
      let l1 := c.max - c.t
      let c ← c.copyIn c.t s
      let c ← c.copyIn 0 (s.drop l1)
      .ok (true, { c with t := l - l1, q := sizeT (c.q + l) })
    else do
      let c ← c.copyIn c.t s
      let c ← c.copyIn (c.max + c.t) s
      let t := sizeT (c.t + l)
      .ok (true, { c with t := if c.max ≤ t then t - c.max else t, q := sizeT (c.q + l) })

/-- The bytes that `Read` and `SoftRead` copy to a `dest` that is not null. -/
def front (c : CircularBuffer) (dest : Bool) (l : Nat) : Except Stop (List UInt8) :=
  if c.max < sizeT (c.b + l) then
    -- block crosses circular border
    let l1 := c.max - c.b
    if dest then do
      let first ← c.copyOut c.b l1
      let second ← c.copyOut 0 (l - l1)
      .ok (first ++ second)
    else .ok []
  else if dest then c.copyOut c.b l
  else .ok []

/-- `Read`: what it returns, and what it copies to `dest`. -/
def read (c : CircularBuffer) (dest : Bool) (l : Nat) :
    Except Stop ((Bool × List UInt8) × CircularBuffer) :=
  if c.q < l then .ok ((false, []), c)
  else do
    let copied ← c.front dest l
    let c :=
      if c.max < sizeT (c.b + l) then { c with b := l - (c.max - c.b), q := c.q - l }
      else
        let b := sizeT (c.b + l)
        { c with b := if c.max ≤ b then b - c.max else b, q := c.q - l }
    .ok ((true, copied), if c.q = 0 then { c with b := 0, t := 0 } else c)

/-- `SoftRead`. -/
def softRead (c : CircularBuffer) (dest : Bool) (l : Nat) : Except Stop (Bool × List UInt8) :=
  if c.q < l then .ok (false, [])
  else do
    let copied ← c.front dest l
    .ok (true, copied)

/-- `GetLength`. -/
def getLength (c : CircularBuffer) : Nat := c.q

/-- The bytes that are queued, the oldest first. -/
def content (c : CircularBuffer) : List UInt8 := c.buf.ring 0 c.max c.b c.q

/-! ### The calls -/

/-- A call, with the block it writes, or with whether it has a destination and the number of
    bytes it asks for. -/
inductive Op where
  | write (s : List UInt8)
  | read (dest : Bool) (l : Nat)
  | softRead (dest : Bool) (l : Nat)
deriving DecidableEq, Repr

/-- What a call returns, and what it has copied. -/
abbrev Answer := Bool × List UInt8

def step (c : CircularBuffer) : Op → Except Stop (Answer × CircularBuffer)
  | .write s => do
      let (ok, c) ← c.write s
      .ok ((ok, []), c)
  | .read dest l => c.read dest l
  | .softRead dest l => do
      let answer ← c.softRead dest l
      .ok (answer, c)

/-- The answers of a sequence of calls, and the buffer after it. -/
def run (c : CircularBuffer) : List Op → Except Stop (List Answer × CircularBuffer)
  | [] => .ok ([], c)
  | op :: ops => do
      let (answer, c) ← c.step op
      let (answers, c) ← c.run ops
      .ok (answer :: answers, c)

end CircularBuffer

/-! ### What the buffer is for -/

namespace Queue

open CircularBuffer (Op Answer)

variable {cap : Nat}

/-- What a read of a bounded queue gives to its caller. -/
def answer (dest : Bool) : Option (List UInt8) → Answer
  | some bytes => (true, if dest then bytes else [])
  | none => (false, [])

/-- The call as a bounded queue of bytes answers it. -/
def step (q : BoundedQueue UInt8 cap) : Op → Answer × BoundedQueue UInt8 cap
  | .write s => (((q.write s).1, []), (q.write s).2)
  | .read dest l => (answer dest (q.read l).1, (q.read l).2)
  | .softRead dest l => (answer dest (q.softRead l), q)

def run (q : BoundedQueue UInt8 cap) : List Op → List Answer × BoundedQueue UInt8 cap
  | [] => ([], q)
  | op :: ops =>
      let (a, q) := step q op
      let (answers, q) := run q ops
      (a :: answers, q)

/-- The sum of the bytes queued and the bytes to be written is a `size_t`. -/
def NoWrap (q : BoundedQueue UInt8 cap) : Op → Prop
  | .write s => q.items.length + s.length < 2 ^ 64
  | .read _ _ => True
  | .softRead _ _ => True

instance (q : BoundedQueue UInt8 cap) : ∀ op, Decidable (NoWrap q op)
  | .write s => inferInstanceAs (Decidable (q.items.length + s.length < 2 ^ 64))
  | .read _ _ => isTrue trivial
  | .softRead _ _ => isTrue trivial

end Queue

namespace CircularBuffer

/-- The buffer holds these bytes, the oldest first. -/
structure Holds (c : CircularBuffer) (items : List UInt8) : Prop where
  pos : 0 < c.max
  room : 2 * c.max < 2 ^ 64
  fits : items.length ≤ c.max
  count : c.q = items.length
  head : c.b < c.max
  tail : c.t = (c.b + items.length) % c.max
  cells : c.buf.ring 0 c.max c.b items.length = items

theorem Holds.content_eq {c : CircularBuffer} {items : List UInt8} (h : c.Holds items) :
    c.content = items := by
  rw [content, h.count, h.cells]

theorem sizeT_of_lt {n : Nat} (h : n < 2 ^ 64) : sizeT n = n := Nat.mod_eq_of_lt h

/-- An index that has run over the border once. -/
theorem wrap_eq_mod {i cap : Nat} (h : i < 2 * cap) :
    (if cap ≤ i then i - cap else i) = i % cap := by
  split
  · rename_i hle
    rw [Nat.mod_eq_sub_mod hle, Nat.mod_eq_of_lt (by omega)]
  · rename_i hlt
    rw [Nat.mod_eq_of_lt (by omega)]

theorem ok_bind {α β : Type} (a : α) (f : α → Except Stop β) : (Except.ok a >>= f) = f a := rfl

theorem copyIn_ok {c : CircularBuffer} {off : Nat} {s : List UInt8} (hroom : 2 * c.max < 2 ^ 64)
    (h : off + s.length ≤ 2 * c.max) :
    c.copyIn off s = .ok { c with buf := c.buf.write 0 off s } := by
  rw [copyIn, allocated, sizeT_of_lt hroom, if_pos h]

theorem copyOut_ok {c : CircularBuffer} {off l : Nat} (hroom : 2 * c.max < 2 ^ 64)
    (h : off + l ≤ 2 * c.max) : c.copyOut off l = .ok (c.buf.read 0 off l) := by
  rw [copyOut, allocated, sizeT_of_lt hroom, if_pos h]

theorem holds_make (buf : Segments UInt8) {size : Nat} (hpos : 0 < size)
    (hroom : 2 * size < 2 ^ 64) : (make buf size).Holds [] where
  pos := hpos
  room := hroom
  fits := Nat.zero_le size
  count := rfl
  head := hpos
  tail := (Nat.zero_mod size).symm
  cells := rfl

/-! ### Writing -/

/-- The ring after a block that crosses the border: the first copy runs on into the mirror, the
    second one puts what crossed at the start. -/
theorem ring_crossing (buf : Segments UInt8) {cap t : Nat} {s : List UInt8} (ht : t ≤ cap)
    (hcross : cap < t + s.length) (hfit : s.length ≤ cap) :
    (((buf.write 0 t s).write 0 0 (s.drop (cap - t))).ring 0 cap t s.length = s) ∧
      ∀ p < cap, (∀ j < s.length, (t + j) % cap ≠ p) →
        ((buf.write 0 t s).write 0 0 (s.drop (cap - t))) 0 p = buf 0 p := by
  have hlen : (s.drop (cap - t)).length = s.length - (cap - t) := List.length_drop
  constructor
  · have hfirst : ((buf.write 0 t s).write 0 0 (s.drop (cap - t))).read 0 t (cap - t) =
        s.take (cap - t) := by
      rw [read_write_disjoint _ _ _ _ _ _ _ (by omega), ← take_read _ _ _ s.length _ (by omega),
        read_write_same]
    have hsecond : ((buf.write 0 t s).write 0 0 (s.drop (cap - t))).read 0 0
        (s.length - (cap - t)) = s.drop (cap - t) := by
      rw [← hlen, read_write_same]
    rw [ring_cross ht hfit (by omega), hfirst, hsecond, List.take_append_drop]
  · intro p hp hfree
    have hfront : p < t := by
      by_contra hge
      refine hfree (p - t) (by omega) ?_
      rw [Nat.add_sub_cancel' (Nat.le_of_not_lt hge), Nat.mod_eq_of_lt hp]
    have hback : s.length - (cap - t) ≤ p := by
      by_contra hlt
      refine hfree (cap - t + p) (by omega) ?_
      rw [← Nat.add_assoc, Nat.add_sub_cancel' ht, Nat.add_mod_left, Nat.mod_eq_of_lt hp]
    rw [write_outside _ _ _ _ _ _ (by omega), write_outside _ _ _ _ _ _ (by omega)]

/-- The ring after a block in front of the border, and the copy of it in the mirror. -/
theorem ring_straight (buf : Segments UInt8) {cap t : Nat} {s : List UInt8}
    (hfit : t + s.length ≤ cap) :
    (((buf.write 0 t s).write 0 (cap + t) s).ring 0 cap t s.length = s) ∧
      ∀ p < cap, (∀ j < s.length, (t + j) % cap ≠ p) →
        ((buf.write 0 t s).write 0 (cap + t) s) 0 p = buf 0 p := by
  constructor
  · rw [ring_eq_read hfit, read_write_disjoint _ _ _ _ _ _ _ (by omega), read_write_same]
  · intro p hp hfree
    have hout : p < t ∨ t + s.length ≤ p := by
      by_contra hin
      refine hfree (p - t) (by omega) ?_
      rw [Nat.add_sub_cancel' (by omega), Nat.mod_eq_of_lt hp]
    rw [write_outside _ _ _ _ _ _ (by omega), write_outside _ _ _ _ _ _ hout]

/-- A block that does not fit is refused. -/
theorem write_overflow {c : CircularBuffer} {items s : List UInt8} (h : c.Holds items)
    (hwrap : items.length + s.length < 2 ^ 64) (hfull : c.max < items.length + s.length) :
    c.write s = .ok (false, c) := by
  simp only [write, h.count, sizeT_of_lt hwrap, if_pos hfull]

/-- The same ring with other bytes queued. -/
theorem Holds.moved {c c' : CircularBuffer} {items items' : List UInt8} (h : c.Holds items)
    (hmax : c'.max = c.max) (hfits : items'.length ≤ c.max) (hq : c'.q = items'.length)
    (hhead : c'.b < c.max) (htail : c'.t = (c'.b + items'.length) % c.max)
    (hcells : c'.buf.ring 0 c.max c'.b items'.length = items') : c'.Holds items' := by
  rw [← hmax] at hfits hhead htail hcells
  refine ⟨?_, ?_, hfits, hq, hhead, htail, hcells⟩
  · rw [hmax]
    exact h.pos
  · rw [hmax]
    exact h.room

/-- The new bytes are right behind the others, and the end has moved round the ring. -/
theorem Holds.push {c c' : CircularBuffer} {items s : List UInt8} (h : c.Holds items)
    (hfit : items.length + s.length ≤ c.max) (hmax : c'.max = c.max) (hb : c'.b = c.b)
    (hq : c'.q = items.length + s.length) (ht : c'.t = (c.t + s.length) % c.max)
    (hnew : c'.buf.ring 0 c.max c.t s.length = s)
    (hkeep : ∀ p < c.max, (∀ j < s.length, (c.t + j) % c.max ≠ p) → c'.buf 0 p = c.buf 0 p) :
    c'.Holds (items ++ s) := by
  have hlen : (items ++ s).length = items.length + s.length := List.length_append
  refine h.moved hmax ?_ ?_ ?_ ?_ ?_
  · rw [hlen]
    exact hfit
  · rw [hq, hlen]
  · rw [hb]
    exact h.head
  · rw [ht, hb, hlen, h.tail, Nat.mod_add_mod, Nat.add_assoc]
  · rw [hb, hlen, ring_push h.pos hfit h.tail hnew hkeep, h.cells]

/-- The two copies that `Write` makes, where both are inside the allocation. -/
theorem copyIn_copyIn {c : CircularBuffer} (n off : Nat) (s s' : List UInt8)
    (hroom : 2 * c.max < 2 ^ 64) (hfirst : c.t + s.length ≤ 2 * c.max)
    (hsecond : off + s'.length ≤ 2 * c.max) :
    copyIn { c with count := n } c.t s = .ok { c with count := n, buf := c.buf.write 0 c.t s } ∧
      copyIn { c with count := n, buf := c.buf.write 0 c.t s } off s' =
        .ok { c with count := n, buf := (c.buf.write 0 c.t s).write 0 off s' } :=
  ⟨copyIn_ok hroom hfirst, copyIn_ok hroom hsecond⟩

/-- A block that fits goes behind the bytes queued. -/
theorem write_fits {c : CircularBuffer} {items s : List UInt8} (h : c.Holds items)
    (hfit : items.length + s.length ≤ c.max) :
    ∃ c', c.write s = .ok (true, c') ∧ c'.max = c.max ∧ c'.Holds (items ++ s) := by
  have hroom := h.room
  have ht : c.t < c.max := by
    rw [h.tail]
    exact Nat.mod_lt _ h.pos
  have hq : sizeT (c.q + s.length) = items.length + s.length := by
    rw [h.count, sizeT_of_lt (by omega)]
  have hend : sizeT (c.t + s.length) = c.t + s.length := sizeT_of_lt (by omega)
  have hfull : ¬c.max < items.length + s.length := Nat.not_lt.mpr hfit
  by_cases hcross : c.max < c.t + s.length
  · have hrest : 0 + (s.drop (c.max - c.t)).length ≤ 2 * c.max := by
      rw [List.length_drop]
      omega
    obtain ⟨hfirst, hsecond⟩ := copyIn_copyIn (sizeT (c.count + s.length)) 0 s
      (s.drop (c.max - c.t)) hroom (by omega) hrest
    have hwrite : c.write s = .ok (true, { c with
        buf := (c.buf.write 0 c.t s).write 0 0 (s.drop (c.max - c.t))
        count := sizeT (c.count + s.length)
        t := s.length - (c.max - c.t)
        q := items.length + s.length }) := by
      simp only [write, hq, hend, if_neg hfull, if_pos hcross, hfirst, hsecond, ok_bind]
    have hwrap : s.length - (c.max - c.t) = (c.t + s.length) % c.max := by
      rw [Nat.mod_eq_sub_mod (Nat.le_of_lt hcross), Nat.mod_eq_of_lt (by omega)]
      omega
    obtain ⟨hnew, hkeep⟩ := ring_crossing c.buf (Nat.le_of_lt ht) hcross (by omega)
    exact ⟨_, hwrite, rfl, h.push hfit rfl rfl rfl hwrap hnew hkeep⟩
  · obtain ⟨hfirst, hsecond⟩ := copyIn_copyIn (sizeT (c.count + s.length)) (c.max + c.t) s s
      hroom (by omega) (by omega)
    have hwrite : c.write s = .ok (true, { c with
        buf := (c.buf.write 0 c.t s).write 0 (c.max + c.t) s
        count := sizeT (c.count + s.length)
        t := if c.max ≤ c.t + s.length then c.t + s.length - c.max else c.t + s.length
        q := items.length + s.length }) := by
      simp only [write, hq, hend, if_neg hfull, if_neg hcross, hfirst, hsecond, ok_bind]
    have hwrap := wrap_eq_mod (show c.t + s.length < 2 * c.max by omega)
    obtain ⟨hnew, hkeep⟩ := ring_straight c.buf (Nat.le_of_not_lt hcross)
    exact ⟨_, hwrite, rfl, h.push hfit rfl rfl rfl hwrap hnew hkeep⟩

/-! ### Reading -/

/-- The copy that a read makes of the oldest bytes. -/
theorem front_eq {c : CircularBuffer} {items : List UInt8} (h : c.Holds items) (dest : Bool)
    {l : Nat} (hl : l ≤ items.length) :
    c.front dest l = .ok (if dest then items.take l else []) := by
  have hroom := h.room
  have hhead := h.head
  have hfits := h.fits
  have hend : sizeT (c.b + l) = c.b + l := sizeT_of_lt (by omega)
  have htake : items.take l = c.buf.ring 0 c.max c.b l := by
    rw [← (ring_pop c.buf 0 c.max hl).1, h.cells]
  cases dest with
  | false => simp only [front, Bool.false_eq_true, if_false, ite_self]
  | true =>
      by_cases hcross : c.max < c.b + l
      · simp only [front, hend, if_pos hcross, if_true, ok_bind,
          copyOut_ok hroom (show c.b + (c.max - c.b) ≤ 2 * c.max by omega),
          copyOut_ok hroom (show 0 + (l - (c.max - c.b)) ≤ 2 * c.max by omega)]
        rw [htake, ring_cross (Nat.le_of_lt hhead) (by omega) (Nat.le_of_lt hcross)]
      · simp only [front, hend, if_neg hcross, if_true,
          copyOut_ok hroom (show c.b + l ≤ 2 * c.max by omega)]
        rw [htake, ring_eq_read (Nat.le_of_not_lt hcross)]

theorem softRead_eq {c : CircularBuffer} {items : List UInt8} (h : c.Holds items) (dest : Bool)
    (l : Nat) :
    c.softRead dest l =
      .ok (if l ≤ items.length then (true, if dest then items.take l else [])
        else (false, [])) := by
  by_cases hl : l ≤ items.length
  · simp only [softRead, h.count, if_neg (Nat.not_lt.mpr hl), front_eq h dest hl, ok_bind,
      if_pos hl]
  · simp only [softRead, h.count, if_pos (Nat.lt_of_not_le hl), if_neg hl]

theorem read_refused {c : CircularBuffer} {items : List UInt8} (h : c.Holds items) (dest : Bool)
    {l : Nat} (hl : items.length < l) : c.read dest l = .ok ((false, []), c) := by
  simp only [read, h.count, if_pos hl]

/-- The start has moved round the ring, unless nothing is left and both ends are at 0. -/
theorem Holds.pop {c c' : CircularBuffer} {items : List UInt8} (h : c.Holds items) {l : Nat}
    (hl : l ≤ items.length) (hbuf : c'.buf = c.buf) (hmax : c'.max = c.max)
    (hq : c'.q = items.length - l)
    (hends : c'.b = (c.b + l) % c.max ∧ c'.t = c.t ∨
      items.length - l = 0 ∧ c'.b = 0 ∧ c'.t = 0) :
    c'.Holds (items.drop l) := by
  have hlen : (items.drop l).length = items.length - l := List.length_drop
  have hfits : (items.drop l).length ≤ c.max := by
    rw [hlen]
    exact Nat.le_trans (Nat.sub_le ..) h.fits
  have hcount : c'.q = (items.drop l).length := by
    rw [hq, hlen]
  rcases hends with ⟨hb, ht⟩ | ⟨hnone, hb, ht⟩
  · refine h.moved hmax hfits hcount ?_ ?_ ?_
    · rw [hb]
      exact Nat.mod_lt _ h.pos
    · rw [hb, ht, hlen, h.tail, Nat.mod_add_mod, Nat.add_assoc, Nat.add_sub_cancel' hl]
    · rw [hbuf, hb, hlen, ← (ring_pop c.buf 0 c.max hl).2, h.cells]
  · refine h.moved hmax hfits hcount ?_ ?_ ?_
    · rw [hb]
      exact h.pos
    · rw [hb, ht, hlen, hnone, Nat.zero_mod]
    · rw [hlen, hnone, ring_zero, List.drop_eq_nil_of_le (Nat.le_of_sub_eq_zero hnone)]

/-- The oldest bytes are taken off. -/
theorem read_takes {c : CircularBuffer} {items : List UInt8} (h : c.Holds items) (dest : Bool)
    {l : Nat} (hl : l ≤ items.length) :
    ∃ c', c.read dest l = .ok ((true, if dest then items.take l else []), c') ∧
      c'.max = c.max ∧ c'.Holds (items.drop l) := by
  have hroom := h.room
  have hhead := h.head
  have hfits := h.fits
  have hend : sizeT (c.b + l) = c.b + l := sizeT_of_lt (by omega)
  -- where the start goes, on either side of the border
  have hmoved : (if c.max < sizeT (c.b + l) then { c with b := l - (c.max - c.b), q := c.q - l }
      else
        { c with
          b := if c.max ≤ sizeT (c.b + l) then sizeT (c.b + l) - c.max else sizeT (c.b + l)
          q := c.q - l }) =
      { c with b := (c.b + l) % c.max, q := items.length - l } := by
    rw [hend, h.count]
    split
    · rename_i hcross
      have hb : l - (c.max - c.b) = (c.b + l) % c.max := by
        rw [Nat.mod_eq_sub_mod (Nat.le_of_lt hcross), Nat.mod_eq_of_lt (by omega)]
        omega
      rw [hb]
    · rw [wrap_eq_mod (by omega)]
  have hread : c.read dest l = .ok ((true, if dest then items.take l else []),
      if items.length - l = 0 then { c with b := 0, q := items.length - l, t := 0 }
      else { c with b := (c.b + l) % c.max, q := items.length - l }) := by
    rw [read, if_neg (by rw [h.count]; exact Nat.not_lt.mpr hl), front_eq h dest hl, ok_bind]
    simp only [hmoved]
  refine ⟨_, hread, ?_, ?_⟩
  · split
    · rfl
    · rfl
  · split
    · rename_i hnone
      exact h.pop hl rfl rfl rfl (Or.inr ⟨hnone, rfl, rfl⟩)
    · exact h.pop hl rfl rfl rfl (Or.inl ⟨rfl, rfl⟩)

/-! ### Runs -/

/-- **One call.**  The buffer answers as the queue does, and holds what the queue holds. -/
theorem step_refines {cap : Nat} {c : CircularBuffer} {q : BoundedQueue UInt8 cap}
    (hmax : c.max = cap) (h : c.Holds q.items) (op : Op) (hwrap : Queue.NoWrap q op) :
    ∃ c', c.step op = .ok ((Queue.step q op).1, c') ∧ c'.max = cap ∧
      c'.Holds (Queue.step q op).2.items := by
  cases op with
  | write s =>
      by_cases hfit : q.items.length + s.length ≤ cap
      · obtain ⟨c', hwrite, hmax', h'⟩ := write_fits h (by rw [hmax]; exact hfit)
        refine ⟨c', ?_, hmax'.trans hmax, ?_⟩
        · simp only [step, hwrite, ok_bind, Queue.step, BoundedQueue.write, dif_pos hfit]
        · simp only [Queue.step, BoundedQueue.write, dif_pos hfit]
          exact h'
      · have hwrite := write_overflow h hwrap (by rw [hmax]; exact Nat.lt_of_not_le hfit)
        refine ⟨c, ?_, hmax, ?_⟩
        · simp only [step, hwrite, ok_bind, Queue.step, BoundedQueue.write, dif_neg hfit]
        · simp only [Queue.step, BoundedQueue.write, dif_neg hfit]
          exact h
  | read dest l =>
      by_cases hl : l ≤ q.items.length
      · obtain ⟨c', hread, hmax', h'⟩ := read_takes h dest hl
        refine ⟨c', ?_, hmax'.trans hmax, ?_⟩
        · simp only [step, hread, Queue.step, BoundedQueue.read, if_pos hl, Queue.answer]
        · simp only [Queue.step, BoundedQueue.read, if_pos hl]
          exact h'
      · have hread := read_refused h dest (Nat.lt_of_not_le hl)
        refine ⟨c, ?_, hmax, ?_⟩
        · simp only [step, hread, Queue.step, BoundedQueue.read, if_neg hl, Queue.answer]
        · simp only [Queue.step, BoundedQueue.read, if_neg hl]
          exact h
  | softRead dest l =>
      refine ⟨c, ?_, hmax, h⟩
      simp only [step, softRead_eq h, ok_bind, Queue.step, BoundedQueue.softRead,
        BoundedQueue.read]
      split
      · rfl
      · rfl

/-- Every call of the run keeps the sums within a `size_t`. -/
abbrev NoWraps {cap : Nat} (q : BoundedQueue UInt8 cap) (ops : List Op) : Prop :=
  Along (fun q op => (Queue.step q op).2) Queue.NoWrap q ops

theorem run_refines {cap : Nat} (ops : List Op) :
    ∀ {c : CircularBuffer} {q : BoundedQueue UInt8 cap}, c.max = cap → c.Holds q.items →
      NoWraps q ops → ∃ c', c.run ops = .ok ((Queue.run q ops).1, c') ∧ c'.max = cap ∧
        c'.Holds (Queue.run q ops).2.items := by
  induction ops with
  | nil =>
      intro c q hmax h _
      exact ⟨c, rfl, hmax, h⟩
  | cons op ops ih =>
      intro c q hmax h hwraps
      obtain ⟨c', hstep, hmax', h'⟩ := step_refines hmax h op hwraps.1
      obtain ⟨c'', hrun, hmax'', h''⟩ := ih hmax' h' hwraps.2
      refine ⟨c'', ?_, hmax'', h''⟩
      simp only [run, hstep, hrun, ok_bind, Queue.run]

/-- **The buffer is a bounded queue.**  Whatever the calls, it answers them as the queue does,
    no access is outside the allocation, and its length is that of the queue. -/
theorem run_queue (buf : Segments UInt8) (cap : Nat) (ops : List Op) (hpos : 0 < cap)
    (hroom : 2 * cap < 2 ^ 64) (hwraps : NoWraps (BoundedQueue.empty UInt8 cap) ops) :
    ∃ c', (make buf cap).run ops = .ok ((Queue.run (BoundedQueue.empty UInt8 cap) ops).1, c') ∧
      c'.getLength = (Queue.run (BoundedQueue.empty UInt8 cap) ops).2.items.length := by
  obtain ⟨c', hrun, -, h⟩ := run_refines (q := BoundedQueue.empty UInt8 cap) ops rfl
    (holds_make buf hpos hroom) hwraps
  exact ⟨c', hrun, h.count⟩

/-- Blocks that cross the border on both sides, one that does not fit, and one too many asked
    for. -/
theorem run_queue_four :
    ∃ c', (make (fun _ _ => 7) 4).run
        [.write [1, 2, 3], .read true 2, .write [4, 5, 6], .write [9], .softRead true 4,
          .read false 1, .read true 3, .read true 1] =
      .ok ([(true, []), (true, [1, 2]), (true, []), (false, []), (true, [3, 4, 5, 6]),
        (true, []), (true, [4, 5, 6]), (false, [])], c') ∧ c'.getLength = 0 :=
  run_queue (fun _ _ => 7) 4
    [.write [1, 2, 3], .read true 2, .write [4, 5, 6], .write [9], .softRead true 4,
      .read false 1, .read true 3, .read true 1] (by decide) (by decide) (by decide)

end CircularBuffer

end Jengine.Robot
