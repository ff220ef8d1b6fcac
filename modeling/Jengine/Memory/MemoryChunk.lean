import Jengine.Lib.Segments
import Mathlib.Algebra.Ring.Nat

/-!
# Views of memory chunks

`RefMemoryChunk` (`base/memory/memorychunk.h`) maps a region of a `MemoryChunk`
and carries a read/write cursor of its own.  Several views may map one chunk:
`Client` splits a chunk between its receive pool and its receive queue with
`ShrinkCount` and `ForwardOffset`, and packets are built from the pieces.

The bytes of all chunks live in one segmented memory, one segment a chunk, so
that views of one chunk really share it.  A view stores the chunk's number and
the offset of `data_` in the chunk.  The null view of the default constructor
maps nothing and is left out here.  The assertions of `ShrinkCount`,
`ForwardOffset` and `SkipTo` are preconditions of the functions below; every
caller in the source guards them by a comparison with `count()`.
-/

namespace Jengine.Memory

open Jengine.Lib

/-- The bytes of every `MemoryChunk`. -/
abbrev Bytes := Segments UInt8

/-- `RefMemoryChunk`: a view of `count` bytes of a chunk, from offset `data` on,
    with a cursor `pos` into the view. -/
structure RefMemoryChunk where
  chunk : Nat
  data : Nat
  pos : Nat
  count : Nat
deriving DecidableEq, Repr

namespace RefMemoryChunk

/-- `Reset`: back to the start of the view. -/
def reset (v : RefMemoryChunk) : RefMemoryChunk := { v with pos := 0 }

/-- `ShrinkCount`: give up the last `shrink` bytes. -/
def shrinkCount (v : RefMemoryChunk) (shrink : Nat) : RefMemoryChunk :=
  reset { v with count := v.count - shrink }

/-- `ForwardOffset`: give up the first `forward` bytes. -/
def forwardOffset (v : RefMemoryChunk) (forward : Nat) : RefMemoryChunk :=
  reset { v with data := v.data + forward, count := v.count - forward }

/-- `SkipTo`: move the cursor. -/
def skipTo (v : RefMemoryChunk) (pos : Nat) : RefMemoryChunk := { v with pos := pos }

/-- `FreeCount`: bytes after the cursor. -/
def freeCount (v : RefMemoryChunk) : Nat := v.count - v.pos

/-- How many bytes `Read` and `Write` move when asked for `count`. -/
def moved (v : RefMemoryChunk) (count : Nat) : Nat :=
  if count ≤ v.freeCount then count
  else if 0 < v.freeCount then v.freeCount
  else 0

/-- `Read`: copy out at most `count` bytes from the cursor on. -/
def read (m : Bytes) (v : RefMemoryChunk) (count : Nat) : List UInt8 × RefMemoryChunk :=
  (m.read v.chunk (v.data + v.pos) (v.moved count), { v with pos := v.pos + v.moved count })

/-- `Write`: copy in as many bytes of `src` as fit after the cursor; the number
    written is the cursor's advance. -/
def write (m : Bytes) (v : RefMemoryChunk) (src : List UInt8) : Bytes × RefMemoryChunk :=
  (m.write v.chunk (v.data + v.pos) (src.take (v.moved src.length)),
    { v with pos := v.pos + v.moved src.length })

/-! ### What a view maps -/

/-- All bytes the view maps. -/
def bytes (m : Bytes) (v : RefMemoryChunk) : List UInt8 := m.read v.chunk v.data v.count

/-- The mapped bytes from the cursor on. -/
def unread (m : Bytes) (v : RefMemoryChunk) : List UInt8 :=
  m.read v.chunk (v.data + v.pos) v.freeCount

/-- The bytes of a sequence of views, in order. -/
def bytesOf (m : Bytes) (vs : List RefMemoryChunk) : List UInt8 := vs.flatMap (bytes m)

/-- The bytes of a sequence of views that lie after the views' cursors. -/
def unreadOf (m : Bytes) (vs : List RefMemoryChunk) : List UInt8 := vs.flatMap (unread m)

/-- Total number of bytes mapped by a sequence of views. -/
def total (vs : List RefMemoryChunk) : Nat := (vs.map count).sum

/-- Two views map no common byte. -/
def Apart (v w : RefMemoryChunk) : Prop :=
  v.chunk ≠ w.chunk ∨ v.data + v.count ≤ w.data ∨ w.data + w.count ≤ v.data

instance (v w : RefMemoryChunk) : Decidable (Apart v w) := by unfold Apart; infer_instance

theorem Apart.symm {v w : RefMemoryChunk} (h : Apart v w) : Apart w v := by
  rcases h with h | h | h
  · exact Or.inl (Ne.symm h)
  · exact Or.inr (Or.inr h)
  · exact Or.inr (Or.inl h)

/-- `v` maps a part of what `w` maps. -/
def Within (v w : RefMemoryChunk) : Prop :=
  v.chunk = w.chunk ∧ w.data ≤ v.data ∧ v.data + v.count ≤ w.data + w.count

theorem Apart.within {v w u : RefMemoryChunk} (h : Apart w u) (hv : Within v w) : Apart v u := by
  obtain ⟨hc, hlo, hhi⟩ := hv
  rcases h with h | h | h
  · exact Or.inl (by rw [hc]; exact h)
  · exact Or.inr (Or.inl (by omega))
  · exact Or.inr (Or.inr (by omega))

theorem within_shrinkCount (v : RefMemoryChunk) (k : Nat) : Within (v.shrinkCount k) v :=
  ⟨rfl, Nat.le_refl _, by simp only [shrinkCount, reset]; omega⟩

theorem within_forwardOffset {v : RefMemoryChunk} {k : Nat} (h : k ≤ v.count) :
    Within (v.forwardOffset k) v :=
  ⟨rfl, Nat.le_add_right _ _, by simp only [forwardOffset, reset]; omega⟩

/-- The two halves of a split view map no common byte. -/
theorem apart_split {v : RefMemoryChunk} {k : Nat} (h : k ≤ v.count) :
    Apart (v.shrinkCount (v.count - k)) (v.forwardOffset k) :=
  Or.inr (Or.inl (by simp only [shrinkCount, forwardOffset, reset]; omega))

@[simp] theorem length_bytes (m : Bytes) (v : RefMemoryChunk) : (v.bytes m).length = v.count := by
  simp [bytes]

@[simp] theorem length_unread (m : Bytes) (v : RefMemoryChunk) :
    (v.unread m).length = v.freeCount := by
  simp [unread]

@[simp] theorem bytesOf_nil (m : Bytes) : bytesOf m [] = [] := rfl

@[simp] theorem bytesOf_cons (m : Bytes) (v : RefMemoryChunk) (vs : List RefMemoryChunk) :
    bytesOf m (v :: vs) = v.bytes m ++ bytesOf m vs := rfl

@[simp] theorem bytesOf_append (m : Bytes) (vs ws : List RefMemoryChunk) :
    bytesOf m (vs ++ ws) = bytesOf m vs ++ bytesOf m ws := List.flatMap_append

@[simp] theorem unreadOf_nil (m : Bytes) : unreadOf m [] = [] := rfl

@[simp] theorem unreadOf_cons (m : Bytes) (v : RefMemoryChunk) (vs : List RefMemoryChunk) :
    unreadOf m (v :: vs) = v.unread m ++ unreadOf m vs := rfl

@[simp] theorem unreadOf_append (m : Bytes) (vs ws : List RefMemoryChunk) :
    unreadOf m (vs ++ ws) = unreadOf m vs ++ unreadOf m ws := List.flatMap_append

@[simp] theorem total_nil : total [] = 0 := rfl

@[simp] theorem total_cons (v : RefMemoryChunk) (vs : List RefMemoryChunk) :
    total (v :: vs) = v.count + total vs := rfl

@[simp] theorem total_append (vs ws : List RefMemoryChunk) :
    total (vs ++ ws) = total vs + total ws := by
  simp [total]

@[simp] theorem length_bytesOf (m : Bytes) (vs : List RefMemoryChunk) :
    (bytesOf m vs).length = total vs := by
  induction vs with
  | nil => rfl
  | cons v vs ih => simp [ih]

/-- Shrinking keeps the front of the view. -/
theorem bytes_shrinkCount (m : Bytes) (v : RefMemoryChunk) {k : Nat} (h : k ≤ v.count) :
    (v.shrinkCount (v.count - k)).bytes m = (v.bytes m).take k := by
  rw [bytes, bytes, Segments.take_read _ _ _ _ _ h]
  simp only [shrinkCount, reset]
  rw [Nat.sub_sub_self h]

/-- Forwarding keeps the back of the view. -/
theorem bytes_forwardOffset (m : Bytes) (v : RefMemoryChunk) {k : Nat} (h : k ≤ v.count) :
    (v.forwardOffset k).bytes m = (v.bytes m).drop k := by
  rw [bytes, bytes, Segments.drop_read _ _ _ _ _ h]
  rfl

theorem bytesOf_congr {m m' : Bytes} {vs : List RefMemoryChunk}
    (h : ∀ v ∈ vs, v.bytes m' = v.bytes m) : bytesOf m' vs = bytesOf m vs := by
  simp only [bytesOf, List.flatMap_def]
  rw [List.map_congr_left h]

/-! ### Moving the cursor -/

/-- What a view maps, its cursor apart. -/
def region (v : RefMemoryChunk) : Nat × Nat × Nat := (v.chunk, v.data, v.count)

theorem bytes_of_region_eq (m : Bytes) {v w : RefMemoryChunk} (h : v.region = w.region) :
    v.bytes m = w.bytes m := by
  simp only [region, Prod.mk.injEq] at h
  simp only [bytes, h]

theorem bytesOf_of_region_eq (m : Bytes) : ∀ {vs ws : List RefMemoryChunk},
    vs.map region = ws.map region → bytesOf m vs = bytesOf m ws := by
  intro vs
  induction vs with
  | nil =>
      intro ws h
      rw [List.map_nil, eq_comm, List.map_eq_nil_iff] at h
      rw [h]
  | cons v vs ih =>
      intro ws h
      rcases ws with _ | ⟨w, ws⟩
      · simp at h
      · simp only [List.map_cons, List.cons.injEq] at h
        rw [bytesOf_cons, bytesOf_cons, bytes_of_region_eq m h.1, ih h.2]

theorem map_chunk_of_region_eq {vs ws : List RefMemoryChunk}
    (h : vs.map region = ws.map region) : vs.map chunk = ws.map chunk := by
  have hfst := congrArg (List.map Prod.fst) h
  rw [List.map_map, List.map_map] at hfst
  exact hfst

theorem moved_eq_min (v : RefMemoryChunk) (n : Nat) : v.moved n = min n v.freeCount := by
  unfold moved
  split
  · omega
  · split <;> omega

/-- `Read` returns the front of the unread bytes. -/
theorem read_fst (m : Bytes) (v : RefMemoryChunk) (n : Nat) :
    (v.read m n).1 = (v.unread m).take n := by
  rw [read, unread, moved_eq_min]
  rcases Nat.le_total n v.freeCount with h | h
  · rw [Nat.min_eq_left h, Segments.take_read _ _ _ _ _ h]
  · rw [Nat.min_eq_right h, List.take_of_length_le (by simpa using h)]

theorem freeCount_read (m : Bytes) (v : RefMemoryChunk) (n : Nat) :
    (v.read m n).2.freeCount = v.freeCount - n := by
  simp only [read, freeCount, moved_eq_min]
  omega

/-- `Read` leaves the rest of the unread bytes. -/
theorem unread_read (m : Bytes) (v : RefMemoryChunk) (n : Nat) :
    (v.read m n).2.unread m = (v.unread m).drop n := by
  rw [unread, unread, freeCount_read]
  rcases Nat.le_total n v.freeCount with h | h
  · rw [Segments.drop_read _ _ _ _ _ h]
    simp only [read, moved_eq_min, Nat.min_eq_left h, Nat.add_assoc]
  · rw [Nat.sub_eq_zero_of_le h, List.drop_eq_nil_of_le (by simpa using h)]
    rfl

theorem region_read (m : Bytes) (v : RefMemoryChunk) (n : Nat) :
    (v.read m n).2.region = v.region := rfl

theorem region_skipTo (v : RefMemoryChunk) (k : Nat) : (v.skipTo k).region = v.region := rfl

theorem unread_skipTo (m : Bytes) (v : RefMemoryChunk) {k : Nat} (h : k ≤ v.count) :
    (v.skipTo k).unread m = (v.bytes m).drop k := by
  rw [unread, bytes, Segments.drop_read _ _ _ _ _ h]
  rfl

/-- Writing inside one view leaves the bytes of a view apart from it alone. -/
theorem bytes_write_apart (m : Bytes) {v w : RefMemoryChunk} (xs : List UInt8) {off : Nat}
    (h : Apart v w) (hlo : v.data ≤ off) (hhi : off + xs.length ≤ v.data + v.count) :
    w.bytes (m.write v.chunk off xs) = w.bytes m := by
  rcases h with h | h | h
  · exact Segments.read_write_other_segment m _ _ _ (Ne.symm h) _ _
  · exact Segments.read_write_disjoint m _ _ _ _ _ _ (Or.inr (by omega))
  · exact Segments.read_write_disjoint m _ _ _ _ _ _ (Or.inl (by omega))

end RefMemoryChunk

end Jengine.Memory
