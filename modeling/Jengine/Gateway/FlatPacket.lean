import Jengine.Gateway.Overwrite
import Jengine.Gateway.Packet
import Jengine.Lib.Runs

/-!
# A packet is an array of bytes with a cursor

`Packet::SkipTo`, `PacketInBase::GetByte`, `PacketOutBase::PutByte` and `FetchData`
(`base/gateway/packet_base.h`) keep the cursor three times: `pos_`, `pos_y_`, and the cursor
of every chunk.  `Placed` says how the three belong together.  Whatever the chunks are, a
packet then is one array of bytes: their bytes, one chunk after the other.

The operations are taken in any order.  A packet that is received consists of any views; a
packet that is written to has views that do not overlap, and grows from its pool.
-/

namespace Jengine.Gateway

open Jengine.Lib Jengine.Memory RefMemoryChunk

/-! ### The array -/

/-- A packet as one array; `bytes` are as many as `capacity_`. -/
structure FlatPacket where
  bytes : List UInt8
  size : Nat
  pos : Nat
deriving DecidableEq, Repr

namespace FlatPacket

def skipTo (f : FlatPacket) (pos : Nat) : FlatPacket :=
  { f with size := max f.size pos, pos := pos }

/-- Overwrite from the cursor on, after growing by the bytes `extra`. -/
def put (f : FlatPacket) (extra src : List UInt8) : FlatPacket where
  bytes := (f.bytes ++ extra).take f.pos ++ src ++ (f.bytes ++ extra).drop (f.pos + src.length)
  size := max f.size (f.pos + src.length)
  pos := f.pos + src.length

/-- Read at the cursor, if there are so many bytes. -/
def get (f : FlatPacket) (count : Nat) : Option (List UInt8 × FlatPacket) :=
  if f.size < f.pos + count then none
  else some ((f.bytes.drop f.pos).take count, { f with pos := f.pos + count })

def fetch (f : FlatPacket) : List UInt8 := f.bytes.take f.size

end FlatPacket

/-! ### The operations -/

inductive PacketOp where
  | skipTo (pos : Nat)
  | putByte (src : List UInt8)
  | getByte (count : Nat)
  | fetchData

/-- What an operation gives its caller. -/
inductive Outcome where
  | done
  | bytes (bs : List UInt8)
  | views (vs : List RefMemoryChunk)
  | fault (e : Fault)

namespace PacketOut

def perform (o : Out) : PacketOp → Outcome × Out
  | .skipTo pos =>
      match skipTo pos o with
      | .ok (_, o') => (.done, o')
      | .error e => (.fault e, o)
  | .putByte src =>
      match putByte src o with
      | .ok (_, o') => (.done, o')
      | .error e => (.fault e, o)
  | .getByte count =>
      match PacketIn.getByte o.pool.mem count o.packet with
      | .ok (bs, pk) => (.bytes bs, { o with packet := pk })
      | .error e => (.fault e, o)
  | .fetchData => (.views (fetchData o.packet), o)

def step (o : Out) (op : PacketOp) : Out := (perform o op).2

/-- The array that a packet is. -/
def flat (o : Out) : FlatPacket := ⟨bytesOf o.pool.mem o.packet.data, o.packet.size, o.packet.pos⟩

/-- An operation acts on the array as it should. -/
def Acts (o : Out) (op : PacketOp) : Prop :=
  match op with
  | .skipTo pos => (perform o op).1 = .done ∧ flat (step o op) = (flat o).skipTo pos
  | .putByte src => (perform o op).1 = .done ∧
      ∃ extra, ((flat o).pos + src.length ≤ (flat o).bytes.length → extra = []) ∧
        flat (step o op) = (flat o).put extra src
  | .getByte count =>
      match (flat o).get count with
      | none => (perform o op).1 = .fault .noMoreData ∧ step o op = o
      | some (bs, f) => (perform o op).1 = .bytes bs ∧ flat (step o op) = f
  | .fetchData => ∃ vs, (perform o op).1 = .views vs ∧
      bytesOf o.pool.mem vs = (flat o).fetch ∧ step o op = o

/-- `SkipTo` stays within the capacity, counts are below 65536, and no size or capacity comes near
    the end of `uint32_t`. -/
def Allowed (o : Out) : PacketOp → Prop
  | .skipTo pos => pos ≤ o.packet.capacity ∧ pos < 2 ^ 31
  | .putByte src => src.length < 65536 ∧ o.packet.pos + src.length < 2 ^ 31 ∧
      (o.packet.capacity < o.packet.pos + src.length → o.packet.capacity +
        o.pool.calculateChunkCount (src.length + 10) * o.pool.chunksize < 2 ^ 32)
  | .getByte count => count < 65536
  | .fetchData => True

instance (o : Out) : ∀ op, Decidable (Allowed o op)
  | .skipTo pos => inferInstanceAs (Decidable (pos ≤ o.packet.capacity ∧ pos < 2 ^ 31))
  | .putByte src => inferInstanceAs (Decidable (src.length < 65536 ∧
      o.packet.pos + src.length < 2 ^ 31 ∧
      (o.packet.capacity < o.packet.pos + src.length → o.packet.capacity +
        o.pool.calculateChunkCount (src.length + 10) * o.pool.chunksize < 2 ^ 32)))
  | .getByte count => inferInstanceAs (Decidable (count < 65536))
  | .fetchData => isTrue trivial

end PacketOut

/-! ### Where the cursor is -/

/-- The first chunk has room behind its cursor, and the others have not been touched. -/
def Open : List RefMemoryChunk → Prop
  | [] => True
  | v :: vs => v.pos < v.count ∧ ∀ w ∈ vs, w.pos = 0

/-- The chunks before `pos_y_` have their cursor at their end, the chunk at `pos_y_` has it before,
    and the others at the start; their sum is `pos_`. -/
structure Placed (pk : Packet) : Prop where
  before : ∀ v ∈ pk.data.take pk.posY, v.pos = v.count
  cursor : Open (pk.data.drop pk.posY)
  posY_le : pk.posY ≤ pk.data.length
  sum : (pk.data.map RefMemoryChunk.pos).sum = pk.pos
  capacity : pk.capacity = total pk.data
  pos_le : pk.pos ≤ pk.size
  size_le : pk.size ≤ pk.capacity

theorem Open.of_fresh {vs : List RefMemoryChunk} (h : ∀ v ∈ vs, v.pos = 0)
    (hne : ∀ v ∈ vs, 0 < v.count) : Open vs := by
  cases vs with
  | nil => exact trivial
  | cons v vs =>
      refine ⟨?_, fun w hw => h w (List.mem_cons_of_mem v hw)⟩
      rw [h v List.mem_cons_self]
      exact hne v List.mem_cons_self

theorem Open.atCursor {vs : List RefMemoryChunk} (h : Open vs) : AtCursor vs := by
  cases vs with
  | nil => exact trivial
  | cons v vs => exact ⟨Nat.le_of_lt h.1, h.2⟩

theorem sum_pos_of_fresh {vs : List RefMemoryChunk} (h : ∀ v ∈ vs, v.pos = 0) :
    (vs.map RefMemoryChunk.pos).sum = 0 := by
  induction vs with
  | nil => rfl
  | cons v vs ih =>
      rw [List.map_cons, List.sum_cons, h v List.mem_cons_self,
        ih fun w hw => h w (List.mem_cons_of_mem v hw)]

theorem sum_pos_of_full {vs : List RefMemoryChunk} (h : ∀ v ∈ vs, v.pos = v.count) :
    (vs.map RefMemoryChunk.pos).sum = total vs := by
  rw [total, List.map_congr_left h]

theorem Open.length_front (m : Bytes) {vs : List RefMemoryChunk} (h : Open vs) :
    (front m vs).length = (vs.map RefMemoryChunk.pos).sum := by
  cases vs with
  | nil => rfl
  | cons v vs =>
      rw [front, List.length_take, length_bytes, List.map_cons, List.sum_cons,
        sum_pos_of_fresh h.2]
      exact Nat.min_eq_left (Nat.le_of_lt h.1)

/-- The cursor splits the bytes at `pos_`. -/
theorem Placed.split {pk : Packet} (h : Placed pk) (m : Bytes) :
    bytesOf m (pk.data.take pk.posY) ++ front m (pk.data.drop pk.posY) =
        (bytesOf m pk.data).take pk.pos ∧
      unreadOf m (pk.data.drop pk.posY) = (bytesOf m pk.data).drop pk.pos := by
  have hlen : (bytesOf m (pk.data.take pk.posY) ++ front m (pk.data.drop pk.posY)).length =
      pk.pos := by
    rw [List.length_append, length_bytesOf, ← sum_pos_of_full h.before, h.cursor.length_front,
      ← List.sum_append, ← List.map_append, List.take_append_drop, h.sum]
  have hsplit : bytesOf m pk.data = (bytesOf m (pk.data.take pk.posY) ++
      front m (pk.data.drop pk.posY)) ++ unreadOf m (pk.data.drop pk.posY) := by
    rw [List.append_assoc, ← bytesOf_eq_front_append m h.cursor.atCursor, ← bytesOf_append,
      List.take_append_drop]
  constructor
  · rw [hsplit, List.take_left' hlen]
  · rw [hsplit, List.drop_left' hlen]

/-! ### The loops move the cursor -/

/-- The chunks after a loop, and how many of them have been passed; `n` is where the cursor is. -/
structure Moved (vs' : List RefMemoryChunk) (y n : Nat) : Prop where
  before : ∀ v ∈ vs'.take y, v.pos = v.count
  cursor : Open (vs'.drop y)
  sum : (vs'.map RefMemoryChunk.pos).sum = n

theorem Moved.cons_full {v : RefMemoryChunk} {vs' : List RefMemoryChunk} {y n : Nat}
    (h : Moved vs' y n) (hv : v.pos = v.count) : Moved (v :: vs') (y + 1) (v.pos + n) where
  before := by
    intro w hw
    rcases List.mem_cons.mp hw with rfl | hw
    · exact hv
    · exact h.before w hw
  cursor := h.cursor
  sum := by rw [List.map_cons, List.sum_cons, h.sum]

theorem Moved.cons_open {v : RefMemoryChunk} {vs' : List RefMemoryChunk} (hv : v.pos < v.count)
    (h : ∀ w ∈ vs', w.pos = 0) : Moved (v :: vs') 0 v.pos where
  before := fun _ hw => absurd hw List.not_mem_nil
  cursor := ⟨hv, h⟩
  sum := by rw [List.map_cons, List.sum_cons, sum_pos_of_fresh h, Nat.add_zero]

/-- The loop of `SkipTo`. -/
theorem skipChunks_moved {vs : List RefMemoryChunk} (hne : ∀ v ∈ vs, 0 < v.count) {pos : Nat}
    (h : pos ≤ total vs) :
    Moved (Packet.skipChunks pos vs).1 (Packet.skipChunks pos vs).2 pos := by
  induction vs generalizing pos with
  | nil =>
      obtain rfl : pos = 0 := Nat.le_zero.mp h
      exact ⟨fun _ hv => absurd hv List.not_mem_nil, trivial, rfl⟩
  | cons v vs ih =>
      have hv := hne v List.mem_cons_self
      have hrest : ∀ w ∈ vs, 0 < w.count := fun w hw => hne w (List.mem_cons_of_mem v hw)
      by_cases hzero : pos = 0
      · subst hzero
        rw [skipChunks_cons_zero, skipChunks_zero]
        exact Moved.cons_open hv skipChunks_zero_fresh
      · by_cases hlt : pos < v.count
        · rw [skipChunks_cons_inside vs hzero hlt, skipChunks_zero]
          exact Moved.cons_open hlt skipChunks_zero_fresh
        · rw [total_cons] at h
          rw [skipChunks_cons_beyond vs hzero hlt]
          have hle : pos - v.count ≤ total vs := by omega
          have hmoved := (ih hrest hle).cons_full
            (v := v.skipTo v.count) rfl
          have hsum : v.count + (pos - v.count) = pos := by omega
          rwa [show (v.skipTo v.count).pos = v.count from rfl, hsum] at hmoved

/-- The loop of `GetByte`. -/
theorem readChunks_moved (m : Bytes) {vs : List RefMemoryChunk} (hne : ∀ v ∈ vs, 0 < v.count)
    (hopen : Open vs) {n : Nat} (hn : n ≤ (unreadOf m vs).length) :
    Moved (readChunks m n vs).2.1 (readChunks m n vs).2.2
      ((vs.map RefMemoryChunk.pos).sum + n) := by
  induction vs generalizing n with
  | nil =>
      obtain rfl : n = 0 := Nat.le_zero.mp hn
      exact ⟨fun _ hv => absurd hv List.not_mem_nil, trivial, rfl⟩
  | cons v vs ih =>
      obtain ⟨hv, hfresh⟩ := hopen
      have hrest : ∀ w ∈ vs, 0 < w.count := fun w hw => hne w (List.mem_cons_of_mem v hw)
      have hfree : v.freeCount = v.count - v.pos := rfl
      rw [unreadOf_cons, List.length_append, length_unread] at hn
      rw [List.map_cons, List.sum_cons, sum_pos_of_fresh hfresh, Nat.add_zero]
      by_cases hzero : n = 0
      · subst hzero
        rw [readChunks_zero]
        exact Moved.cons_open hv hfresh
      · by_cases hle : v.freeCount ≤ n
        · rw [readChunks_cons_used m vs hzero hle]
          have hpos : (v.read m n).2.pos = v.count := by
            simp only [RefMemoryChunk.read, moved_eq_min]
            omega
          have hmoved := (ih hrest (Open.of_fresh hfresh hrest) (n := n - v.freeCount)
            (by omega)).cons_full (v := (v.read m n).2) hpos
          have hsum : v.count + (0 + (n - v.freeCount)) = v.pos + n := by omega
          rwa [hpos, sum_pos_of_fresh hfresh, hsum] at hmoved
        · rw [readChunks_cons_inside m vs hzero (by omega)]
          have hpos : (v.read m n).2.pos = v.pos + n := by
            simp only [RefMemoryChunk.read, moved_eq_min]
            omega
          have hlt : (v.read m n).2.pos < (v.read m n).2.count := by
            rw [hpos]
            show v.pos + n < v.count
            omega
          rw [← hpos]
          exact Moved.cons_open hlt hfresh

/-- The loop of `PutByte` moves the cursors as that of `GetByte` does. -/
theorem writeChunks_cursors (m m' : Bytes) (src : List UInt8) (vs : List RefMemoryChunk) :
    (writeChunks m src vs).2 = (readChunks m' src.length vs).2 := by
  induction vs generalizing m src with
  | nil => rfl
  | cons v vs ih =>
      by_cases hsrc : src = []
      · subst hsrc
        rw [writeChunks_nil, List.length_nil, readChunks_zero]
      · have hlen : src.length ≠ 0 := fun h => hsrc (List.length_eq_zero_iff.mp h)
        by_cases hle : v.freeCount ≤ src.length
        · rw [writeChunks_cons_used m vs hsrc hle, readChunks_cons_used m' vs hlen hle, ih,
            List.length_drop]
          rfl
        · rw [writeChunks_cons_inside m vs hsrc (by omega),
            readChunks_cons_inside m' vs hlen (by omega)]
          rfl

/-! ### What the loop of `PutByte` writes -/

theorem write_apart (m : Bytes) {v w : RefMemoryChunk} (src : List UInt8) (hv : v.pos ≤ v.count)
    (h : Apart v w) : w.bytes (v.write m src).1 = w.bytes m := by
  refine bytes_write_apart m _ h (Nat.le_add_right _ _) ?_
  rw [List.length_take, moved_eq_min]
  have hfree : v.freeCount = v.count - v.pos := rfl
  omega

theorem writeChunks_apart (m : Bytes) (src : List UInt8) {vs : List RefMemoryChunk}
    (hcur : AtCursor vs) {w : RefMemoryChunk} (h : ∀ v ∈ vs, Apart v w) :
    w.bytes (writeChunks m src vs).1 = w.bytes m := by
  induction vs generalizing m src with
  | nil => rfl
  | cons v vs ih =>
      have hone := write_apart m src hcur.1 (h v List.mem_cons_self)
      by_cases hsrc : src = []
      · rw [hsrc, writeChunks_nil]
      · by_cases hle : v.freeCount ≤ src.length
        · rw [writeChunks_cons_used m vs hsrc hle]
          exact (ih _ _ (AtCursor.of_fresh hcur.2) fun u hu => h u (List.mem_cons_of_mem v hu)).trans
            hone
        · rw [writeChunks_cons_inside m vs hsrc (by omega)]
          exact hone

/-- Views that do not overlap are written to as one array. -/
theorem writeChunks_bytes (m : Bytes) (src : List UInt8) {vs : List RefMemoryChunk}
    (hcur : AtCursor vs) (hapart : vs.Pairwise Apart) (hlen : src.length ≤ (unreadOf m vs).length) :
    bytesOf (writeChunks m src vs).1 vs =
      front m vs ++ src ++ (unreadOf m vs).drop src.length := by
  induction vs generalizing m src with
  | nil =>
      obtain rfl : src = [] := List.length_eq_zero_iff.mp (Nat.le_zero.mp hlen)
      rfl
  | cons v vs ih =>
      obtain ⟨hv, hvs⟩ := List.pairwise_cons.mp hapart
      by_cases hsrc : src = []
      · subst hsrc
        rw [writeChunks_nil, List.append_nil, List.length_nil, List.drop_zero]
        exact bytesOf_eq_front_append m hcur
      · have hfree : (v.unread m).length = v.freeCount := length_unread m v
        have hbytes : v.bytes (v.write m src).1 =
            (v.bytes m).take v.pos ++ src.take v.freeCount ++ (v.unread m).drop src.length :=
          bytes_write m src hcur.1
        have hother : bytesOf (v.write m src).1 vs = bytesOf m vs :=
          bytesOf_congr fun w hw => write_apart m src hcur.1 (hv w hw)
        have hunread : unreadOf m vs = bytesOf m vs := unreadOf_of_fresh m hcur.2
        by_cases hle : v.freeCount ≤ src.length
        · -- `v` is filled up, and the rest goes to the later chunks.
          rw [unreadOf_cons, List.length_append] at hlen
          have hcurs := AtCursor.of_fresh hcur.2
          have hroom : (src.drop v.freeCount).length ≤ (unreadOf (v.write m src).1 vs).length := by
            rw [unreadOf_of_fresh _ hcur.2, hother, ← hunread, List.length_drop]
            omega
          have hnone : (v.unread m).drop src.length = [] := List.drop_eq_nil_of_le (by omega)
          have hrest := ih (v.write m src).1 (src.drop v.freeCount) hcurs hvs hroom
          rw [front_of_fresh _ hcur.2, unreadOf_of_fresh _ hcur.2, hother, List.nil_append,
            List.length_drop] at hrest
          have hfirst := writeChunks_apart (v.write m src).1 (src.drop v.freeCount) hcurs
            fun w hw => (hv w hw).symm
          rw [hbytes, hnone, List.append_nil] at hfirst
          rw [writeChunks_cons_used m vs hsrc hle, bytesOf_cons, hrest, hfirst, front,
            unreadOf_cons, List.drop_append, hnone, hfree, List.nil_append, hunread,
            ← List.append_assoc, List.append_assoc _ (src.take v.freeCount),
            List.take_append_drop]
        · have hall : src.take v.freeCount = src := List.take_of_length_le (by omega)
          rw [writeChunks_cons_inside m vs hsrc (by omega), bytesOf_cons, hbytes, hother, hall,
            front, unreadOf_cons, List.drop_append_of_le_length (by omega), hunread,
            List.append_assoc _ _ (bytesOf m vs)]

/-! ### The operations keep the invariant -/

theorem total_of_region_eq {vs ws : List RefMemoryChunk} (h : vs.map region = ws.map region) :
    total vs = total ws := by
  have hmap := congrArg (List.map fun r : Nat × Nat × Nat => r.2.2) h
  rw [List.map_map, List.map_map] at hmap
  exact congrArg List.sum hmap

theorem nonempty_of_region_eq {vs ws : List RefMemoryChunk} (h : vs.map region = ws.map region)
    (hne : ∀ w ∈ ws, 0 < w.count) : ∀ v ∈ vs, 0 < v.count := by
  intro v hv
  have hmem : v.region ∈ ws.map region := by
    rw [← h]
    exact List.mem_map_of_mem hv
  obtain ⟨w, hw, heq⟩ := List.mem_map.mp hmem
  have hcount : w.count = v.count := congrArg (fun r : Nat × Nat × Nat => r.2.2) heq
  rw [← hcount]
  exact hne w hw

theorem apart_of_region_eq {vs ws : List RefMemoryChunk} (h : vs.map region = ws.map region)
    (hapart : ws.Pairwise Apart) : vs.Pairwise Apart := by
  let R : Nat × Nat × Nat → Nat × Nat × Nat → Prop :=
    fun r t => r.1 ≠ t.1 ∨ r.2.1 + r.2.2 ≤ t.2.1 ∨ t.2.1 + t.2.2 ≤ r.2.1
  have hws : (ws.map region).Pairwise R := List.pairwise_map.mpr hapart
  rw [← h, List.pairwise_map] at hws
  exact hws

/-- The chunks behind those that have been passed get other cursors: what a loop does. -/
theorem Placed.moved {pk : Packet} (h : Placed pk) {vs : List RefMemoryChunk} {y n size : Nat}
    (hmoved : Moved vs y (((pk.data.drop pk.posY).map RefMemoryChunk.pos).sum + n))
    (hy : y ≤ vs.length) (hregion : vs.map region = (pk.data.drop pk.posY).map region)
    (hpos : pk.pos + n ≤ size) (hsize : size ≤ pk.capacity) :
    Placed ⟨pk.data.take pk.posY ++ vs, size, pk.pos + n, pk.posY + y, pk.capacity⟩ ∧
      (pk.data.take pk.posY ++ vs).map region = pk.data.map region := by
  have hlen : (pk.data.take pk.posY).length = pk.posY := List.length_take_of_le h.posY_le
  have hregions : (pk.data.take pk.posY ++ vs).map region = pk.data.map region := by
    rw [List.map_append, hregion, ← List.map_append, List.take_append_drop]
  have htake : (pk.data.take pk.posY ++ vs).take (pk.posY + y) =
      pk.data.take pk.posY ++ vs.take y := by
    rw [List.take_append, hlen, Nat.add_sub_cancel_left, List.take_of_length_le (by omega)]
  have hdrop : (pk.data.take pk.posY ++ vs).drop (pk.posY + y) = vs.drop y := by
    rw [List.drop_append, hlen, Nat.add_sub_cancel_left, List.drop_eq_nil_of_le (by omega),
      List.nil_append]
  refine ⟨⟨?_, ?_, ?_, ?_, ?_, hpos, hsize⟩, hregions⟩
  · intro v hv
    simp only [htake] at hv
    rcases List.mem_append.mp hv with hv | hv
    · exact h.before v hv
    · exact hmoved.before v hv
  · simp only [hdrop]
    exact hmoved.cursor
  · show pk.posY + y ≤ (pk.data.take pk.posY ++ vs).length
    rw [List.length_append, hlen]
    omega
  · show ((pk.data.take pk.posY ++ vs).map RefMemoryChunk.pos).sum = _
    rw [List.map_append, List.sum_append, hmoved.sum, ← Nat.add_assoc, ← List.sum_append,
      ← List.map_append, List.take_append_drop, h.sum]
  · show pk.capacity = total (pk.data.take pk.posY ++ vs)
    rw [total_of_region_eq hregions]
    exact h.capacity

/-- `SkipTo` on a packet of non-empty views, wherever their cursors are. -/
theorem placed_skipTo {pk : Packet} (hcap : pk.capacity = total pk.data)
    (hsize : pk.size ≤ pk.capacity) (hne : ∀ v ∈ pk.data, 0 < v.count) (m : Bytes) {pos : Nat}
    (hpos : pos ≤ pk.capacity) :
    ∃ pk', pk.skipTo pos = .ok pk' ∧ Placed pk' ∧ pk'.data.map region = pk.data.map region ∧
      pk'.size = max pk.size pos ∧ pk'.pos = pos ∧ pk'.capacity = pk.capacity := by
  have hle : pos ≤ total pk.data := by omega
  obtain ⟨-, hy, hregion⟩ := skipChunks_spec m pk.data pos hle
  have hmoved := skipChunks_moved hne hle
  rcases hr : Packet.skipChunks pos pk.data with ⟨r, y⟩
  rw [hr] at hy hregion hmoved
  have hmax := updateSize_eq { pk with pos := pos }
  refine ⟨⟨r, max pk.size pos, pos, y, pk.capacity⟩, ?_,
    ⟨hmoved.before, hmoved.cursor, hy, hmoved.sum, ?_, Nat.le_max_right _ _, ?_⟩, hregion, rfl,
    rfl, rfl⟩
  · simp only [Packet.skipTo, if_pos hpos, hr, hmax]
  · exact hcap.trans (total_of_region_eq hregion).symm
  · exact Nat.max_le.mpr ⟨hsize, hpos⟩

theorem Placed.skipTo {pk : Packet} (h : Placed pk) (hne : ∀ v ∈ pk.data, 0 < v.count)
    (m : Bytes) {pos : Nat} (hpos : pos ≤ pk.capacity) :
    ∃ pk', pk.skipTo pos = .ok pk' ∧ Placed pk' ∧ pk'.data.map region = pk.data.map region ∧
      pk'.size = max pk.size pos ∧ pk'.pos = pos ∧ pk'.capacity = pk.capacity :=
  placed_skipTo h.capacity h.size_le hne m hpos

/-- `GetByte` where there are enough bytes. -/
theorem Placed.getByte {pk : Packet} (h : Placed pk) (hne : ∀ v ∈ pk.data, 0 < v.count)
    (m : Bytes) (hlt : pk.size < 2 ^ 32) {count : Nat} (hcount : pk.pos + count ≤ pk.size) :
    ∃ pk', PacketIn.getByte m count pk =
        .ok (((bytesOf m pk.data).drop pk.pos).take count, pk') ∧ Placed pk' ∧
      pk'.data.map region = pk.data.map region ∧ pk'.size = pk.size ∧ pk'.pos = pk.pos + count ∧
      pk'.capacity = pk.capacity := by
  have hle := h.size_le
  have hcap := h.capacity
  have hunread := (h.split m).2
  have hu : u32 (pk.pos + count) = pk.pos + count := Nat.mod_eq_of_lt (by omega)
  have hroom : count ≤ (unreadOf m (pk.data.drop pk.posY)).length := by
    rw [hunread, List.length_drop, length_bytesOf]
    omega
  have hrest : ∀ v ∈ pk.data.drop pk.posY, 0 < v.count :=
    fun v hv => hne v (List.mem_of_mem_drop hv)
  obtain ⟨hread, -, hy, hregion⟩ := readChunks_spec m _ count hroom
  have hmoved := readChunks_moved m hrest h.cursor hroom
  rcases hr : readChunks m count (pk.data.drop pk.posY) with ⟨bs, vs, y⟩
  rw [hr] at hread hy hregion hmoved
  obtain ⟨hplaced, hregions⟩ := h.moved hmoved hy hregion hcount hle
  refine ⟨_, ?_, hplaced, hregions, rfl, rfl, rfl⟩
  simp only [PacketIn.getByte, hu, if_neg (not_lt.mpr hcount), hr]
  rw [show bs = _ from hread, hunread]

namespace PacketOut

/-- The invariant of a packet. -/
structure Good (o : Out) : Prop where
  placed : Placed o.packet
  nonempty : ∀ v ∈ o.packet.data, 0 < v.count
  size_lt : o.packet.size < 2 ^ 31
  capacity_lt : o.packet.capacity < 2 ^ 32

/-- The same without a bound on the size. -/
structure Sound (o : Out) : Prop where
  placed : Placed o.packet
  nonempty : ∀ v ∈ o.packet.data, 0 < v.count
  capacity_lt : o.packet.capacity < 2 ^ 32

/-- What is written to: views that do not overlap, and a pool that does not give them out again. -/
structure Separate (o : Out) : Prop where
  inv : o.pool.Inv o.packet.data
  apart : o.packet.data.Pairwise Apart
  chunksize : 0 < o.pool.chunksize

section

variable {o : Out}

theorem Good.sound (h : Good o) : Sound o := ⟨h.placed, h.nonempty, h.capacity_lt⟩

theorem Sound.good (h : Sound o) (hlt : o.packet.size < 2 ^ 31) : Good o :=
  ⟨h.placed, h.nonempty, hlt, h.capacity_lt⟩

theorem Sound.length_bytes (h : Sound o) : (flat o).bytes.length = o.packet.capacity := by
  rw [h.placed.capacity]
  exact length_bytesOf _ _

theorem sound_empty (pool : MemoryPool) : Sound ⟨pool, Packet.empty⟩ := by
  refine ⟨⟨?_, trivial, Nat.le_refl _, rfl, rfl, Nat.le_refl _, Nat.le_refl _⟩, ?_,
    Nat.two_pow_pos 32⟩
  · exact fun v hv => absurd hv List.not_mem_nil
  · exact fun v hv => absurd hv List.not_mem_nil

theorem Separate.of_region_eq (h : Separate o) {pk : Packet} {m : Bytes}
    (hregion : pk.data.map region = o.packet.data.map region) :
    Separate ⟨{ o.pool with mem := m }, pk⟩ where
  inv := (MemoryPool.Inv.of_region_eq hregion h.inv).of_mem m
  apart := apart_of_region_eq hregion h.apart
  chunksize := h.chunksize

/-- `SkipTo`. -/
theorem Sound.skipTo (h : Sound o) {pos : Nat} (hpos : pos ≤ o.packet.capacity) :
    ∃ o', PacketOut.skipTo pos o = .ok ((), o') ∧ Sound o' ∧
      flat o' = (flat o).skipTo pos ∧ o'.pool = o.pool ∧
      o'.packet.data.map region = o.packet.data.map region := by
  obtain ⟨pk, hop, hplaced, hregion, hsize, hat, hcap⟩ :=
    h.placed.skipTo h.nonempty o.pool.mem hpos
  refine ⟨⟨o.pool, pk⟩, ?_, ⟨hplaced, nonempty_of_region_eq hregion h.nonempty, ?_⟩, ?_, rfl,
    hregion⟩
  · simp only [PacketOut.skipTo, hop, bind, Except.bind, pure, Except.pure]
  · rw [hcap]
    exact h.capacity_lt
  · simp only [flat, FlatPacket.skipTo, bytesOf_of_region_eq _ hregion, hsize, hat]

/-- `GetByte` where there are enough bytes. -/
theorem Sound.getByte (h : Sound o) {count : Nat} (hcount : o.packet.pos + count ≤ o.packet.size) :
    ∃ pk, PacketIn.getByte o.pool.mem count o.packet =
        .ok (((flat o).bytes.drop (flat o).pos).take count, pk) ∧
      Sound { o with packet := pk } ∧
      flat { o with packet := pk } = { flat o with pos := o.packet.pos + count } ∧
      pk.data.map region = o.packet.data.map region := by
  have hlt := Nat.lt_of_le_of_lt h.placed.size_le h.capacity_lt
  obtain ⟨pk, hop, hplaced, hregion, hsize, hat, hcap⟩ :=
    h.placed.getByte h.nonempty o.pool.mem hlt hcount
  refine ⟨pk, hop, ⟨hplaced, nonempty_of_region_eq hregion h.nonempty, ?_⟩, ?_, hregion⟩
  · rw [hcap]
    exact h.capacity_lt
  · simp only [flat, bytesOf_of_region_eq _ hregion, hsize, hat]

/-- `AquireMemory`: bytes behind those there are. -/
theorem Sound.aquire (h : Sound o) (hs : Separate o) {need : Nat}
    (hfit : o.packet.capacity +
      o.pool.calculateChunkCount (u32 (need + 10)) * o.pool.chunksize < 2 ^ 32) :
    ∃ extra, Sound (aquireMemory o need) ∧ Separate (aquireMemory o need) ∧
      flat (aquireMemory o need) = { flat o with bytes := (flat o).bytes ++ extra } ∧
      extra.length = o.pool.calculateChunkCount (u32 (need + 10)) * o.pool.chunksize := by
  generalize hneed : u32 (need + 10) = k at hfit ⊢
  have haq := MemoryPool.aquire_spec (o.pool.calculateChunkCount k) hs.inv
  rcases hr : MemoryPool.aquire (o.pool.calculateChunkCount k) o.pool with ⟨vs, q⟩
  rw [hr] at haq
  have htotal : total vs = o.pool.calculateChunkCount k * o.pool.chunksize ∧
      ∀ v ∈ vs, 0 < v.count := by
    by_cases hzero : o.pool.calculateChunkCount k = 0
    · have hnil : vs = [] := List.length_eq_zero_iff.mp (haq.length.trans hzero)
      rw [hnil, hzero, Nat.zero_mul]
      exact ⟨rfl, fun v hv => absurd hv List.not_mem_nil⟩
    · have hle : o.pool.chunksize ≤ o.pool.calculateChunkCount k * o.pool.chunksize :=
        Nat.le_mul_of_pos_left _ (Nat.pos_of_ne_zero hzero)
      have hlength : o.pool.chunkLength = o.pool.chunksize :=
        MemoryPool.chunkLength_of_lt (by omega)
      refine ⟨by rw [haq.total, hlength], ?_⟩
      intro v hv
      rw [(haq.whole v hv).2.2, hlength]
      exact hs.chunksize
  have hcap := h.placed.capacity
  have hu : u32 (total (o.packet.data ++ vs)) = total (o.packet.data ++ vs) :=
    Nat.mod_eq_of_lt (by rw [total_append, htotal.1]; omega)
  have hgrown : aquireMemory o need = ⟨q, { o.packet with
      data := o.packet.data ++ vs, capacity := total (o.packet.data ++ vs) }⟩ := by
    simp only [aquireMemory, MemoryPool.aquireByByteNeed, hneed, hr, Packet.updateCapacity, hu]
  have hfresh : ∀ v ∈ vs, v.pos = 0 := fun v hv => (haq.whole v hv).2.1
  have htake : (o.packet.data ++ vs).take o.packet.posY = o.packet.data.take o.packet.posY :=
    List.take_append_of_le_length h.placed.posY_le
  have hdrop : (o.packet.data ++ vs).drop o.packet.posY = o.packet.data.drop o.packet.posY ++ vs :=
    List.drop_append_of_le_length h.placed.posY_le
  have hne : ∀ v ∈ o.packet.data ++ vs, 0 < v.count := by
    intro v hv
    rcases List.mem_append.mp hv with hv | hv
    · exact h.nonempty v hv
    · exact htotal.2 v hv
  rw [hgrown]
  refine ⟨bytesOf o.pool.mem vs, ⟨⟨?_, ?_, ?_, ?_, rfl, h.placed.pos_le, ?_⟩, hne, ?_⟩,
    ⟨haq.inv.perm List.perm_append_comm, ?_, ?_⟩, ?_, ?_⟩
  · simp only [htake]
    exact h.placed.before
  · simp only [hdrop]
    rcases hrest : o.packet.data.drop o.packet.posY with _ | ⟨v, rest⟩
    · exact Open.of_fresh hfresh htotal.2
    · have hopen := h.placed.cursor
      rw [hrest] at hopen
      refine ⟨hopen.1, fun w hw => ?_⟩
      rcases List.mem_append.mp hw with hw | hw
      · exact hopen.2 w hw
      · exact hfresh w hw
  · show o.packet.posY ≤ (o.packet.data ++ vs).length
    rw [List.length_append]
    exact Nat.le_trans h.placed.posY_le (Nat.le_add_right _ _)
  · show ((o.packet.data ++ vs).map RefMemoryChunk.pos).sum = o.packet.pos
    rw [List.map_append, List.sum_append, sum_pos_of_fresh hfresh, h.placed.sum, Nat.add_zero]
  · show o.packet.size ≤ total (o.packet.data ++ vs)
    rw [total_append, ← hcap]
    exact Nat.le_trans h.placed.size_le (Nat.le_add_right _ _)
  · show total (o.packet.data ++ vs) < 2 ^ 32
    rw [total_append, ← hcap, htotal.1]
    exact hfit
  · refine List.pairwise_append.mpr ⟨hs.apart, ?_, ?_⟩
    · exact (List.pairwise_map.mp haq.distinct).imp fun hne => Or.inl hne
    · exact fun v hv w hw => Or.inl (Ne.symm (haq.fresh w hw v hv))
  · show 0 < q.chunksize
    rw [haq.chunksize]
    exact hs.chunksize
  · have hmem : q.mem = o.pool.mem := haq.mem
    simp only [flat, hmem, bytesOf_append]
  · rw [length_bytesOf, htotal.1]

/-- The sums of `PutByte` stay below `2 ^ 32`, those of a growth step among them. -/
structure Room (o : Out) (src : List UInt8) : Prop where
  count : src.length + 10 < 2 ^ 32
  pos : o.packet.pos + src.length < 2 ^ 32
  grown : o.packet.capacity < o.packet.pos + src.length → o.packet.capacity +
    o.pool.calculateChunkCount (src.length + 10) * o.pool.chunksize < 2 ^ 32

theorem Allowed.room {src : List UInt8} (h : Allowed o (.putByte src)) : Room o src := by
  obtain ⟨hlen, hlt, hroom⟩ := h
  exact ⟨by omega, by omega, hroom⟩

/-- How many bytes `PutByte` acquires for `count` bytes. -/
def grown (o : Out) (count : Nat) : Nat :=
  if o.packet.capacity < o.packet.pos + count then
    o.pool.calculateChunkCount (count + 10) * o.pool.chunksize
  else 0

/-- The growth loop ends after at most one round. -/
theorem Sound.grow (h : Sound o) (hs : Separate o) {src : List UInt8} (ha : Room o src) :
    ∃ o' extra, PacketOut.grow (2 ^ 32) src.length o = .ok o' ∧
      Sound o' ∧ Separate o' ∧ flat o' = { flat o with bytes := (flat o).bytes ++ extra } ∧
      extra.length = grown o src.length ∧ o.packet.pos + src.length ≤ o'.packet.capacity := by
  have hu : u32 (o.packet.pos + src.length) = o.packet.pos + src.length :=
    Nat.mod_eq_of_lt ha.pos
  have hu' : u32 (src.length + 10) = src.length + 10 := Nat.mod_eq_of_lt ha.count
  rw [show 2 ^ 32 = 4294967294 + 1 + 1 from rfl]
  by_cases hgrow : o.packet.capacity < o.packet.pos + src.length
  · have hfit := ha.grown hgrow
    rw [← hu'] at hfit
    obtain ⟨extra, hsound, hsep, hflat, hextra⟩ := h.aquire hs hfit
    have hlow := o.pool.le_calculateChunkCount_mul (src.length + 10) hs.chunksize
    rw [hu'] at hextra
    have hpos : (aquireMemory o src.length).packet.pos = o.packet.pos :=
      congrArg FlatPacket.pos hflat
    have hcap : (aquireMemory o src.length).packet.capacity =
        o.packet.capacity + extra.length := by
      rw [← hsound.length_bytes, hflat, List.length_append, h.length_bytes]
    have hle := Nat.le_trans h.placed.pos_le h.placed.size_le
    have hfits : o.packet.pos + src.length ≤ (aquireMemory o src.length).packet.capacity := by
      omega
    refine ⟨_, extra, ?_, hsound, hsep, hflat, by rw [hextra, grown, if_pos hgrow], hfits⟩
    rw [PacketOut.grow, hu, if_pos hgrow, PacketOut.grow, hpos, hu, if_neg (not_lt.mpr hfits)]
  · refine ⟨o, [], ?_, h, hs, ?_, by rw [grown, if_neg hgrow]; rfl, not_lt.mp hgrow⟩
    · rw [PacketOut.grow, hu, if_neg hgrow]
    · rw [List.append_nil]

/-- `PutByte` where the packet has the room. -/
theorem Sound.write (h : Sound o) (happart : o.packet.data.Pairwise Apart) {src : List UInt8}
    (hroom : o.packet.pos + src.length ≤ o.packet.capacity) :
    let r := writeChunks o.pool.mem src (o.packet.data.drop o.packet.posY)
    let o' : Out := ⟨{ o.pool with mem := r.1 },
      ⟨o.packet.data.take o.packet.posY ++ r.2.1, max o.packet.size (o.packet.pos + src.length),
        o.packet.pos + src.length, o.packet.posY + r.2.2, o.packet.capacity⟩⟩
    Sound o' ∧ o'.packet.data.map region = o.packet.data.map region ∧
      flat o' = (flat o).put [] src := by
  have hbytes := h.length_bytes
  obtain ⟨hfront, hunread⟩ := h.placed.split o.pool.mem
  have hfit : src.length ≤ (unreadOf o.pool.mem (o.packet.data.drop o.packet.posY)).length := by
    rw [hunread, List.length_drop]
    simp only [flat] at hbytes
    omega
  have hne : ∀ v ∈ o.packet.data.drop o.packet.posY, 0 < v.count :=
    fun v hv => h.nonempty v (List.mem_of_mem_drop hv)
  -- The cursors move as they do for `GetByte`.
  obtain ⟨-, -, hy, hregion⟩ := readChunks_spec o.pool.mem _ src.length hfit
  have hmoved := readChunks_moved o.pool.mem hne h.placed.cursor hfit
  have hcursors := writeChunks_cursors o.pool.mem o.pool.mem src
    (o.packet.data.drop o.packet.posY)
  rw [← hcursors] at hy hregion hmoved
  rw [← List.take_append_drop o.packet.posY o.packet.data, List.pairwise_append] at happart
  obtain ⟨-, hbehind, hcross⟩ := happart
  have hwritten := writeChunks_bytes o.pool.mem src h.placed.cursor.atCursor hbehind hfit
  have hbefore : bytesOf (writeChunks o.pool.mem src (o.packet.data.drop o.packet.posY)).1
      (o.packet.data.take o.packet.posY) = bytesOf o.pool.mem (o.packet.data.take o.packet.posY) :=
    bytesOf_congr fun v hv => writeChunks_apart o.pool.mem src h.placed.cursor.atCursor
      fun w hw => (hcross v hv w hw).symm
  obtain ⟨hplaced, hregions⟩ := h.placed.moved hmoved hy hregion
    (Nat.le_max_right o.packet.size _) (Nat.max_le.mpr ⟨h.placed.size_le, hroom⟩)
  refine ⟨⟨hplaced, nonempty_of_region_eq hregions h.nonempty, h.capacity_lt⟩, hregions, ?_⟩
  simp only [flat, FlatPacket.put, FlatPacket.mk.injEq, and_true, List.append_nil]
  rw [bytesOf_append, hbefore, bytesOf_of_region_eq _ hregion, hwritten, hunread,
    List.drop_drop, ← List.append_assoc, ← List.append_assoc, hfront]

theorem Sound.putByte (h : Sound o) (hs : Separate o) {src : List UInt8} (ha : Room o src) :
    ∃ o' extra, PacketOut.putByte src o = .ok ((), o') ∧ Sound o' ∧ Separate o' ∧
      extra.length = grown o src.length ∧ flat o' = (flat o).put extra src := by
  obtain ⟨o1, extra, hgrow, hsound, hsep, hflat, hextra, hroom⟩ := h.grow hs ha
  have hpos : o1.packet.pos = o.packet.pos := congrArg FlatPacket.pos hflat
  have hlt := ha.pos
  have hu : u32 (o1.packet.pos + src.length) = o1.packet.pos + src.length :=
    Nat.mod_eq_of_lt (by omega)
  have hfits : o1.packet.pos + src.length ≤ o1.packet.capacity := by omega
  obtain ⟨hsound', hregions, hflat'⟩ := hsound.write hsep.apart hfits
  have hmax := updateSize_eq { o1.packet with pos := o1.packet.pos + src.length }
  refine ⟨_, extra, ?_, hsound', hsep.of_region_eq hregions, hextra, ?_⟩
  · simp only [PacketOut.putByte, hgrow, bind, Except.bind, hmax, hu, pure, Except.pure]
  · rw [hflat', hflat]
    simp only [FlatPacket.put, List.append_nil]

/-- **One step**: the invariant is kept, and the operation acts on the array. -/
theorem Good.step (h : Good o) {op : PacketOp} (hs : ∀ src, op = .putByte src → Separate o)
    (ha : Allowed o op) : Good (PacketOut.step o op) ∧
      (Separate o → Separate (PacketOut.step o op)) ∧ Acts o op := by
  cases op with
  | skipTo pos =>
      obtain ⟨o', hop, hsound, hflat, hpool, hregion⟩ := h.sound.skipTo ha.1
      have hsize : o'.packet.size = max o.packet.size pos := congrArg FlatPacket.size hflat
      have hgood := hsound.good (hsize ▸ Nat.max_lt.mpr ⟨h.size_lt, ha.2⟩)
      have hperform : perform o (.skipTo pos) = (.done, o') := by simp only [perform, hop]
      have hstep : PacketOut.step o (.skipTo pos) = o' := congrArg Prod.snd hperform
      rw [hstep, Acts, hstep, hperform]
      refine ⟨hgood, fun hsep => ?_, rfl, hflat⟩
      have hsep' := hsep.of_region_eq (m := o.pool.mem) hregion
      rw [show o' = ⟨o'.pool, o'.packet⟩ from rfl, hpool]
      exact hsep'
  | putByte src =>
      obtain ⟨o', extra, hop, hsound, hsep, hextra, hflat⟩ := h.sound.putByte (hs src rfl) ha.room
      have hsize : o'.packet.size = max o.packet.size (o.packet.pos + src.length) :=
        congrArg FlatPacket.size hflat
      have hgood := hsound.good (hsize ▸ Nat.max_lt.mpr ⟨h.size_lt, ha.2.1⟩)
      have hperform : perform o (.putByte src) = (.done, o') := by simp only [perform, hop]
      have hstep : PacketOut.step o (.putByte src) = o' := congrArg Prod.snd hperform
      rw [hstep, Acts, hstep, hperform, h.sound.length_bytes]
      refine ⟨hgood, fun _ => hsep, rfl, extra, fun hle => ?_, hflat⟩
      have hroom : ¬ o.packet.capacity < o.packet.pos + src.length := not_lt.mpr hle
      rw [grown, if_neg hroom] at hextra
      exact List.length_eq_zero_iff.mp hextra
  | getByte count =>
      by_cases hcount : o.packet.size < o.packet.pos + count
      · have hpos := h.placed.pos_le
        have hsize := h.size_lt
        have hlt : count < 65536 := ha
        have hu : u32 (o.packet.pos + count) = o.packet.pos + count := Nat.mod_eq_of_lt (by omega)
        have hperform : perform o (.getByte count) = (.fault .noMoreData, o) := by
          simp only [perform, PacketIn.getByte, hu, if_pos hcount]
        have hstep : PacketOut.step o (.getByte count) = o := congrArg Prod.snd hperform
        rw [hstep, Acts, hstep, hperform, show (flat o).get count = none from if_pos hcount]
        exact ⟨h, id, rfl, rfl⟩
      · obtain ⟨pk, hop, hsound, hflat, hregion⟩ := h.sound.getByte (not_lt.mp hcount)
        have hsize : pk.size = o.packet.size := congrArg FlatPacket.size hflat
        have hgood := hsound.good (show pk.size < 2 ^ 31 from hsize ▸ h.size_lt)
        have hperform : perform o (.getByte count) =
            (.bytes (((flat o).bytes.drop (flat o).pos).take count), { o with packet := pk }) := by
          simp only [perform, hop]
        have hstep : PacketOut.step o (.getByte count) = { o with packet := pk } :=
          congrArg Prod.snd hperform
        have hget : (flat o).get count = some (((flat o).bytes.drop (flat o).pos).take count,
            { flat o with pos := o.packet.pos + count }) := if_neg hcount
        rw [hstep, Acts, hstep, hperform, hget]
        exact ⟨hgood, fun hsep => hsep.of_region_eq hregion, rfl, hflat⟩
  | fetchData =>
      refine ⟨h, id, _, rfl, ?_, rfl⟩
      exact bytesOf_fetchChunks o.pool.mem o.packet.data o.packet.size

/-! ### Runs -/

/-- How a packet comes about; the flag says whether it may be written to. -/
inductive Started : Bool → Out → Prop
  /-- `PacketInBase(data)`. -/
  | received {data : List RefMemoryChunk} {pk : Packet} (pool : MemoryPool)
      (nonempty : ∀ v ∈ data, 0 < v.count) (size : total data < 2 ^ 31)
      (make : PacketIn.make data = .ok pk) : Started false ⟨pool, pk⟩
  /-- The same with views that do not overlap, as if it were written to. -/
  | apart {o : Out} (h : Started false o) (separate : Separate o) : Started true o
  /-- `PacketOutBase(approx_size, mempool)`. -/
  | built {pool : MemoryPool} (approx : Nat) (inv : pool.Inv []) (chunksize : 0 < pool.chunksize)
      (size : pool.calculateChunkCount (u32 (approx + 10)) * pool.chunksize < 2 ^ 32) :
      Started true (aquireMemory ⟨pool, Packet.empty⟩ approx)

theorem Started.good {b : Bool} (h : Started b o) : Good o ∧ (b = true → Separate o) := by
  induction h with
  | received pool nonempty size make =>
      rename_i data pk
      refine ⟨?_, fun h => absurd h Bool.false_ne_true⟩
      have hu : u32 (total data) = total data := Nat.mod_eq_of_lt (by omega)
      have hmoved := skipChunks_moved nonempty (Nat.zero_le (total data))
      obtain ⟨-, hy, hregion⟩ := skipChunks_spec (fun _ _ => 0) data 0 (Nat.zero_le _)
      have hmake : pk = ⟨(Packet.skipChunks 0 data).1, total data, 0,
          (Packet.skipChunks 0 data).2, total data⟩ := by
        simpa [PacketIn.make, Packet.updateCapacity, Packet.skipTo, Packet.updateSize, hu,
          Packet.empty, eq_comm] using make
      rw [hmake]
      exact ⟨⟨hmoved.before, hmoved.cursor, hy, hmoved.sum, (total_of_region_eq hregion).symm,
        Nat.zero_le _, Nat.le_refl _⟩, nonempty_of_region_eq hregion nonempty, size, by
          show total data < 2 ^ 32
          omega⟩
  | apart h separate ih => exact ⟨ih.1, fun _ => separate⟩
  | built approx inv chunksize size =>
      rename_i pool
      have hsound := sound_empty pool
      have hfit : Packet.empty.capacity +
          pool.calculateChunkCount (u32 (approx + 10)) * pool.chunksize < 2 ^ 32 := by
        rw [show Packet.empty.capacity = 0 from rfl, Nat.zero_add]
        exact size
      obtain ⟨extra, hsound', hsep, hflat, -⟩ :=
        hsound.aquire ⟨inv, List.Pairwise.nil, chunksize⟩ hfit
      have hsize : (aquireMemory ⟨pool, Packet.empty⟩ approx).packet.size = 0 :=
        congrArg FlatPacket.size hflat
      exact ⟨hsound'.good (hsize ▸ Nat.two_pow_pos 31), fun _ => hsep⟩

/-- **After any run of operations the cursor is placed, and every operation has acted on one
    array of bytes.** -/
theorem flat_of_run {b : Bool} (hstart : Started b o) (ops : List PacketOp)
    (hputs : ∀ src, .putByte src ∈ ops → b = true) (hallowed : Along step Allowed o ops) :
    Along step Acts o ops ∧ Placed (run step o ops).packet := by
  obtain ⟨hgood, hsep⟩ := hstart.good
  have hsep' : ∀ src, .putByte src ∈ ops → Separate o := fun src hsrc => hsep (hputs src hsrc)
  clear hstart hputs hsep
  induction ops generalizing o with
  | nil => exact ⟨trivial, hgood.placed⟩
  | cons op ops ih =>
      obtain ⟨ha, hrest⟩ := hallowed
      obtain ⟨hstep, hkeeps, hacts⟩ :=
        hgood.step (fun src hsrc => hsep' src (hsrc ▸ List.mem_cons_self)) ha
      obtain ⟨halong, hplaced⟩ := ih hrest hstep fun src hsrc =>
        hkeeps (hsep' src (List.mem_cons_of_mem op hsrc))
      exact ⟨⟨hacts, halong⟩, hplaced⟩

/-- Ten bytes are put into chunks of eight, the last of them once more, and read. -/
def putTwice : List PacketOp :=
  [.putByte [0, 1, 2, 3, 4, 5, 6, 7, 8, 9], .skipTo 9, .putByte [7, 7], .skipTo 7, .getByte 4,
    .getByte 1, .fetchData]

theorem flat_of_run_putTwice :
    Along step Acts (aquireMemory ⟨MemoryPool.emptyPool 8, Packet.empty⟩ 0) putTwice ∧
      Placed (run step (aquireMemory ⟨MemoryPool.emptyPool 8, Packet.empty⟩ 0) putTwice).packet :=
  flat_of_run (.built 0 (MemoryPool.emptyPool_inv 8) (by decide) (by decide)) putTwice
    (fun _ _ => rfl) (by decide +kernel)

end

end PacketOut

end Jengine.Gateway
