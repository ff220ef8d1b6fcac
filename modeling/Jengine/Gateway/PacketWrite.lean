import Jengine.Gateway.PacketRead

/-!
# Writing a chunked packet is appending to a byte string

`Rep o ws` relates a packet under construction to the byte string `ws` before
its cursor: the chunks up to `pos_y_` and the written part of the chunk at
`pos_y_` hold `ws`, and every later chunk is untouched.  The chunks are
pairwise distinct, which is what the reference counts of the pool give, so a
write into one chunk cannot disturb another.  `Appends op xs` is the
specification of a writer: from a packet that represents `ws` it reaches one
that represents `ws ++ xs`, acquiring chunks on the way where it has to.
-/

namespace Jengine.Gateway

open Jengine.Lib Jengine.Memory RefMemoryChunk

/-! ### Chunk sequences with a cursor -/

/-- The bytes before the cursor of the first chunk. -/
def front (m : Bytes) : List RefMemoryChunk → List UInt8
  | [] => []
  | v :: _ => (v.bytes m).take v.pos

/-- Only the first chunk has been written to. -/
def AtCursor : List RefMemoryChunk → Prop
  | [] => True
  | v :: vs => v.pos ≤ v.count ∧ ∀ w ∈ vs, w.pos = 0

theorem AtCursor.of_fresh {vs : List RefMemoryChunk} (h : ∀ v ∈ vs, v.pos = 0) : AtCursor vs := by
  cases vs with
  | nil => trivial
  | cons v vs =>
      exact ⟨by rw [h v List.mem_cons_self]; exact Nat.zero_le _,
        fun w hw => h w (List.mem_cons_of_mem v hw)⟩

theorem front_of_fresh (m : Bytes) {vs : List RefMemoryChunk} (h : ∀ v ∈ vs, v.pos = 0) :
    front m vs = [] := by
  cases vs with
  | nil => rfl
  | cons v vs => simp [front, h v List.mem_cons_self]

theorem AtCursor.append_fresh {vs ws : List RefMemoryChunk} (h : AtCursor vs)
    (hw : ∀ w ∈ ws, w.pos = 0) : AtCursor (vs ++ ws) := by
  cases vs with
  | nil => exact AtCursor.of_fresh hw
  | cons v vs =>
      refine ⟨h.1, fun w hmem => ?_⟩
      rcases List.mem_append.mp hmem with hmem | hmem
      · exact h.2 w hmem
      · exact hw w hmem

theorem front_append_fresh (m : Bytes) (vs : List RefMemoryChunk) {ws : List RefMemoryChunk}
    (hw : ∀ w ∈ ws, w.pos = 0) : front m (vs ++ ws) = front m vs := by
  cases vs with
  | nil => exact front_of_fresh m hw
  | cons v vs => rfl

theorem unread_of_fresh (m : Bytes) {v : RefMemoryChunk} (h : v.pos = 0) :
    v.unread m = v.bytes m := by
  simp [unread, bytes, freeCount, h]

theorem unreadOf_of_fresh (m : Bytes) : ∀ {vs : List RefMemoryChunk}, (∀ v ∈ vs, v.pos = 0) →
    unreadOf m vs = bytesOf m vs := by
  intro vs
  induction vs with
  | nil => intro _; rfl
  | cons v vs ih =>
      intro h
      rw [unreadOf_cons, bytesOf_cons, unread_of_fresh m (h v List.mem_cons_self),
        ih fun w hw => h w (List.mem_cons_of_mem v hw)]

theorem bytes_eq_take_append_unread (m : Bytes) (v : RefMemoryChunk) (h : v.pos ≤ v.count) :
    v.bytes m = (v.bytes m).take v.pos ++ v.unread m := by
  have hunread : v.unread m = (v.bytes m).drop v.pos := unread_skipTo m v h
  rw [hunread, List.take_append_drop]

/-- The cursor splits the bytes of a chunk sequence. -/
theorem bytesOf_eq_front_append (m : Bytes) {vs : List RefMemoryChunk} (h : AtCursor vs) :
    bytesOf m vs = front m vs ++ unreadOf m vs := by
  cases vs with
  | nil => rfl
  | cons v vs =>
      rw [bytesOf_cons, unreadOf_cons, unreadOf_of_fresh m h.2, front, ← List.append_assoc,
        ← bytes_eq_take_append_unread m v h.1]

/-- Memories that agree on the chunks of a sequence give it the same bytes. -/
theorem bytes_congr_chunk {m m' : Bytes} {v : RefMemoryChunk}
    (h : ∀ i, m' v.chunk i = m v.chunk i) : v.bytes m' = v.bytes m :=
  Segments.read_congr fun i _ _ => h i

theorem unreadOf_congr_chunk {m m' : Bytes} {vs : List RefMemoryChunk}
    (h : ∀ v ∈ vs, ∀ i, m' v.chunk i = m v.chunk i) : unreadOf m' vs = unreadOf m vs := by
  simp only [unreadOf, List.flatMap_def]
  congr 1
  exact List.map_congr_left fun v hv => Segments.read_congr fun i _ _ => h v hv i

/-! ### The loop of `PutByte` -/

/-- The bytes of a chunk after `Write` at its cursor. -/
theorem bytes_write (m : Bytes) {v : RefMemoryChunk} (src : List UInt8) (h : v.pos ≤ v.count) :
    (v.write m src).2.bytes (v.write m src).1 =
      (v.bytes m).take v.pos ++ src.take v.freeCount ++ (v.unread m).drop src.length := by
  have hn : v.moved src.length = (src.take v.freeCount).length := by
    rw [moved_eq_min, List.length_take, Nat.min_comm]
  have htake : src.take (v.moved src.length) = src.take v.freeCount := by
    rw [moved_eq_min]
    rcases Nat.le_total src.length v.freeCount with hle | hle
    · rw [Nat.min_eq_left hle, List.take_length, List.take_of_length_le hle]
    · rw [Nat.min_eq_right hle]
  have hfree : v.freeCount = v.count - v.pos := rfl
  have hunread : v.unread m = (v.bytes m).drop v.pos := unread_skipTo m v h
  have hlen : (v.bytes m).length = v.count := length_bytes m v
  show (m.write v.chunk (v.data + v.pos) (src.take (v.moved src.length))).read v.chunk v.data
    v.count = _
  have hfit : v.pos + (src.take v.freeCount).length ≤ v.count := by
    rw [List.length_take]
    omega
  rw [htake, Segments.read_write_inside m v.chunk v.data v.count v.pos _ hfit]
  show (v.bytes m).take v.pos ++ src.take v.freeCount ++
    (v.bytes m).drop (v.pos + (src.take v.freeCount).length) = _
  congr 1
  rw [hunread, List.drop_drop, List.length_take]
  rcases Nat.le_total src.length v.freeCount with hle | hle
  · rw [Nat.min_eq_right hle]
  · rw [Nat.min_eq_left hle, List.drop_eq_nil_of_le (by omega), List.drop_eq_nil_of_le (by omega)]

theorem write_elsewhere (m : Bytes) (v : RefMemoryChunk) (src : List UInt8) {c : Nat}
    (h : c ≠ v.chunk) (i : Nat) : (v.write m src).1 c i = m c i :=
  Segments.write_other_segment m v.chunk _ _ h i

theorem freeCount_write (m : Bytes) (v : RefMemoryChunk) (src : List UInt8) :
    (v.write m src).2.freeCount = v.freeCount - src.length := by
  simp only [write, freeCount, moved_eq_min]
  omega

/-- What the loop of `PutByte` does to the chunks from `pos_y_` on. -/
structure Written (m : Bytes) (src : List UInt8) (vs : List RefMemoryChunk)
    (r : Bytes × List RefMemoryChunk × Nat) : Prop where
  written : bytesOf r.1 (r.2.1.take r.2.2) ++ front r.1 (r.2.1.drop r.2.2) = front m vs ++ src
  rest : unreadOf r.1 (r.2.1.drop r.2.2) = (unreadOf m vs).drop src.length
  cursor : AtCursor (r.2.1.drop r.2.2)
  posY_le : r.2.2 ≤ r.2.1.length
  regions : r.2.1.map region = vs.map region
  elsewhere : ∀ c, c ∉ vs.map chunk → ∀ i, r.1 c i = m c i

theorem writeChunks_nil (m : Bytes) (vs : List RefMemoryChunk) :
    writeChunks m [] vs = (m, vs, 0) := by
  cases vs <;> simp [writeChunks]

theorem writeChunks_cons_used (m : Bytes) {src : List UInt8} {v : RefMemoryChunk}
    (vs : List RefMemoryChunk) (hs : src ≠ []) (h : v.freeCount ≤ src.length) :
    writeChunks m src (v :: vs) =
      ((writeChunks (v.write m src).1 (src.drop v.freeCount) vs).1,
        (v.write m src).2 :: (writeChunks (v.write m src).1 (src.drop v.freeCount) vs).2.1,
        (writeChunks (v.write m src).1 (src.drop v.freeCount) vs).2.2 + 1) := by
  have hz : (v.write m src).2.freeCount = 0 := by rw [freeCount_write]; omega
  have hmoved : v.moved src.length = v.freeCount := by rw [moved_eq_min]; omega
  simp only [writeChunks, if_neg hs, if_pos hz, hmoved]

theorem writeChunks_cons_inside (m : Bytes) {src : List UInt8} {v : RefMemoryChunk}
    (vs : List RefMemoryChunk) (hs : src ≠ []) (h : src.length < v.freeCount) :
    writeChunks m src (v :: vs) = ((v.write m src).1, (v.write m src).2 :: vs, 0) := by
  have hz : (v.write m src).2.freeCount ≠ 0 := by rw [freeCount_write]; omega
  simp only [writeChunks, if_neg hs, if_neg hz]

theorem writeChunks_spec : ∀ (vs : List RefMemoryChunk) (m : Bytes) (src : List UInt8),
    AtCursor vs → (vs.map chunk).Nodup → src.length ≤ (unreadOf m vs).length →
    Written m src vs (writeChunks m src vs) := by
  intro vs
  induction vs with
  | nil =>
      intro m src _ _ h
      have hsrc : src = [] := List.length_eq_zero_iff.mp (by simpa using h)
      subst hsrc
      exact ⟨rfl, rfl, trivial, Nat.le_refl _, rfl, fun _ _ _ => rfl⟩
  | cons v vs ih =>
      intro m src hcur hnodup h
      by_cases hs : src = []
      · subst hs
        rw [writeChunks_nil]
        exact ⟨by simp, rfl, hcur, Nat.zero_le _, rfl, fun _ _ _ => rfl⟩
      simp only [List.map_cons, List.nodup_cons] at hnodup
      have hlen : (v.unread m).length = v.freeCount := length_unread m v
      have hbytes := bytes_write m src hcur.1
      -- the write into `v` is not seen through the later chunks
      have hother : ∀ w ∈ vs, ∀ i, (v.write m src).1 w.chunk i = m w.chunk i := by
        intro w hw i
        refine write_elsewhere m v src ?_ i
        intro heq
        exact hnodup.1 (List.mem_map.mpr ⟨w, hw, heq⟩)
      have hrest : unreadOf (v.write m src).1 vs = unreadOf m vs := unreadOf_congr_chunk hother
      by_cases hle : v.freeCount ≤ src.length
      · -- `v` is filled up, the rest of `src` goes to the later chunks
        simp only [unreadOf_cons, List.length_append] at h
        have hw := ih (v.write m src).1 (src.drop v.freeCount) (AtCursor.of_fresh hcur.2) hnodup.2
          (by rw [hrest, List.length_drop]; omega)
        rw [writeChunks_cons_used m vs hs hle]
        generalize writeChunks (v.write m src).1 (src.drop v.freeCount) vs = r at hw
        have hv : (v.write m src).2.bytes r.1 = (v.write m src).2.bytes (v.write m src).1 :=
          bytes_congr_chunk (hw.elsewhere _ hnodup.1)
        have hnone : (v.unread m).drop src.length = [] := List.drop_eq_nil_of_le (by omega)
        refine ⟨?_, ?_, hw.cursor, Nat.succ_le_succ hw.posY_le, ?_, ?_⟩
        · rw [List.take_succ_cons, List.drop_succ_cons, bytesOf_cons, List.append_assoc,
            hw.written, front_of_fresh _ hcur.2, hv, hbytes, hnone]
          simp [front]
        · rw [List.drop_succ_cons, hw.rest, hrest, unreadOf_cons, List.drop_append, hnone, hlen,
            List.nil_append, List.length_drop]
        · rw [List.map_cons, hw.regions, List.map_cons]
          rfl
        · intro c hc i
          simp only [List.map_cons, List.mem_cons, not_or] at hc
          rw [hw.elsewhere c hc.2 i, write_elsewhere m v src hc.1]
      · have hfree := freeCount_write m v src
        have hpos : (v.write m src).2.pos = v.pos + src.length := by
          simp only [write, moved_eq_min]
          omega
        have hcount : (v.write m src).2.count = v.count := rfl
        have hfc : v.freeCount = v.count - v.pos := rfl
        have hall : src.take v.freeCount = src := List.take_of_length_le (by omega)
        have hfront : ((v.bytes m).take v.pos).length = v.pos := by
          rw [List.length_take, length_bytes]
          exact Nat.min_eq_left hcur.1
        have hunread : (v.write m src).2.unread (v.write m src).1 = (v.unread m).drop src.length := by
          have hsplit := unread_skipTo (v.write m src).1 (v.write m src).2
            (k := (v.write m src).2.pos) (by omega)
          have hskip : (v.write m src).2.skipTo (v.write m src).2.pos = (v.write m src).2 := rfl
          rw [hskip] at hsplit
          rw [hsplit, hbytes, hall, hpos]
          exact List.drop_left' (by simp [hfront])
        rw [writeChunks_cons_inside m vs hs (by omega)]
        refine ⟨?_, ?_, ⟨by omega, hcur.2⟩, Nat.zero_le _, rfl, ?_⟩
        · rw [List.take_zero, List.drop_zero, bytesOf_nil, List.nil_append, front, hbytes, hall, hpos]
          rw [List.take_left' (by simp [hfront])]
          rfl
        · rw [List.drop_zero, unreadOf_cons, hunread, hrest, unreadOf_cons,
            List.drop_append_of_le_length (by omega)]
        · intro c hc i
          simp only [List.map_cons, List.mem_cons, not_or] at hc
          exact write_elsewhere m v src hc.1 i

theorem updateSize_eq (pk : Packet) : pk.updateSize = { pk with size := max pk.size pk.pos } := by
  unfold Packet.updateSize
  split
  · rw [Nat.max_eq_right (by omega)]
  · rw [Nat.max_eq_left (by omega)]

/-! ### The loop of `SkipTo`, seen by a writer -/

theorem skipChunks_zero_fresh {vs : List RefMemoryChunk} :
    ∀ w ∈ (Packet.skipChunks 0 vs).1, w.pos = 0 := by
  induction vs with
  | nil => intro w hw; simp [Packet.skipChunks] at hw
  | cons v vs ih =>
      intro w hw
      rw [skipChunks_cons_zero] at hw
      rcases List.mem_cons.mp hw with rfl | hw
      · rfl
      · exact ih w hw

/-- The loop of `SkipTo` puts the cursor behind the first `pos` bytes. -/
theorem skipChunks_written (m : Bytes) : ∀ (vs : List RefMemoryChunk) (pos : Nat),
    pos ≤ total vs →
    AtCursor ((Packet.skipChunks pos vs).1.drop (Packet.skipChunks pos vs).2) ∧
      bytesOf m ((Packet.skipChunks pos vs).1.take (Packet.skipChunks pos vs).2) ++
        front m ((Packet.skipChunks pos vs).1.drop (Packet.skipChunks pos vs).2) =
          (bytesOf m vs).take pos := by
  intro vs
  induction vs with
  | nil =>
      intro pos _
      simp [Packet.skipChunks, AtCursor, front]
  | cons v vs ih =>
      intro pos h
      have hlen : (v.bytes m).length = v.count := length_bytes m v
      by_cases hp : pos = 0
      · subst hp
        rw [skipChunks_cons_zero, skipChunks_zero]
        exact ⟨⟨Nat.zero_le _, skipChunks_zero_fresh⟩, by simp [front, skipTo]⟩
      · by_cases hlt : pos < v.count
        · rw [skipChunks_cons_inside vs hp hlt, skipChunks_zero]
          refine ⟨⟨Nat.le_of_lt hlt, skipChunks_zero_fresh⟩, ?_⟩
          rw [bytesOf_cons, List.take_append_of_le_length (by omega)]
          rfl
        · simp only [total_cons] at h
          obtain ⟨h1, h2⟩ := ih (pos - v.count) (by omega)
          rw [skipChunks_cons_beyond vs hp hlt]
          have hall : (v.bytes m).take pos = v.bytes m := List.take_of_length_le (by omega)
          refine ⟨h1, ?_⟩
          rw [List.take_succ_cons, List.drop_succ_cons, bytesOf_cons, List.append_assoc, h2,
            bytesOf_cons, List.take_append, hall, hlen]
          rfl

namespace PacketOut

/-! ### Packets under construction -/

/-- The bytes after the cursor, in chunks that are already acquired. -/
def unwritten (o : Out) : List UInt8 :=
  unreadOf o.pool.mem (o.packet.data.drop o.packet.posY)

/-- The bytes before the cursor are `ws`. -/
structure Rep (o : Out) (ws : List UInt8) : Prop where
  inv : o.pool.Inv o.packet.data
  distinct : (o.packet.data.map chunk).Nodup
  posY_le : o.packet.posY ≤ o.packet.data.length
  cursor : AtCursor (o.packet.data.drop o.packet.posY)
  written : bytesOf o.pool.mem (o.packet.data.take o.packet.posY) ++
    front o.pool.mem (o.packet.data.drop o.packet.posY) = ws
  pos : o.packet.pos = ws.length
  pos_le : o.packet.pos ≤ o.packet.size
  capacity : o.packet.capacity = total o.packet.data
  capacity_lt : o.packet.capacity < 2 ^ 32

theorem Rep.bytesOf_data {o : Out} {ws : List UInt8} (h : Rep o ws) :
    bytesOf o.pool.mem o.packet.data = ws ++ unwritten o := by
  rw [← h.written, unwritten, List.append_assoc, ← bytesOf_eq_front_append _ h.cursor,
    ← bytesOf_append, List.take_append_drop]

theorem Rep.capacity_eq {o : Out} {ws : List UInt8} (h : Rep o ws) :
    o.packet.capacity = ws.length + (unwritten o).length := by
  rw [h.capacity, ← length_bytesOf o.pool.mem, h.bytesOf_data, List.length_append]

/-- `SkipTo` on a packet under construction. -/
theorem skipTo_spec {o : Out} {ws : List UInt8} (h : Rep o ws) {pos : Nat}
    (hpos : pos ≤ o.packet.capacity) :
    ∃ o', skipTo pos o = .ok ((), o') ∧ Rep o' ((ws ++ unwritten o).take pos) ∧
      unwritten o' = (ws ++ unwritten o).drop pos ∧ o'.packet.size = max o.packet.size pos ∧
      o'.packet.capacity = o.packet.capacity ∧ o'.pool = o.pool := by
  have hcap := h.capacity
  rw [← h.bytesOf_data]
  obtain ⟨h1, h2, h3⟩ := skipChunks_spec o.pool.mem o.packet.data pos (by omega)
  obtain ⟨h4, h5⟩ := skipChunks_written o.pool.mem o.packet.data pos (by omega)
  rcases hr : Packet.skipChunks pos o.packet.data with ⟨r, y⟩
  rw [hr] at h1 h2 h3 h4 h5
  have htotal : total r = total o.packet.data := by
    rw [← length_bytesOf o.pool.mem, bytesOf_of_region_eq _ h3, length_bytesOf]
  have hmax := updateSize_eq { o.packet with pos := pos }
  refine ⟨⟨o.pool, ⟨r, max o.packet.size pos, pos, y, o.packet.capacity⟩⟩, ?_,
    ⟨MemoryPool.Inv.of_region_eq h3 h.inv, ?_, h2, h4, h5, ?_, Nat.le_max_right _ _, ?_, h.capacity_lt⟩,
    h1, rfl, rfl, rfl⟩
  · simp only [skipTo, Packet.skipTo, if_pos hpos, hr, hmax, bind, Except.bind, pure, Except.pure]
  · rw [map_chunk_of_region_eq h3]
    exact h.distinct
  · rw [List.length_take, length_bytesOf]
    simp only
    omega
  · simp only [htotal]
    exact hcap

/-- Growing: nothing that was written moves, and the new chunks are behind it. -/
theorem aquireMemory_spec {o : Out} {ws : List UInt8} (h : Rep o ws) {n : Nat}
    (hcs : 0 < o.pool.chunksize)
    (hroom : o.packet.capacity + n + 10 + o.pool.chunksize ≤ 2 ^ 32) :
    ∃ extra, Rep (aquireMemory o n) ws ∧ unwritten (aquireMemory o n) = unwritten o ++ extra ∧
      n + 10 ≤ extra.length ∧ (aquireMemory o n).packet.size = o.packet.size ∧
      (aquireMemory o n).packet.pos = o.packet.pos ∧
      (aquireMemory o n).pool.chunksize = o.pool.chunksize := by
  have hu : u32 (n + 10) = n + 10 := Nat.mod_eq_of_lt (by omega)
  have haq := MemoryPool.aquire_spec (o.pool.calculateChunkCount (n + 10)) h.inv
  have htotal := haq.total
  rw [MemoryPool.chunkLength_of_lt (by omega)] at htotal
  have hlow := o.pool.le_calculateChunkCount_mul (n + 10) hcs
  have hhigh := o.pool.calculateChunkCount_mul_lt (n + 10) hcs
  rcases hr : MemoryPool.aquire (o.pool.calculateChunkCount (n + 10)) o.pool with ⟨vs, q⟩
  simp only [hr] at haq htotal
  have hfresh : ∀ v ∈ vs, v.pos = 0 := fun v hv => (haq.whole v hv).2.1
  have hdata : o.packet.data.length - o.packet.posY + vs.length =
      (o.packet.data ++ vs).length - o.packet.posY := by
    have := h.posY_le
    rw [List.length_append]
    omega
  have hcap : o.packet.capacity = total o.packet.data := h.capacity
  have hu' : u32 (total (o.packet.data ++ vs)) = total (o.packet.data ++ vs) :=
    Nat.mod_eq_of_lt (by rw [total_append, htotal]; omega)
  have hgrown : aquireMemory o n =
      ⟨q, { o.packet with data := o.packet.data ++ vs,
                          capacity := total (o.packet.data ++ vs) }⟩ := by
    simp only [aquireMemory, MemoryPool.aquireByByteNeed, hu, hr, Packet.updateCapacity, hu']
  rw [hgrown]
  have htake : (o.packet.data ++ vs).take o.packet.posY = o.packet.data.take o.packet.posY :=
    List.take_append_of_le_length h.posY_le
  have hdrop : (o.packet.data ++ vs).drop o.packet.posY = o.packet.data.drop o.packet.posY ++ vs :=
    List.drop_append_of_le_length h.posY_le
  refine ⟨bytesOf o.pool.mem vs, ⟨?_, ?_, ?_, ?_, ?_, h.pos, h.pos_le, rfl, ?_⟩, ?_, ?_, rfl, rfl,
    haq.chunksize⟩
  · exact haq.inv.perm List.perm_append_comm
  · rw [List.map_append]
    refine List.Nodup.append h.distinct haq.distinct ?_
    intro c hc hc'
    obtain ⟨w, hw, rfl⟩ := List.mem_map.mp hc
    obtain ⟨v, hv, heq⟩ := List.mem_map.mp hc'
    exact haq.fresh v hv w hw heq
  · have := h.posY_le
    simp only [List.length_append]
    omega
  · simp only [hdrop]
    exact h.cursor.append_fresh hfresh
  · simp only [htake, hdrop, haq.mem, front_append_fresh _ _ hfresh]
    exact h.written
  · simp only [total_append, htotal]
    omega
  · simp only [unwritten, hdrop, unreadOf_append, haq.mem, unreadOf_of_fresh _ hfresh]
  · rw [length_bytesOf, htotal]
    exact hlow

/-- The growth loop ends after at most one pass. -/
theorem grow_spec {o : Out} {ws : List UInt8} (h : Rep o ws) {n : Nat}
    (hcs : 0 < o.pool.chunksize)
    (hroom : ws.length + n ≤ o.packet.capacity ∨
      ws.length + 2 * n + 10 + o.pool.chunksize ≤ 2 ^ 32)
    (fuel : Nat) :
    ∃ o' extra, grow (fuel + 2) n o = .ok o' ∧ Rep o' ws ∧ unwritten o' = unwritten o ++ extra ∧
      (ws.length + n ≤ o.packet.capacity → extra = []) ∧ ws.length + n ≤ o'.packet.capacity ∧
      o'.packet.size = o.packet.size ∧ o'.pool.chunksize = o.pool.chunksize := by
  have hpos := h.pos
  have hlt := h.capacity_lt
  have hu : u32 (o.packet.pos + n) = ws.length + n := by
    rw [hpos]
    exact Nat.mod_eq_of_lt (by omega)
  by_cases hc : o.packet.capacity < ws.length + n
  · obtain ⟨extra, h1, h2, h3, h4, h5, h6⟩ := aquireMemory_spec h (n := n) hcs (by omega)
    have hcap := h1.capacity_eq
    rw [h2, List.length_append] at hcap
    refine ⟨aquireMemory o n, extra, ?_, h1, h2, fun hle => by omega, by omega, h4, h6⟩
    simp only [grow, hu, if_pos hc, h5, if_neg (show ¬ (aquireMemory o n).packet.capacity <
      ws.length + n by omega)]
  · refine ⟨o, [], ?_, h, (List.append_nil _).symm, fun _ => rfl, by omega, rfl, rfl⟩
    simp only [grow, hu, if_neg hc]

/-- What a writer of the bytes `xs` does to a packet that has room for them in the chunks
    it has, or below `2 ^ 32` for them and one more growth step.  Where the acquired
    chunks have room for `xs`, the bytes behind it stay as they are. -/
def Appends (op : Op Unit) (xs : List UInt8) : Prop :=
  ∀ o ws, Rep o ws → 0 < o.pool.chunksize →
    (ws.length + xs.length ≤ o.packet.capacity ∨
      ws.length + xs.length + 65545 + o.pool.chunksize ≤ 2 ^ 32) →
    ∃ o', op o = .ok ((), o') ∧ Rep o' (ws ++ xs) ∧
      (ws.length + xs.length ≤ o.packet.capacity →
        unwritten o' = (unwritten o).drop xs.length) ∧
      o'.packet.size = max o.packet.size (ws.length + xs.length) ∧
      o'.pool.chunksize = o.pool.chunksize ∧ o.packet.capacity ≤ o'.packet.capacity

/-- `PutByte` appends its bytes, however many there is room for. -/
theorem putByte_spec {o : Out} {ws src : List UInt8} (h : Rep o ws) (hcs : 0 < o.pool.chunksize)
    (hroom : ws.length + src.length ≤ o.packet.capacity ∨
      ws.length + 2 * src.length + 10 + o.pool.chunksize ≤ 2 ^ 32) :
    ∃ o', putByte src o = .ok ((), o') ∧ Rep o' (ws ++ src) ∧
      (ws.length + src.length ≤ o.packet.capacity →
        unwritten o' = (unwritten o).drop src.length) ∧
      o'.packet.size = max o.packet.size (ws.length + src.length) ∧
      o'.pool.chunksize = o.pool.chunksize ∧ o.packet.capacity ≤ o'.packet.capacity := by
  obtain ⟨o1, extra, hgrow, hrep, hunw, hextra, hcap, hsize, hchunk⟩ :=
    grow_spec h hcs hroom (2 ^ 32 - 2)
  rw [show 2 ^ 32 - 2 + 2 = 2 ^ 32 from rfl] at hgrow
  have hu : u32 (o1.packet.pos + src.length) = ws.length + src.length := by
    rw [hrep.pos]
    exact Nat.mod_eq_of_lt (Nat.lt_of_le_of_lt hcap hrep.capacity_lt)
  have hfit : src.length ≤ (unwritten o1).length := by
    have := hrep.capacity_eq
    omega
  have hnodup : ((o1.packet.data.drop o1.packet.posY).map chunk).Nodup :=
    hrep.distinct.sublist ((List.drop_sublist _ _).map chunk)
  have hw := writeChunks_spec _ o1.pool.mem src hrep.cursor hnodup hfit
  rcases hr : writeChunks o1.pool.mem src (o1.packet.data.drop o1.packet.posY) with ⟨m, vs, y⟩
  rw [hr] at hw
  have htake : (o1.packet.data.take o1.packet.posY).length = o1.packet.posY :=
    List.length_take_of_le hrep.posY_le
  have hdata : (o1.packet.data.take o1.packet.posY ++ vs).map region = o1.packet.data.map region := by
    rw [List.map_append, hw.regions, ← List.map_append, List.take_append_drop]
  have hdrop : (o1.packet.data.take o1.packet.posY ++ vs).drop (o1.packet.posY + y) = vs.drop y := by
    rw [List.drop_append, htake, Nat.add_sub_cancel_left, List.drop_eq_nil_of_le (by omega),
      List.nil_append]
  have htake' : (o1.packet.data.take o1.packet.posY ++ vs).take (o1.packet.posY + y) =
      o1.packet.data.take o1.packet.posY ++ vs.take y := by
    rw [List.take_append, htake, Nat.add_sub_cancel_left, List.take_of_length_le (by omega)]
  -- the chunks before `pos_y_` are not among those the loop may write to
  have hbefore : bytesOf m (o1.packet.data.take o1.packet.posY) =
      bytesOf o1.pool.mem (o1.packet.data.take o1.packet.posY) := by
    refine bytesOf_congr fun v hv => bytes_congr_chunk (hw.elsewhere _ ?_)
    intro hmem
    obtain ⟨w, hwm, heq⟩ := List.mem_map.mp hmem
    have hd := hrep.distinct
    rw [← List.take_append_drop o1.packet.posY o1.packet.data, List.map_append] at hd
    exact (List.disjoint_of_nodup_append hd) (List.mem_map.mpr ⟨v, hv, rfl⟩)
      (List.mem_map.mpr ⟨w, hwm, heq⟩)
  have htotal : total (o1.packet.data.take o1.packet.posY ++ vs) = total o1.packet.data := by
    rw [← length_bytesOf m, bytesOf_of_region_eq m hdata, length_bytesOf]
  have hmax := updateSize_eq { o1.packet with pos := ws.length + src.length }
  refine ⟨⟨{ o1.pool with mem := m },
    ⟨o1.packet.data.take o1.packet.posY ++ vs, max o1.packet.size (ws.length + src.length),
      ws.length + src.length, o1.packet.posY + y, o1.packet.capacity⟩⟩, ?_,
    ⟨?_, ?_, ?_, ?_, ?_, ?_, Nat.le_max_right _ _, ?_, hrep.capacity_lt⟩, ?_, ?_, hchunk, ?_⟩
  · simp only [putByte, hgrow, bind, Except.bind, hmax, hr, hu, pure, Except.pure]
  · exact (MemoryPool.Inv.of_region_eq hdata hrep.inv).of_mem m
  · rw [map_chunk_of_region_eq hdata]
    exact hrep.distinct
  · have := hw.posY_le
    simp only [List.length_append, htake]
    simp only at this
    omega
  · simp only [hdrop]
    exact hw.cursor
  · simp only [htake', hdrop, bytesOf_append, hbefore, List.append_assoc]
    rw [hw.written, ← List.append_assoc, hrep.written]
  · simp
  · simp only [htotal]
    exact hrep.capacity
  · intro hle
    rw [hextra hle, List.append_nil] at hunw
    rw [← hunw]
    simp only [unwritten, hdrop]
    exact hw.rest
  · simp only [hsize]
  · have hbefore := h.capacity_eq
    have hafter := hrep.capacity_eq
    rw [hunw, List.length_append] at hafter
    simp only
    omega

theorem appends_putByte {src : List UInt8} (hsrc : src.length ≤ 65535) :
    Appends (putByte src) src := fun _ _ h hcs hroom =>
  putByte_spec h hcs (hroom.imp_right fun hle => by omega)

theorem Appends.pure : Appends (Pure.pure ()) [] := by
  intro o ws h _ _
  have hpos := h.pos
  have hle := h.pos_le
  exact ⟨o, rfl, by rwa [List.append_nil], fun _ => rfl,
    (Nat.max_eq_left (by simp only [List.length_nil]; omega)).symm, rfl, Nat.le_refl _⟩

theorem Appends.seq {op op' : Op Unit} {xs ys : List UInt8} (h : Appends op xs)
    (h' : Appends op' ys) : Appends (do op; op') (xs ++ ys) := by
  intro o ws hrep hcs hroom
  rw [List.length_append] at hroom
  obtain ⟨o1, hop1, hrep1, hunw1, hsize1, hcs1, hgrown1⟩ := h o ws hrep hcs (by omega)
  have hlen : (ws ++ xs).length = ws.length + xs.length := List.length_append
  obtain ⟨o2, hop2, hrep2, hunw2, hsize2, hcs2, hgrown2⟩ :=
    h' o1 (ws ++ xs) hrep1 (by omega) (by omega)
  refine ⟨o2, ?_, by rwa [← List.append_assoc], ?_, ?_, hcs2.trans hcs1,
    Nat.le_trans hgrown1 hgrown2⟩
  · show (op o >>= fun r => op' r.2) = _
    rw [hop1]
    exact hop2
  · intro hle
    rw [List.length_append] at hle ⊢
    have hcap := hrep.capacity_eq
    have hcap1 := hrep1.capacity_eq
    have hu := hunw1 (by omega)
    rw [hu, List.length_drop, hlen] at hcap1
    rw [hunw2 (by omega), hu, List.drop_drop]
  · rw [hsize2, hsize1, hlen, List.length_append]
    omega

/-- What a writer of the bytes `xs` does to a packet, given room below `2 ^ 32` for
    the bytes and one more growth step.  Where the acquired chunks have room for
    `xs`, the bytes behind it stay as they are. -/
def Writes (op : Op Unit) (xs : List UInt8) : Prop :=
  ∀ o ws, Rep o ws → 0 < o.pool.chunksize →
    ws.length + xs.length + 65545 + o.pool.chunksize ≤ 2 ^ 32 →
    ∃ o', op o = .ok ((), o') ∧ Rep o' (ws ++ xs) ∧
      (ws.length + xs.length ≤ o.packet.capacity →
        unwritten o' = (unwritten o).drop xs.length) ∧
      o'.packet.size = max o.packet.size (ws.length + xs.length) ∧
      o'.pool.chunksize = o.pool.chunksize

theorem Appends.writes {op : Op Unit} {xs : List UInt8} (h : Appends op xs) : Writes op xs := by
  intro o ws hrep hcs hroom
  obtain ⟨o', hop, hrep', hunw, hsize, hchunk, -⟩ := h o ws hrep hcs (Or.inr hroom)
  exact ⟨o', hop, hrep', hunw, hsize, hchunk⟩

end PacketOut

end Jengine.Gateway
