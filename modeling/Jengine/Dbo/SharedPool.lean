import Jengine.Dbo.PacketWriter

/-!
# Packets beside others in one pool

All packets of `RealConnectionPoolManager` are made of the chunks of one pool.  A packet that
grows gets chunks that no view in use maps, so what is written to it is not seen through the
others.

A packet that is written in small pieces has no spare chunk behind its cursor, since each piece
asks for one chunk only.  Its cursor is behind all chunks iff the bytes fill them.
-/

namespace Jengine.Dbo.Internal

open Jengine.Lib Jengine.Memory RefMemoryChunk
open Gateway (u32)

namespace PacketOut

open Gateway.PacketOut (Op Out Sound Separate Room flat grown grow aquireMemory putByte fetchData
  fetchChunks)

/-! ### Views in use -/

/-- The packet is made of whole chunks of the pool, none of which is mapped by a view of `live`. -/
structure Beside (live : List RefMemoryChunk) (o : Out) : Prop where
  inv : o.pool.Inv (o.packet.data ++ live)
  fresh : ∀ v ∈ o.packet.data, ∀ w ∈ live, v.chunk ≠ w.chunk
  whole : ∀ v ∈ o.packet.data, v.count = o.pool.chunkLength

/-- What a write leaves to the views in use, and to the packet. -/
structure Leaves (live : List RefMemoryChunk) (o o' : Out) : Prop where
  beside : Beside live o'
  bytes : bytesOf o'.pool.mem live = bytesOf o.pool.mem live
  chunksize : o'.pool.chunksize = o.pool.chunksize
  size_le : o.packet.size ≤ o'.packet.size
  length_le : o.packet.data.length ≤ o'.packet.data.length

section

variable {live : List RefMemoryChunk} {o o' : Out}

theorem Beside.refl (h : Beside live o) : Leaves live o o :=
  ⟨h, rfl, rfl, Nat.le_refl _, Nat.le_refl _⟩

theorem Leaves.trans {o1 o2 : Out} (h : Leaves live o o1) (h' : Leaves live o1 o2) :
    Leaves live o o2 where
  beside := h'.beside
  bytes := h'.bytes.trans h.bytes
  chunksize := h'.chunksize.trans h.chunksize
  size_le := Nat.le_trans h.size_le h'.size_le
  length_le := Nat.le_trans h.length_le h'.length_le

/-- A packet without chunks. -/
theorem beside_empty {pool : MemoryPool} (h : pool.Inv live) :
    Beside live ⟨pool, Gateway.Packet.empty⟩ where
  inv := h
  fresh := fun _ hv => absurd hv List.not_mem_nil
  whole := fun _ hv => absurd hv List.not_mem_nil

/-- The cursors and the bytes of the chunks may change. -/
theorem Beside.of_region_eq (h : Beside live o) {pk : Gateway.Packet} {m : Bytes}
    (hregion : pk.data.map region = o.packet.data.map region) :
    Beside live ⟨{ o.pool with mem := m }, pk⟩ := by
  have hmem : ∀ v ∈ pk.data, ∃ w ∈ o.packet.data, w.region = v.region := by
    intro v hv
    have hin : v.region ∈ o.packet.data.map region := hregion ▸ List.mem_map_of_mem hv
    exact List.mem_map.mp hin
  have hall : (pk.data ++ live).map region = (o.packet.data ++ live).map region := by
    rw [List.map_append, List.map_append, hregion]
  refine ⟨(MemoryPool.Inv.of_region_eq hall h.inv).of_mem m, fun v hv w hw => ?_, fun v hv => ?_⟩
  · obtain ⟨u, hu, heq⟩ := hmem v hv
    have hchunk : u.chunk = v.chunk := congrArg (fun r : Nat × Nat × Nat => r.1) heq
    exact hchunk ▸ h.fresh u hu w hw
  · obtain ⟨u, hu, heq⟩ := hmem v hv
    have hcount : u.count = v.count := congrArg (fun r : Nat × Nat × Nat => r.2.2) heq
    exact hcount ▸ h.whole u hu

/-- `AquireMemory`. -/
theorem Beside.aquireMemory (h : Beside live o) (need : Nat) :
    Leaves live o (aquireMemory o need) := by
  have haq := MemoryPool.aquire_spec (o.pool.calculateChunkCount (u32 (need + 10))) h.inv
  rcases hr : MemoryPool.aquire (o.pool.calculateChunkCount (u32 (need + 10))) o.pool with ⟨vs, q⟩
  rw [hr] at haq
  have hgrown : Gateway.PacketOut.aquireMemory o need = ⟨q, { o.packet with
      data := o.packet.data ++ vs, capacity := u32 (total (o.packet.data ++ vs)) }⟩ := by
    simp only [Gateway.PacketOut.aquireMemory, MemoryPool.aquireByByteNeed, hr,
      Gateway.Packet.updateCapacity]
  have hlength : q.chunkLength = o.pool.chunkLength := by
    rw [MemoryPool.chunkLength, haq.chunksize, MemoryPool.chunkLength]
  rw [hgrown]
  refine ⟨⟨?_, fun v hv w hw => ?_, fun v hv => ?_⟩, ?_, haq.chunksize, Nat.le_refl _, ?_⟩
  · refine haq.inv.perm ?_
    rw [← List.append_assoc]
    exact List.perm_append_comm.append_right live
  · rcases List.mem_append.mp hv with hv | hv
    · exact h.fresh v hv w hw
    · exact haq.fresh v hv w (List.mem_append_right _ hw)
  · rw [hlength]
    rcases List.mem_append.mp hv with hv | hv
    · exact h.whole v hv
    · exact (haq.whole v hv).2.2
  · rw [show q.mem = o.pool.mem from haq.mem]
  · show o.packet.data.length ≤ (o.packet.data ++ vs).length
    rw [List.length_append]
    exact Nat.le_add_right _ _

/-- The growth loop of `PutByte`, however often it goes round. -/
theorem Beside.grow {fuel count : Nat} (h : Beside live o) (hop : grow fuel count o = .ok o') :
    Leaves live o o' := by
  induction fuel generalizing o with
  | zero => cases hop
  | succ fuel ih =>
      rw [Gateway.PacketOut.grow] at hop
      split at hop
      · have hone := h.aquireMemory count
        exact hone.trans (ih hone.beside hop)
      · obtain rfl := Except.ok.inj hop
        exact h.refl

/-- Views of other chunks keep their bytes. -/
theorem Beside.bytes_eq (h : Beside live o) {m : Bytes}
    (hframe : ∀ c, c ∉ cells o.packet.data → m c.1 c.2 = o.pool.mem c.1 c.2) :
    bytesOf m live = bytesOf o.pool.mem live := by
  refine bytesOf_congr fun w hw => bytes_congr_cells fun c hc => hframe c fun hmem => ?_
  rw [cells, List.flatMap_singleton] at hc
  rw [cells, List.mem_flatMap] at hmem
  obtain ⟨v, hv, hcv⟩ := hmem
  obtain ⟨i, -, rfl⟩ := List.mem_map.mp hc
  obtain ⟨j, -, heq⟩ := List.mem_map.mp hcv
  exact h.fresh v hv w hw (congrArg Prod.fst heq)

/-- A write to a packet beside others. -/
def Tame (op : Op Unit) : Prop :=
  ∀ (live : List RefMemoryChunk) (o o' : Out), Beside live o → op o = .ok ((), o') →
    Leaves live o o'

theorem tame_putByte (src : List UInt8) : Tame (putByte src) := by
  intro live o o' h hop
  rcases hgrow : Gateway.PacketOut.grow (2 ^ 32) src.length o with e | o1
  · rw [Gateway.PacketOut.putByte, hgrow] at hop
    cases hop
  have hgrown := h.grow hgrow
  obtain ⟨hregion, hframe⟩ :=
    Gateway.writeChunks_frame (o1.packet.data.drop o1.packet.posY) o1.pool.mem src
  rcases hr : Gateway.writeChunks o1.pool.mem src (o1.packet.data.drop o1.packet.posY) with
    ⟨m, vs, y⟩
  rw [hr] at hregion hframe
  have hregions : (o1.packet.data.take o1.packet.posY ++ vs).map region =
      o1.packet.data.map region := by
    rw [List.map_append, hregion, ← List.map_append, List.take_append_drop]
  have hcells : ∀ c, c ∉ cells o1.packet.data → m c.1 c.2 = o1.pool.mem c.1 c.2 := by
    refine fun c hc => hframe c fun hmem => hc ?_
    rw [← List.take_append_drop o1.packet.posY o1.packet.data, cells_append]
    exact List.mem_append_right _ hmem
  have hmax := Gateway.updateSize_eq { o1.packet with pos := u32 (o1.packet.pos + src.length) }
  simp only [Gateway.PacketOut.putByte, hgrow, bind, Except.bind, hmax, hr, pure, Except.pure,
    Except.ok.injEq, Prod.mk.injEq, true_and] at hop
  subst hop
  refine hgrown.trans ⟨hgrown.beside.of_region_eq hregions, hgrown.beside.bytes_eq hcells, rfl,
    Nat.le_max_left _ _, ?_⟩
  have hlen := congrArg List.length hregions
  rw [List.length_map, List.length_map] at hlen
  exact hlen.ge

/-- `SkipTo` moves cursors. -/
theorem region_skipChunks (vs : List RefMemoryChunk) (pos : Nat) :
    (Gateway.Packet.skipChunks pos vs).1.map region = vs.map region := by
  induction vs generalizing pos with
  | nil => rfl
  | cons v vs ih =>
      by_cases hzero : pos = 0
      · rw [hzero, Gateway.skipChunks_cons_zero, List.map_cons, ih]
        rfl
      · by_cases hlt : pos < v.count
        · rw [Gateway.skipChunks_cons_inside vs hzero hlt, List.map_cons, ih]
          rfl
        · rw [Gateway.skipChunks_cons_beyond vs hzero hlt, List.map_cons, ih]
          rfl

theorem tame_skipTo (pos : Nat) : Tame (Gateway.PacketOut.skipTo pos) := by
  intro live o o' h hop
  by_cases hle : pos ≤ o.packet.capacity
  · have hregion := region_skipChunks o.packet.data pos
    have hmax := Gateway.updateSize_eq { o.packet with pos := pos }
    simp only [Gateway.PacketOut.skipTo, Gateway.Packet.skipTo, if_pos hle, hmax, bind, Except.bind,
      pure, Except.pure, Except.ok.injEq, Prod.mk.injEq, true_and] at hop
    subst hop
    refine ⟨h.of_region_eq (m := o.pool.mem) hregion, rfl, rfl, Nat.le_max_left _ _, ?_⟩
    have hlen := congrArg List.length hregion
    rw [List.length_map, List.length_map] at hlen
    exact hlen.ge
  · simp only [Gateway.PacketOut.skipTo, Gateway.Packet.skipTo, if_neg hle, bind,
      Except.bind] at hop
    cases hop

theorem Tame.seq {op op' : Op Unit} (h : Tame op) (h' : Tame op') : Tame (do op; op') := by
  intro live o o' hb hop
  have hbind : (op o >>= fun r => op' r.2) = .ok ((), o') := hop
  rcases hfirst : op o with e | ⟨u, o1⟩
  · rw [hfirst] at hbind
    cases hbind
  · rw [hfirst] at hbind
    have hone := h live o o1 hb hfirst
    exact hone.trans (h' live o1 o' hone.beside hbind)

theorem Tame.ite {p : Prop} [Decidable p] {op op' : Op Unit} (h : Tame op) (h' : Tame op') :
    Tame (if p then op else op') := by
  by_cases hp : p
  · rw [if_pos hp]
    exact h
  · rw [if_neg hp]
    exact h'

theorem tame_writeVariableInteger (v : UInt64) : Tame (writeVariableInteger v) := by
  unfold writeVariableInteger
  exact (tame_putByte _).ite (((tame_putByte _).seq (tame_putByte _)).ite
    (((tame_putByte _).seq (tame_putByte _)).ite ((tame_putByte _).seq (tame_putByte _))))

theorem tame_writeLengthEncodedString (str : List UInt8) : Tame (writeLengthEncodedString str) :=
  (tame_writeVariableInteger _).seq (tame_putByte _)

end

/-! ### What has been written -/

/-- The bytes `ws` have been written to the packet, and nothing behind them. -/
structure Filled (live : List RefMemoryChunk) (o : Out) (ws : List UInt8) : Prop where
  sound : Sound o
  separate : Separate o
  beside : Beside live o
  size : o.packet.size = ws.length
  pos : o.packet.pos = ws.length
  bytes : (bytesOf o.pool.mem o.packet.data).take ws.length = ws

section

variable {live : List RefMemoryChunk} {o : Out} {ws : List UInt8}

theorem Filled.length_le (h : Filled live o ws) : ws.length ≤ o.packet.capacity := by
  rw [← h.size]
  exact h.sound.placed.size_le

theorem Filled.bytesOf_fetchData (h : Filled live o ws) :
    bytesOf o.pool.mem (fetchData o.packet) = ws := by
  rw [fetchData, Gateway.PacketOut.bytesOf_fetchChunks, h.size, h.bytes]

/-- `PutByte`. -/
theorem Filled.putByte (h : Filled live o ws) {src : List UInt8} (ha : Room o src) :
    ∃ o', putByte src o = .ok ((), o') ∧ Filled live o' (ws ++ src) ∧ Leaves live o o' ∧
      o'.packet.capacity = o.packet.capacity + grown o src.length := by
  obtain ⟨o', extra, hop, hsound, hsep, hextra, hflat⟩ := h.sound.putByte h.separate ha
  have hleaves := tame_putByte src live o o' h.beside hop
  have hsize : o'.packet.size = max o.packet.size (o.packet.pos + src.length) :=
    congrArg Gateway.FlatPacket.size hflat
  have hpos : o'.packet.pos = o.packet.pos + src.length := congrArg Gateway.FlatPacket.pos hflat
  have hbytes : bytesOf o'.pool.mem o'.packet.data =
      (bytesOf o.pool.mem o.packet.data ++ extra).take o.packet.pos ++ src ++
        (bytesOf o.pool.mem o.packet.data ++ extra).drop (o.packet.pos + src.length) :=
    congrArg Gateway.FlatPacket.bytes hflat
  have hlen : (bytesOf o.pool.mem o.packet.data).length = o.packet.capacity := h.sound.length_bytes
  have hle := h.length_le
  have hlength : (ws ++ src).length = ws.length + src.length := List.length_append
  have hroom : o.packet.pos + src.length ≤ o.packet.capacity + extra.length := by
    rw [hextra, grown]
    split
    · have hlow := o.pool.le_calculateChunkCount_mul (src.length + 10) h.separate.chunksize
      have hpos' := h.pos
      omega
    · omega
  have hfront : (bytesOf o.pool.mem o.packet.data ++ extra).take o.packet.pos = ws := by
    rw [List.take_append_of_le_length (by rw [hlen, h.pos]; exact hle), h.pos, h.bytes]
  refine ⟨o', hop, ⟨hsound, hsep, hleaves.beside, ?_, ?_, ?_⟩, hleaves, ?_⟩
  · rw [hsize, h.size, h.pos, hlength]
    exact Nat.max_eq_right (Nat.le_add_right _ _)
  · rw [hpos, h.pos, hlength]
  · rw [hbytes, hfront, List.take_left]
  · have hcap' : (bytesOf o'.pool.mem o'.packet.data).length = o'.packet.capacity :=
      hsound.length_bytes
    rw [← hcap', hbytes, hfront, List.length_append, hlength, List.length_drop,
      List.length_append, hlen, ← hextra, h.pos]
    have hpos' := h.pos
    omega

/-- A new packet. -/
theorem filled_make {pool : MemoryPool} (h : pool.Inv live) (hcs : 0 < pool.chunksize)
    {approxSize : Nat} (happrox : 20 ≤ approxSize)
    (hsize : approxSize + 10 + pool.chunksize ≤ 2 ^ 32) :
    ∃ o stale, make pool approxSize = .ok ((), o) ∧ stale.length = 4 ∧ Filled live o stale ∧
      o.pool.chunksize = pool.chunksize ∧ bytesOf o.pool.mem live = bytesOf pool.mem live ∧
      o.packet.capacity = pool.calculateChunkCount (approxSize + 10) * pool.chunksize := by
  have hu : u32 (approxSize + 10) = approxSize + 10 := Nat.mod_eq_of_lt (by omega)
  have hhigh := pool.calculateChunkCount_mul_lt (approxSize + 10) hcs
  have hlow := pool.le_calculateChunkCount_mul (approxSize + 10) hcs
  have hempty : Separate ⟨pool, Gateway.Packet.empty⟩ :=
    ⟨MemoryPool.Inv.of_append h, List.Pairwise.nil, hcs⟩
  have hfit : 0 + pool.calculateChunkCount (u32 (approxSize + 10)) * pool.chunksize < 2 ^ 32 := by
    rw [hu]
    omega
  obtain ⟨extra, hsound, hsep, hflat, hextra⟩ :=
    (Gateway.PacketOut.sound_empty pool).aquire hempty hfit
  rw [hu] at hextra
  have hleaves := (beside_empty h).aquireMemory approxSize
  generalize hgrown : aquireMemory ⟨pool, Gateway.Packet.empty⟩ approxSize = o1 at *
  have hcap1 : o1.packet.capacity =
      pool.calculateChunkCount (approxSize + 10) * pool.chunksize := by
    rw [← hsound.length_bytes, hflat, List.length_append, hextra]
    exact Nat.zero_add _
  have hroom : 4 ≤ o1.packet.capacity := by omega
  obtain ⟨o, hskip, hsound', hflat', hpool, hregion⟩ := hsound.skipTo hroom
  have hbytes' : bytesOf o.pool.mem o.packet.data = bytesOf o1.pool.mem o1.packet.data :=
    congrArg Gateway.FlatPacket.bytes hflat'
  have hlength : (bytesOf o1.pool.mem o1.packet.data).length = o1.packet.capacity :=
    hsound.length_bytes
  have hstale : ((bytesOf o1.pool.mem o1.packet.data).take 4).length = 4 := by
    rw [List.length_take]
    omega
  have hsep' := hsep.of_region_eq (m := o1.pool.mem) hregion
  have hbeside' := hleaves.beside.of_region_eq (m := o1.pool.mem) hregion
  rw [← hpool] at hsep' hbeside'
  have hsize1 : o1.packet.size = 0 := congrArg Gateway.FlatPacket.size hflat
  have hsize' : o.packet.size = max o1.packet.size 4 := congrArg Gateway.FlatPacket.size hflat'
  refine ⟨o, (bytesOf o1.pool.mem o1.packet.data).take 4, ?_, hstale,
    ⟨hsound', hsep', hbeside', ?_, ?_, ?_⟩, ?_, ?_, ?_⟩
  · rw [make, if_neg (by omega), hgrown]
    exact hskip
  · rw [hsize', hsize1, hstale]
    rfl
  · rw [hstale]
    exact congrArg Gateway.FlatPacket.pos hflat'
  · rw [hstale, hbytes']
  · rw [hpool, hleaves.chunksize]
  · rw [hpool, hleaves.bytes]
  · rw [← hcap1, ← hlength, ← hbytes']
    exact hsound'.length_bytes.symm

end

/-! ### Small pieces -/

/-- The sums of `PutByte` stay small. -/
theorem room_of_le {o : Out} (src : List UInt8) (hcs : 0 < o.pool.chunksize)
    (h : o.packet.pos + 2 * src.length + 10 + o.pool.chunksize ≤ 2 ^ 32) : Room o src := by
  have hhigh := o.pool.calculateChunkCount_mul_lt (src.length + 10) hcs
  exact ⟨by omega, by omega, fun hgrow => by omega⟩

/-- A piece that is not longer than a chunk, with the ten bytes more that are asked for, gets one
    chunk at most. -/
theorem grown_le (o : Out) {count : Nat} (h : count + 10 ≤ o.pool.chunksize) :
    o.packet.capacity + grown o count ≤
      max o.packet.capacity (o.packet.pos + count + (o.pool.chunksize - 1)) := by
  have hone : o.pool.calculateChunkCount (count + 10) = 1 := by
    rcases Nat.eq_or_lt_of_le h with heq | hlt
    · rw [MemoryPool.calculateChunkCount, heq, Nat.mod_self, if_neg (Nat.lt_irrefl 0),
        Nat.div_self (by omega)]
    · rw [MemoryPool.calculateChunkCount, Nat.mod_eq_of_lt hlt, if_pos (by omega),
        Nat.div_eq_of_lt hlt]
  rw [grown]
  split
  · rw [hone, Nat.one_mul]
    omega
  · omega

/-- A writer puts the bytes `xs` in pieces that are not longer than a chunk of `cs` bytes. -/
def Pieces (cs : Nat) (op : Op Unit) (xs : List UInt8) : Prop :=
  ∀ live o ws, Filled live o ws → o.pool.chunksize = cs →
    ws.length + 2 * xs.length + 10 + cs ≤ 2 ^ 32 →
    ∃ o', op o = .ok ((), o') ∧ Filled live o' (ws ++ xs) ∧ Leaves live o o' ∧
      o'.packet.capacity ≤ max o.packet.capacity (ws.length + xs.length + (cs - 1))

theorem pieces_putByte {cs : Nat} {src : List UInt8} (h : src.length + 10 ≤ cs) :
    Pieces cs (putByte src) src := by
  intro live o ws hfilled hcs hroom
  have hpos := hfilled.pos
  obtain ⟨o', hop, hfilled', hleaves, hcap⟩ :=
    hfilled.putByte (room_of_le src hfilled.separate.chunksize (by omega))
  have hshort : src.length + 10 ≤ o.pool.chunksize := by omega
  have hle := grown_le o hshort
  exact ⟨o', hop, hfilled', hleaves, by omega⟩

theorem Pieces.seq {cs : Nat} {op op' : Op Unit} {xs ys : List UInt8} (h : Pieces cs op xs)
    (h' : Pieces cs op' ys) : Pieces cs (do op; op') (xs ++ ys) := by
  intro live o ws hfilled hcs hroom
  rw [List.length_append] at hroom
  obtain ⟨o1, hop1, hfilled1, hleaves1, hcap1⟩ := h live o ws hfilled hcs (by omega)
  have hlen : (ws ++ xs).length = ws.length + xs.length := List.length_append
  obtain ⟨o2, hop2, hfilled2, hleaves2, hcap2⟩ :=
    h' live o1 (ws ++ xs) hfilled1 (hleaves1.chunksize.trans hcs) (by omega)
  refine ⟨o2, ?_, by rwa [← List.append_assoc], hleaves1.trans hleaves2, ?_⟩
  · show (op o >>= fun r => op' r.2) = _
    rw [hop1]
    exact hop2
  · rw [List.length_append]
    omega

theorem pieces_forM {cs : Nat} {α : Type} {write : α → Op Unit} {bytes : α → List UInt8}
    (h : ∀ a, Pieces cs (write a) (bytes a)) (as : List α) :
    Pieces cs (as.forM write) (as.flatMap bytes) := by
  induction as with
  | nil =>
      intro live o ws hfilled _ _
      exact ⟨o, rfl, by rwa [List.flatMap_nil, List.append_nil], hfilled.beside.refl,
        Nat.le_max_left _ _⟩
  | cons a as ih => exact (h a).seq ih

/-! ### Where the cursor is -/

section

variable {live : List RefMemoryChunk} {o : Out} {ws : List UInt8}

/-- The capacity is that of the chunks. -/
theorem Filled.capacity_mod (h : Filled live o ws) (hcs : o.pool.chunksize < 2 ^ 32) :
    o.packet.capacity % o.pool.chunksize = 0 := by
  have hcount : o.packet.data.map count =
      List.replicate o.packet.data.length o.pool.chunksize := by
    rw [List.eq_replicate_iff]
    refine ⟨List.length_map count, fun n hn => ?_⟩
    obtain ⟨v, hv, rfl⟩ := List.mem_map.mp hn
    rw [h.beside.whole v hv, MemoryPool.chunkLength_of_lt hcs]
  rw [h.sound.placed.capacity, total, hcount, List.sum_replicate_nat]
  exact Nat.mul_mod_left _ _

/-- The bytes behind the cursor. -/
theorem Filled.total_drop (h : Filled live o ws) :
    (unreadOf o.pool.mem (o.packet.data.drop o.packet.posY)).length =
      o.packet.capacity - ws.length := by
  rw [(h.sound.placed.split o.pool.mem).2, List.length_drop, h.pos, length_bytesOf,
    ← h.sound.placed.capacity]

/-- Behind all chunks, if they are full. -/
theorem Filled.drop_eq_nil (h : Filled live o ws) (hfull : o.packet.capacity = ws.length) :
    o.packet.data.drop o.packet.posY = [] := by
  have htotal := h.total_drop
  have hopen := h.sound.placed.cursor
  rcases hdrop : o.packet.data.drop o.packet.posY with _ | ⟨ck, spare⟩
  · rfl
  · rw [hdrop] at htotal hopen
    rw [unreadOf_cons, List.length_append, length_unread] at htotal
    have hlt := hopen.1
    have hfree : ck.freeCount = ck.count - ck.pos := rfl
    omega

/-- Otherwise in the last one, if there is no spare chunk. -/
theorem Filled.drop_eq_singleton (h : Filled live o ws) (hcs : o.pool.chunksize < 2 ^ 32)
    (hlt : ws.length < o.packet.capacity)
    (hsnug : o.packet.capacity < ws.length + o.pool.chunksize) :
    ∃ ck, o.packet.data.drop o.packet.posY = [ck] ∧ ck.pos ≠ 0 := by
  have htotal := h.total_drop
  have hopen := h.sound.placed.cursor
  have hwhole : ∀ v ∈ o.packet.data.drop o.packet.posY, v.count = o.pool.chunksize :=
    fun v hv => (h.beside.whole v (List.mem_of_mem_drop hv)).trans
      (MemoryPool.chunkLength_of_lt hcs)
  rcases hdrop : o.packet.data.drop o.packet.posY with _ | ⟨ck, spare⟩
  · rw [hdrop, unreadOf_nil, List.length_nil] at htotal
    omega
  · rw [hdrop] at htotal hopen hwhole
    rw [unreadOf_cons, List.length_append, length_unread] at htotal
    have hcount := hwhole ck List.mem_cons_self
    have hfree : ck.freeCount = ck.count - ck.pos := rfl
    refine ⟨ck, ?_, fun hzero => by omega⟩
    rcases spare with _ | ⟨v, spare⟩
    · rfl
    · have hv := hwhole v (List.mem_cons_of_mem ck List.mem_cons_self)
      have hfresh := hopen.2 v List.mem_cons_self
      rw [unreadOf_cons, List.length_append, length_unread] at htotal
      have hfree' : v.freeCount = v.count - v.pos := rfl
      omega

end

/-! ### The head -/

/-- What `WriteHead` needs of a packet: views that do not overlap, and bytes for the head. -/
structure Complete (o : Out) : Prop where
  nonempty : ∀ v ∈ o.packet.data, 0 < v.count
  apart : o.packet.data.Pairwise Apart
  capacity : o.packet.capacity = total o.packet.data
  capacity_lt : o.packet.capacity < 2 ^ 32
  size_le : o.packet.size ≤ o.packet.capacity
  head_le : 4 ≤ o.packet.size

theorem Filled.complete {live : List RefMemoryChunk} {o : Out} {ws : List UInt8}
    (h : Filled live o ws) (hhead : 4 ≤ ws.length) : Complete o :=
  ⟨h.sound.nonempty, h.separate.apart, h.sound.placed.capacity, h.sound.capacity_lt,
    h.sound.placed.size_le, h.size ▸ hhead⟩

/-- `PutByte` where the packet has the room. -/
theorem putByte_inside {o : Out} (h : Sound o) (hapart : o.packet.data.Pairwise Apart)
    {src : List UInt8} (hroom : o.packet.pos + src.length ≤ o.packet.capacity) :
    ∃ o', putByte src o = .ok ((), o') ∧ Sound o' ∧ o'.packet.data.Pairwise Apart ∧
      flat o' = (flat o).put [] src ∧ o'.packet.capacity = o.packet.capacity := by
  obtain ⟨hsound, hregion, hflat⟩ := h.write hapart hroom
  have hlt := h.capacity_lt
  have hu : u32 (o.packet.pos + src.length) = o.packet.pos + src.length :=
    Nat.mod_eq_of_lt (by omega)
  have hgrow : grow (2 ^ 32) src.length o = .ok o := by
    rw [show 2 ^ 32 = 4294967295 + 1 from rfl, Gateway.PacketOut.grow, hu,
      if_neg (not_lt.mpr hroom)]
  have hmax := Gateway.updateSize_eq { o.packet with pos := o.packet.pos + src.length }
  refine ⟨_, ?_, hsound, Gateway.apart_of_region_eq hregion hapart, hflat, rfl⟩
  simp only [putByte, hgrow, bind, Except.bind, pure, Except.pure, hu, hmax]

/-- `WriteHead` puts the length over the first bytes of the packet, and leaves the others. -/
theorem Complete.writeHead {o : Out} (h : Complete o) (sequenceId : UInt8) :
    ∃ o', writeHead sequenceId o = .ok ((), o') ∧
      bytesOf o'.pool.mem (fetchData o'.packet) = toLE 3 (o.packet.size - 4) ++
        sequenceId :: (bytesOf o.pool.mem (fetchData o.packet)).drop 4 := by
  obtain ⟨pk, hskip, hplaced, hregion, hsize, hpos, hcap⟩ :=
    Gateway.placed_skipTo h.capacity h.size_le h.nonempty o.pool.mem (Nat.zero_le _)
  have hhead := h.head_le
  have hle := h.size_le
  have hlt := h.capacity_lt
  rw [Nat.max_eq_left (Nat.zero_le _)] at hsize
  have hop : Gateway.PacketOut.skipTo 0 o = .ok ((), ⟨o.pool, pk⟩) := by
    simp only [Gateway.PacketOut.skipTo, hskip, bind, Except.bind, pure, Except.pure]
  have hsound : Sound ⟨o.pool, pk⟩ :=
    ⟨hplaced, Gateway.nonempty_of_region_eq hregion h.nonempty, hcap ▸ h.capacity_lt⟩
  have hapart := Gateway.apart_of_region_eq hregion h.apart
  have hthree : (toLE 3 (o.packet.size - 4)).length = 3 := length_toLE _ _
  have hone : (toLE 1 sequenceId.toNat).length = 1 := length_toLE _ _
  have hinside : pk.pos + (toLE 3 (o.packet.size - 4)).length ≤ pk.capacity := by omega
  obtain ⟨o2, hop2, hsound2, hapart2, hflat2, hcap2⟩ := putByte_inside hsound hapart hinside
  have hpos2 : o2.packet.pos = 3 := by
    have heq := congrArg Gateway.FlatPacket.pos hflat2
    simp only [flat, Gateway.FlatPacket.put, hpos, hthree] at heq
    exact heq
  have hinside2 : o2.packet.pos + (toLE 1 sequenceId.toNat).length ≤ o2.packet.capacity := by
    rw [hone, hpos2, hcap2]
    show 3 + 1 ≤ pk.capacity
    omega
  obtain ⟨o3, hop3, hsound3, -, hflat3, -⟩ := putByte_inside hsound2 hapart2 hinside2
  have hnumber : u32 (pk.size + 2 ^ 32 - 4) = o.packet.size - 4 := by
    unfold u32
    omega
  refine ⟨o3, ?_, ?_⟩
  · simp only [PacketOut.writeHead, bind, StateT.bind, Except.bind, hop, get, getThe,
      MonadStateOf.get, StateT.get, pure, Except.pure, hnumber, hop2, hop3]
  · have hbytes : bytesOf o.pool.mem pk.data = bytesOf o.pool.mem o.packet.data :=
      bytesOf_of_region_eq _ hregion
    have hlength : (bytesOf o.pool.mem o.packet.data).length = o.packet.capacity := by
      rw [length_bytesOf, h.capacity]
    have hsingle : toLE 1 sequenceId.toNat = [sequenceId] := by
      rw [toLE, UInt8.ofNat_toNat]
      rfl
    have hbytes2 := congrArg Gateway.FlatPacket.bytes hflat2
    have hsize2 := congrArg Gateway.FlatPacket.size hflat2
    simp only [flat, Gateway.FlatPacket.put, hpos, hthree, hbytes, hsize, List.append_nil,
      List.take_zero, List.nil_append, Nat.zero_add] at hbytes2 hsize2
    have hbytes3 := congrArg Gateway.FlatPacket.bytes hflat3
    have hsize3 := congrArg Gateway.FlatPacket.size hflat3
    simp only [flat, Gateway.FlatPacket.put, hpos2, hsingle, List.length_singleton, hbytes2,
      hsize2, List.append_nil] at hbytes3 hsize3
    rw [List.take_left' hthree, List.drop_append, hthree, List.drop_eq_nil_of_le (by omega),
      List.nil_append, List.drop_drop] at hbytes3
    have hall : o3.packet.size = o.packet.size := by
      rw [hsize3]
      omega
    rw [fetchData, Gateway.PacketOut.bytesOf_fetchChunks, hbytes3, hall, fetchData,
      Gateway.PacketOut.bytesOf_fetchChunks, List.append_assoc, List.take_append, hthree,
      List.take_of_length_le (by omega), List.drop_take]
    refine congrArg _ ?_
    rw [show o.packet.size - 3 = o.packet.size - 4 + 1 by omega]
    rfl

/-! ### Appending views in use -/

/-- `AppendData` behind a cursor in the last chunk, with views of what is in use. -/
theorem Filled.appendData {live : List RefMemoryChunk} {o : Out} {ws : List UInt8}
    (h : Filled live o ws) {ck : RefMemoryChunk} (hdrop : o.packet.data.drop o.packet.posY = [ck])
    (hpos : ck.pos ≠ 0) {data : List RefMemoryChunk} (hne : data ≠ [])
    (hnonempty : ∀ v ∈ data, 0 < v.count) (hapart : data.Pairwise Apart)
    (hlive : ∀ v ∈ data, ∃ w ∈ live, v.chunk = w.chunk) (hhead : 4 ≤ ws.length)
    (hlt : ws.length + total data < 2 ^ 32) :
    ∃ o', appendData data o = .ok o' ∧ Complete o' ∧ o'.packet.size = ws.length + total data ∧
      bytesOf o'.pool.mem (fetchData o'.packet) = ws ++ bytesOf o.pool.mem data := by
  obtain ⟨o', hop, hpool, hdata, hsize, hcap⟩ := appendData_eq h.sound hdrop hne
  obtain ⟨hcutapart, hcutne⟩ := cut_separate h.sound h.separate.apart hdrop
  have hnone : between o = [] := by
    rw [between, hdrop]
    simp only [if_neg hpos, bytesOf_nil]
  have hcut : bytesOf o.pool.mem (cut o ck) = ws := by
    rw [bytesOf_cut h.sound hdrop, hnone, List.append_nil, h.pos, h.bytes]
  have htotal : total (cut o ck) = ws.length := by
    rw [← length_bytesOf o.pool.mem, hcut]
  have hall : total (cut o ck ++ data) = ws.length + total data := by
    rw [total_append, htotal]
  have hsize' : o'.packet.size = ws.length + total data := by
    rw [hsize, h.size, h.pos, show u32 (ws.length + total data) = ws.length + total data from
      Nat.mod_eq_of_lt hlt]
    exact Nat.max_eq_right (Nat.le_add_right _ _)
  have hcap' : o'.packet.capacity = ws.length + total data := by
    rw [hcap, hall]
    exact Nat.mod_eq_of_lt hlt
  have hchunk : ∀ v ∈ cut o ck, ∃ u ∈ o.packet.data, u.chunk = v.chunk := by
    intro v hv
    rw [cut, if_neg hpos] at hv
    rcases List.mem_or_eq_of_mem_set hv with hv | rfl
    · exact ⟨v, hv, rfl⟩
    · refine ⟨ck, List.mem_of_mem_drop (i := o.packet.posY) ?_, rfl⟩
      rw [hdrop]
      exact List.mem_singleton_self ck
  refine ⟨o', hop, ⟨?_, ?_, ?_, ?_, ?_, ?_⟩, hsize', ?_⟩
  · rw [hdata]
    intro v hv
    rcases List.mem_append.mp hv with hv | hv
    · exact hcutne v hv
    · exact hnonempty v hv
  · rw [hdata]
    refine List.pairwise_append.mpr ⟨hcutapart, hapart, fun v hv w hw => Or.inl ?_⟩
    obtain ⟨u, hu, hvu⟩ := hchunk v hv
    obtain ⟨x, hx, hwx⟩ := hlive w hw
    rw [← hvu, hwx]
    exact h.beside.fresh u hu x hx
  · rw [hcap', hdata, hall]
  · rw [hcap']
    exact hlt
  · rw [hsize', hcap']
  · rw [hsize']
    omega
  · rw [fetchData, Gateway.PacketOut.bytesOf_fetchChunks, hpool, hdata, hsize', bytesOf_append,
      hcut, List.take_of_length_le]
    rw [List.length_append, length_bytesOf]

end PacketOut

end Jengine.Dbo.Internal
