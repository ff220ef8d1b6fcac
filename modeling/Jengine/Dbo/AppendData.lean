import Jengine.Dbo.VariableInteger

/-!
# Foreign chunks in a packet

The constructor of `PacketOut`, `WriteHead` and `AppendData` (`base/dbo_bk/internal/packet.h`,
`packet.cpp`).  `AppendData` cuts off the chunk the cursor is in and puts the foreign chunks
behind all chunks there are.  It is right where that chunk is the last one; where other chunks
follow, they stay between the bytes and what is appended, and where the cursor is behind all
chunks there is none to cut off.
-/

namespace Jengine.Dbo.Internal

open Jengine.Lib Jengine.Memory RefMemoryChunk
open Gateway (u32 Placed)

namespace PacketOut

open Gateway.PacketOut (Op Out Sound Separate Room flat aquireMemory putByte fetchData
  fetchChunks)

/-- The constructor; `sequence_id_` is kept apart. -/
def make (mempool : MemoryPool) (approxSize : Nat) : Except Gateway.Fault (Unit × Out) :=
  Gateway.PacketOut.skipTo 4 (aquireMemory ⟨mempool, Gateway.Packet.empty⟩
    (if approxSize < 20 then 20 else approxSize))

/-- `WriteHead`. -/
def writeHead (sequenceId : UInt8) : Op Unit := do
  Gateway.PacketOut.skipTo 0
  let o ← get
  putByte (toLE 3 (u32 (o.packet.size + 2 ^ 32 - 4)))
  putByte (toLE 1 sequenceId.toNat)

/-- One view of the loop of `AppendData`. -/
def pushBack (pk : Gateway.Packet) (v : RefMemoryChunk) : Gateway.Packet :=
  { pk with data := pk.data ++ [v], pos := u32 (pk.pos + v.count), posY := u32 (pk.posY + 1) }

/-- `AppendData`. -/
def appendData (data : List RefMemoryChunk) (o : Out) : Except Fault Out :=
  if data = [] then .ok o
  else
    match o.packet.data[o.packet.posY]? with
    | none => .error .outOfRange
    | some ck =>
        let pk :=
          if ck.pos = 0 then
            { o.packet with
              data := o.packet.data.dropLast
              posY := u32 (o.packet.posY + 2 ^ 32 - 1) }
          else
            { o.packet with
              data := o.packet.data.set o.packet.posY (ck.shrinkCount (ck.count - ck.pos)) }
        .ok { o with packet := (data.foldl pushBack pk).updateCapacity.updateSize }

/-- A packet after the constructor and any writes, in which the sums of the sizes have stayed
    below `2 ^ 32`. -/
inductive Written : Out → Prop
  | make {pool : MemoryPool} {approxSize : Nat} {o : Out} (inv : pool.Inv [])
      (chunksize : 0 < pool.chunksize)
      (size : pool.calculateChunkCount (u32 ((if approxSize < 20 then 20 else approxSize) + 10)) *
        pool.chunksize < 2 ^ 32)
      (hop : make pool approxSize = .ok ((), o)) : Written o
  | skipTo {o o' : Out} {pos : Nat} (h : Written o)
      (hop : Gateway.PacketOut.skipTo pos o = .ok ((), o')) : Written o'
  | putByte {o o' : Out} {src : List UInt8} (h : Written o) (room : Room o src)
      (hop : putByte src o = .ok ((), o')) : Written o'

/-! ### What the writes leave -/

theorem skipTo_le {o o' : Out} {pos : Nat} (h : Gateway.PacketOut.skipTo pos o = .ok ((), o')) :
    pos ≤ o.packet.capacity := by
  by_contra hnot
  simp only [Gateway.PacketOut.skipTo, Gateway.Packet.skipTo, if_neg hnot, bind, Except.bind] at h
  cases h

/-- The invariant of the writes; the head is part of every packet. -/
theorem Written.sound {o : Out} (h : Written o) :
    Sound o ∧ Separate o ∧ 4 ≤ o.packet.size := by
  -- what a `SkipTo` that returns has kept
  have hskip : ∀ {o o' : Out} {pos : Nat}, Sound o → Separate o →
      Gateway.PacketOut.skipTo pos o = .ok ((), o') →
      Sound o' ∧ Separate o' ∧ o'.packet.size = max o.packet.size pos := by
    intro o o' pos hsound hsep hop
    obtain ⟨o1, hop1, hsound1, hflat, hpool, hregion⟩ := hsound.skipTo (skipTo_le hop)
    rw [hop1] at hop
    obtain rfl : o1 = o' := congrArg Prod.snd (Except.ok.inj hop)
    have hsep1 := hsep.of_region_eq (m := o1.pool.mem) hregion
    rw [← hpool] at hsep1
    exact ⟨hsound1, hsep1, congrArg Gateway.FlatPacket.size hflat⟩
  induction h with
  | @make pool approxSize o inv chunksize size hop =>
      have hfit : Gateway.Packet.empty.capacity + pool.calculateChunkCount
          (u32 ((if approxSize < 20 then 20 else approxSize) + 10)) * pool.chunksize < 2 ^ 32 := by
        rw [show Gateway.Packet.empty.capacity = 0 from rfl, Nat.zero_add]
        exact size
      obtain ⟨extra, hsound, hsep, -⟩ := (Gateway.PacketOut.sound_empty pool).aquire
        ⟨inv, List.Pairwise.nil, chunksize⟩ hfit
      obtain ⟨hsound', hsep', hsize⟩ := hskip hsound hsep hop
      exact ⟨hsound', hsep', hsize ▸ Nat.le_max_right _ _⟩
  | skipTo h hop ih =>
      obtain ⟨hsound, hsep, hsize⟩ := hskip ih.1 ih.2.1 hop
      exact ⟨hsound, hsep, hsize ▸ Nat.le_trans ih.2.2 (Nat.le_max_left _ _)⟩
  | putByte h room hop ih =>
      obtain ⟨o1, extra, hop1, hsound, hsep, -, hflat⟩ := ih.1.putByte ih.2.1 room
      rw [hop1] at hop
      obtain rfl := congrArg Prod.snd (Except.ok.inj hop)
      have hsize := congrArg Gateway.FlatPacket.size hflat
      refine ⟨hsound, hsep, Nat.le_trans ih.2.2 (Nat.le_trans (Nat.le_max_left _ _) hsize.ge)⟩

/-! ### Writing into the chunks of the packet -/

/-- The loop of `PutByte` does not get beyond the chunks that have the room. -/
theorem writeChunks_append (m : Bytes) (src : List UInt8) (xs ys : List RefMemoryChunk)
    (hfit : src.length ≤ (unreadOf m xs).length) :
    Gateway.writeChunks m src (xs ++ ys) =
      ((Gateway.writeChunks m src xs).1, (Gateway.writeChunks m src xs).2.1 ++ ys,
        (Gateway.writeChunks m src xs).2.2) := by
  induction xs generalizing m src with
  | nil =>
      obtain rfl : src = [] := List.length_eq_zero_iff.mp (Nat.le_zero.mp hfit)
      rw [List.nil_append, Gateway.writeChunks_nil]
      rfl
  | cons v xs ih =>
      rw [unreadOf_cons, List.length_append, length_unread] at hfit
      by_cases hsrc : src = []
      · rw [hsrc, Gateway.writeChunks_nil, Gateway.writeChunks_nil]
      · by_cases hle : v.freeCount ≤ src.length
        · have hrest : (src.drop v.freeCount).length ≤ (unreadOf (v.write m src).1 xs).length := by
            have hlen : ∀ m' : Bytes, (unreadOf m' xs).length = (unreadOf m xs).length := by
              intro m'
              simp only [unreadOf, List.length_flatMap, length_unread]
            rw [List.length_drop, hlen]
            omega
          rw [List.cons_append, Gateway.writeChunks_cons_used m _ hsrc hle,
            Gateway.writeChunks_cons_used m _ hsrc hle, ih _ _ hrest]
          rfl
        · rw [List.cons_append, Gateway.writeChunks_cons_inside m _ hsrc (by omega),
            Gateway.writeChunks_cons_inside m _ hsrc (by omega)]
          rfl

/-- The packet with further views behind its own. -/
def extend (o : Out) (views : List RefMemoryChunk) (size capacity : Nat) : Out :=
  ⟨o.pool, ⟨o.packet.data ++ views, size, o.packet.pos, o.packet.posY, capacity⟩⟩

/-- `PutByte` into the packet's own chunks leaves the further views. -/
theorem putByte_extend {o : Out} (h : Sound o) (hapart : o.packet.data.Pairwise Apart)
    {src : List UInt8} (hroom : o.packet.pos + src.length ≤ o.packet.capacity)
    (views : List RefMemoryChunk) (size : Nat) {capacity : Nat}
    (hle : o.packet.capacity ≤ capacity) (hlt : capacity < 2 ^ 32) :
    ∃ o', Sound o' ∧ o'.packet.data.Pairwise Apart ∧ flat o' = (flat o).put [] src ∧
      o'.packet.capacity = o.packet.capacity ∧
      putByte src (extend o views size capacity) =
        .ok ((), extend o' views (max size (o.packet.pos + src.length)) capacity) := by
  obtain ⟨hsound, hregion, hflat⟩ := h.write hapart hroom
  have hu : u32 (o.packet.pos + src.length) = o.packet.pos + src.length :=
    Nat.mod_eq_of_lt (by omega)
  have hgrow : Gateway.PacketOut.grow (2 ^ 32) src.length (extend o views size capacity) =
      .ok (extend o views size capacity) := by
    rw [show 2 ^ 32 = 4294967295 + 1 from rfl, Gateway.PacketOut.grow]
    refine if_neg ?_
    show ¬ capacity < u32 (o.packet.pos + src.length)
    omega
  have hfit : src.length ≤ (unreadOf o.pool.mem (o.packet.data.drop o.packet.posY)).length := by
    have hcap := h.placed.capacity
    rw [(h.placed.split o.pool.mem).2, List.length_drop, length_bytesOf]
    omega
  have hdrop : (o.packet.data ++ views).drop o.packet.posY =
      o.packet.data.drop o.packet.posY ++ views := List.drop_append_of_le_length h.placed.posY_le
  have htake : (o.packet.data ++ views).take o.packet.posY = o.packet.data.take o.packet.posY :=
    List.take_append_of_le_length h.placed.posY_le
  have hwrite := writeChunks_append o.pool.mem src (o.packet.data.drop o.packet.posY) views hfit
  have hmax := Gateway.updateSize_eq
    { (extend o views size capacity).packet with pos := o.packet.pos + src.length }
  refine ⟨_, hsound, Gateway.apart_of_region_eq hregion hapart, hflat, rfl, ?_⟩
  simp only [putByte, hgrow, bind, Except.bind, pure, Except.pure]
  simp only [extend, hu] at hmax ⊢
  simp only [hmax, hdrop, htake, hwrite, List.append_assoc]

/-- `SkipTo(0)`: the packet's own chunks and the further views, all at their start. -/
theorem skipTo_zero {o : Out} {own views : List RefMemoryChunk}
    (hdata : o.packet.data = own ++ views) (hne : ∀ v ∈ own, 0 < v.count)
    (hlt : total own < 2 ^ 32) :
    ∃ o' views', Sound o' ∧ o'.packet.data.map region = own.map region ∧ o'.packet.pos = 0 ∧
      o'.packet.capacity = total own ∧
      Gateway.PacketOut.skipTo 0 o =
        .ok ((), extend o' views' o.packet.size o.packet.capacity) := by
  obtain ⟨-, -, hregion⟩ := Gateway.skipChunks_spec o.pool.mem o.packet.data 0 (Nat.zero_le _)
  have hy := Gateway.skipChunks_zero o.packet.data
  have hfresh := @Gateway.skipChunks_zero_fresh o.packet.data
  rcases hr : Gateway.Packet.skipChunks 0 o.packet.data with ⟨r, y⟩
  rw [hr] at hregion hy hfresh
  simp only at hregion hy hfresh
  have hown : (r.take own.length).map region = own.map region := by
    rw [List.map_take, hregion, hdata, List.map_append,
      List.take_append_of_le_length (List.length_map region).ge, ← List.map_take, List.take_length]
  have hfresh' : ∀ v ∈ r.take own.length, v.pos = 0 :=
    fun v hv => hfresh v (List.mem_of_mem_take hv)
  have hne' := Gateway.nonempty_of_region_eq hown hne
  have htotal := Gateway.total_of_region_eq hown
  refine ⟨⟨o.pool, ⟨r.take own.length, total own, 0, 0, total own⟩⟩, r.drop own.length,
    ⟨⟨fun v hv => absurd hv List.not_mem_nil, Gateway.Open.of_fresh hfresh' hne', Nat.zero_le _,
      Gateway.sum_pos_of_fresh hfresh', htotal.symm, Nat.zero_le _, Nat.le_refl _⟩, hne', hlt⟩,
    hown, rfl, rfl, ?_⟩
  have hmax := Gateway.updateSize_eq { o.packet with pos := 0 }
  rw [Nat.max_eq_left (Nat.zero_le _)] at hmax
  simp only [Gateway.PacketOut.skipTo, Gateway.Packet.skipTo, if_pos (Nat.zero_le _), hr, hmax,
    bind, Except.bind, pure, Except.pure, extend, List.take_append_drop, hy]

/-- `WriteHead` on a packet whose first four bytes are in its own chunks. -/
theorem writeHead_spec {o : Out} {own views : List RefMemoryChunk}
    (hdata : o.packet.data = own ++ views) (hne : ∀ v ∈ own, 0 < v.count)
    (hapart : own.Pairwise Apart) (hown : 4 ≤ total own) (hle : total own ≤ o.packet.capacity)
    (hcap : o.packet.capacity < 2 ^ 32) (hsize : 4 ≤ o.packet.size)
    (hsize' : o.packet.size < 2 ^ 32) (sequenceId : UInt8) :
    ∃ o', writeHead sequenceId o = .ok ((), o') ∧
      (bytesOf o'.pool.mem (fetchData o'.packet)).take 3 = toLE 3 (o.packet.size - 4) := by
  have hnumber : u32 (o.packet.size + 2 ^ 32 - 4) = o.packet.size - 4 := by
    unfold u32
    omega
  obtain ⟨o1, views', hsound1, hregion1, hpos1, hcap1, hop1⟩ :=
    skipTo_zero hdata hne (by omega)
  have hapart1 := Gateway.apart_of_region_eq hregion1 hapart
  have hlen3 : (toLE 3 (o.packet.size - 4)).length = 3 := length_toLE _ _
  obtain ⟨o2, hsound2, hapart2, hflat2, hcap2, hop2⟩ := putByte_extend hsound1 hapart1
    (show o1.packet.pos + (toLE 3 (o.packet.size - 4)).length ≤ o1.packet.capacity by omega) views'
    o.packet.size (show o1.packet.capacity ≤ o.packet.capacity by omega) hcap
  have hpos2 : o2.packet.pos = 3 := by
    have hpos := congrArg Gateway.FlatPacket.pos hflat2
    simp only [flat, Gateway.FlatPacket.put, hpos1, hlen3, Nat.zero_add] at hpos
    exact hpos
  obtain ⟨o3, -, -, hflat3, -, hop3⟩ := putByte_extend hsound2 hapart2
    (show o2.packet.pos + (toLE 1 sequenceId.toNat).length ≤ o2.packet.capacity by
      rw [length_toLE]
      omega) views'
    (max o.packet.size (o1.packet.pos + (toLE 3 (o.packet.size - 4)).length))
    (show o2.packet.capacity ≤ o.packet.capacity by omega) hcap
  have hhead : writeHead sequenceId o = putByte (toLE 1 sequenceId.toNat) (extend o2 views'
      (max o.packet.size (o1.packet.pos + (toLE 3 (o.packet.size - 4)).length))
      o.packet.capacity) := by
    have hsame : (extend o1 views' o.packet.size o.packet.capacity).packet.size =
        o.packet.size := rfl
    simp only [writeHead, bind, StateT.bind, Except.bind, hop1, get, getThe, MonadStateOf.get,
      StateT.get, pure, Except.pure, hsame, hnumber, hop2]
  rw [hop3] at hhead
  refine ⟨_, hhead, ?_⟩
  have hbytes2 := congrArg Gateway.FlatPacket.bytes hflat2
  have hbytes3 := congrArg Gateway.FlatPacket.bytes hflat3
  simp only [Gateway.FlatPacket.put, flat, hpos1, hpos2, hlen3, List.append_nil, List.take_zero,
    List.nil_append, Nat.zero_add, length_toLE] at hbytes2 hbytes3
  have htake : (bytesOf o2.pool.mem o2.packet.data).take 3 = toLE 3 (o.packet.size - 4) := by
    rw [hbytes2, List.take_left' hlen3]
  have hfront : (bytesOf o3.pool.mem o3.packet.data).take 3 = toLE 3 (o.packet.size - 4) := by
    rw [hbytes3, htake, List.append_assoc, List.take_left' hlen3]
  have hlong : 3 ≤ (bytesOf o3.pool.mem o3.packet.data).length := by
    have hlen := congrArg List.length hfront
    rw [List.length_take, hlen3] at hlen
    omega
  rw [fetchData, Gateway.PacketOut.bytesOf_fetchChunks]
  simp only [extend, bytesOf_append]
  rw [List.take_take, Nat.min_eq_left (by omega), List.take_append_of_le_length hlong, hfront]

/-! ### What is appended -/

/-- The chunks that are left when the chunk `ck` at the cursor has been cut off. -/
def cut (o : Out) (ck : RefMemoryChunk) : List RefMemoryChunk :=
  if ck.pos = 0 then o.packet.data.dropLast
  else o.packet.data.set o.packet.posY (ck.shrinkCount (ck.count - ck.pos))

/-- The bytes that stay between those before the cursor and what is appended. -/
def between (o : Out) : List UInt8 :=
  match o.packet.data.drop o.packet.posY with
  | [] => []
  | ck :: spare =>
      if ck.pos = 0 then bytesOf o.pool.mem (ck :: spare).dropLast else bytesOf o.pool.mem spare

/-- `AppendData` does what it is for: the bytes are put behind those there are, and the head gets
    the length of all. -/
def Appended (sequenceId : UInt8) (o : Out) (data : List RefMemoryChunk) : Prop :=
  ∃ o', appendData data o = .ok o' ∧
    bytesOf o'.pool.mem (fetchData o'.packet) =
      bytesOf o.pool.mem (fetchData o.packet) ++ bytesOf o.pool.mem data ∧
    (o.packet.size + total data < 2 ^ 24 → ∃ o'', writeHead sequenceId o' = .ok ((), o'') ∧
      (bytesOf o''.pool.mem (fetchData o''.packet)).take 3 =
        toLE 3 (o.packet.size + total data - 4))

theorem foldl_pushBack (data : List RefMemoryChunk) (pk : Gateway.Packet)
    (h : pk.pos < 2 ^ 32) :
    (data.foldl pushBack pk).data = pk.data ++ data ∧
      (data.foldl pushBack pk).pos = u32 (pk.pos + total data) ∧
      (data.foldl pushBack pk).size = pk.size := by
  induction data generalizing pk with
  | nil => exact ⟨(List.append_nil _).symm, (Nat.mod_eq_of_lt h).symm, rfl⟩
  | cons v data ih =>
      obtain ⟨hdata, hpos, hsize⟩ := ih (pushBack pk v) (Nat.mod_lt _ (by decide))
      refine ⟨?_, ?_, hsize⟩
      · rw [List.foldl_cons, hdata]
        exact List.append_assoc _ _ _
      · rw [List.foldl_cons, hpos, total_cons]
        show u32 (u32 (pk.pos + v.count) + total data) = _
        simp only [u32, Nat.mod_add_mod, Nat.add_assoc]

section

variable {o : Out} {ck : RefMemoryChunk} {spare : List RefMemoryChunk}

/-- The chunks that are left, in the two cases. -/
theorem cut_eq (hdrop : o.packet.data.drop o.packet.posY = ck :: spare) :
    cut o ck = o.packet.data.take o.packet.posY ++
      if ck.pos = 0 then (ck :: spare).dropLast
      else ck.shrinkCount (ck.count - ck.pos) :: spare := by
  have hlt : o.packet.posY < o.packet.data.length := by
    have hlen := congrArg List.length hdrop
    rw [List.length_drop, List.length_cons] at hlen
    omega
  unfold cut
  split
  · conv_lhs => rw [← List.take_append_drop o.packet.posY o.packet.data, hdrop]
    exact List.dropLast_append_of_ne_nil (List.cons_ne_nil _ _)
  · rw [List.set_eq_take_append_cons_drop, if_pos hlt, ← List.drop_drop (i := 1), hdrop]
    rfl

/-- The bytes of the chunks that are left. -/
theorem bytesOf_cut (h : Sound o) (hdrop : o.packet.data.drop o.packet.posY = ck :: spare) :
    bytesOf o.pool.mem (cut o ck) =
      (bytesOf o.pool.mem o.packet.data).take o.packet.pos ++ between o := by
  have hopen := h.placed.cursor
  rw [hdrop] at hopen
  rw [cut_eq hdrop, ← (h.placed.split o.pool.mem).1, bytesOf_append, List.append_assoc, between,
    hdrop]
  refine congrArg _ ?_
  simp only [Gateway.front]
  split
  · rename_i hzero
    rw [hzero, List.take_zero, List.nil_append]
  · rw [bytesOf_cons, bytes_shrinkCount _ _ (Nat.le_of_lt hopen.1)]

/-- They are as separate as the chunks of the packet, and none is empty. -/
theorem cut_separate (h : Sound o) (hapart : o.packet.data.Pairwise Apart)
    (hdrop : o.packet.data.drop o.packet.posY = ck :: spare) :
    (cut o ck).Pairwise Apart ∧ (∀ v ∈ cut o ck, 0 < v.count) := by
  have hsplit := List.take_append_drop o.packet.posY o.packet.data
  rw [hdrop] at hsplit
  have hne := h.nonempty
  rw [← hsplit] at hapart hne
  rw [cut_eq hdrop]
  split
  · have hsub : (o.packet.data.take o.packet.posY ++ (ck :: spare).dropLast).Sublist
        (o.packet.data.take o.packet.posY ++ ck :: spare) :=
      (List.dropLast_sublist _).append_left _
    exact ⟨hapart.sublist hsub, fun v hv => hne v (hsub.subset hv)⟩
  · rename_i hpos
    have hwithin := within_shrinkCount ck (ck.count - ck.pos)
    obtain ⟨hbefore, hbehind, hcross⟩ := List.pairwise_append.mp hapart
    obtain ⟨hck, hspare⟩ := List.pairwise_cons.mp hbehind
    have hopen := h.placed.cursor
    rw [hdrop] at hopen
    refine ⟨List.pairwise_append.mpr ⟨hbefore, List.pairwise_cons.mpr ⟨?_, hspare⟩, ?_⟩, ?_⟩
    · exact fun w hw => (hck w hw).within hwithin
    · intro v hv w hw
      rcases List.mem_cons.mp hw with rfl | hw
      · exact ((hcross v hv ck List.mem_cons_self).symm.within hwithin).symm
      · exact hcross v hv w (List.mem_cons_of_mem ck hw)
    · intro v hv
      rcases List.mem_append.mp hv with hv | hv
      · exact hne v (List.mem_append_left _ hv)
      · rcases List.mem_cons.mp hv with rfl | hv
        · have hlt := hopen.1
          show 0 < ck.count - (ck.count - ck.pos)
          omega
        · exact hne v (List.mem_append_right _ (List.mem_cons_of_mem ck hv))

theorem total_cut_le (hdrop : o.packet.data.drop o.packet.posY = ck :: spare) :
    total (cut o ck) ≤ total o.packet.data := by
  have hsplit := congrArg total (List.take_append_drop o.packet.posY o.packet.data)
  rw [hdrop, total_append] at hsplit
  rw [cut_eq hdrop, ← hsplit, total_append]
  refine Nat.add_le_add_left ?_ _
  split
  · have hlast := congrArg total (List.dropLast_append_getLast (List.cons_ne_nil ck spare))
    rw [total_append] at hlast
    omega
  · rw [total_cons, total_cons]
    exact Nat.add_le_add_right (Nat.sub_le _ _) _

/-- What `AppendData` leaves where the cursor is in a chunk. -/
theorem appendData_eq (h : Sound o) (hdrop : o.packet.data.drop o.packet.posY = ck :: spare)
    {data : List RefMemoryChunk} (hne : data ≠ []) :
    ∃ o', appendData data o = .ok o' ∧ o'.pool = o.pool ∧ o'.packet.data = cut o ck ++ data ∧
      o'.packet.size = max o.packet.size (u32 (o.packet.pos + total data)) ∧
      o'.packet.capacity = u32 (total (cut o ck ++ data)) := by
  have hlt : o.packet.pos < 2 ^ 32 :=
    Nat.lt_of_le_of_lt (Nat.le_trans h.placed.pos_le h.placed.size_le) h.capacity_lt
  have hget : o.packet.data[o.packet.posY]? = some ck := by
    rw [← List.head?_drop, hdrop, List.head?_cons]
  let pk : Gateway.Packet := if ck.pos = 0 then
      { o.packet with data := o.packet.data.dropLast, posY := u32 (o.packet.posY + 2 ^ 32 - 1) }
    else { o.packet with
      data := o.packet.data.set o.packet.posY (ck.shrinkCount (ck.count - ck.pos)) }
  have hpk : pk.data = cut o ck ∧ pk.pos = o.packet.pos ∧ pk.size = o.packet.size := by
    simp only [pk, cut]
    split <;> exact ⟨rfl, rfl, rfl⟩
  obtain ⟨hdata, hpos, hsize⟩ := foldl_pushBack data pk (by rw [hpk.2.1]; exact hlt)
  rw [hpk.1] at hdata
  rw [hpk.2.1] at hpos
  rw [hpk.2.2] at hsize
  have hop : appendData data o =
      .ok { o with packet := (data.foldl pushBack pk).updateCapacity.updateSize } := by
    simp only [appendData, if_neg hne, hget]
    rfl
  rw [Gateway.updateSize_eq] at hop
  refine ⟨_, hop, rfl, hdata, ?_, ?_⟩
  · show max (data.foldl pushBack pk).size (data.foldl pushBack pk).pos = _
    rw [hsize, hpos]
  · show u32 (total (data.foldl pushBack pk).data) = _
    rw [hdata]

end

/-- Nothing is appended. -/
theorem appended_nil {o : Out} (h : Written o) (sequenceId : UInt8) :
    Appended sequenceId o [] := by
  obtain ⟨hsound, hsep, hsize⟩ := h.sound
  have hcap := hsound.placed.capacity
  have hle := hsound.placed.size_le
  have hlt := hsound.capacity_lt
  refine ⟨o, if_pos rfl, (List.append_nil _).symm, fun _ => ?_⟩
  exact writeHead_spec (List.append_nil _).symm hsound.nonempty hsep.apart (by omega) hcap.ge hlt
    hsize (by omega) sequenceId

/-- **`AppendData` is right iff there is a chunk to cut off, the size fits, and what stays between
    reads like what is appended**: so it is where nothing stays between, in the last chunk.

    Where unwritten chunks do stay between, their sum with what is appended is below `2 ^ 32`,
    too, if the size is. -/
theorem appended_iff {o : Out} (h : Written o) (hend : o.packet.pos = o.packet.size)
    (sequenceId : UInt8) (data : List RefMemoryChunk)
    (hspare : between o ≠ [] → o.packet.size + total data < 2 ^ 32 →
      o.packet.capacity + total data < 2 ^ 32) :
    Appended sequenceId o data ↔ data = [] ∨
      (o.packet.posY < o.packet.data.length ∧ o.packet.size + total data < 2 ^ 32 ∧
        (between o ++ bytesOf o.pool.mem data).take (total data) = bytesOf o.pool.mem data) := by
  obtain ⟨hsound, hsep, hsize⟩ := h.sound
  have hle := hsound.placed.size_le
  have hlt := hsound.capacity_lt
  have hcapacity := hsound.placed.capacity
  by_cases hdata : data = []
  · subst hdata
    exact ⟨fun _ => Or.inl rfl, fun _ => appended_nil h sequenceId⟩
  rw [or_iff_right hdata]
  rcases hdrop : o.packet.data.drop o.packet.posY with _ | ⟨ck, spare⟩
  · -- The cursor is behind all chunks.
    have hend' : o.packet.data.length ≤ o.packet.posY := List.drop_eq_nil_iff.mp hdrop
    refine ⟨?_, fun hcond => absurd hcond.1 (not_lt.mpr hend')⟩
    rintro ⟨o', hop, -⟩
    rw [appendData, if_neg hdata, List.getElem?_eq_none hend'] at hop
    cases hop
  · have hinside : o.packet.posY < o.packet.data.length := by
      by_contra hnot
      rw [List.drop_eq_nil_iff.mpr (not_lt.mp hnot)] at hdrop
      cases hdrop
    obtain ⟨o', hop, hpool, hdata', hsize', hcap'⟩ := appendData_eq hsound hdrop hdata
    have hbefore : bytesOf o.pool.mem (fetchData o.packet) =
        (bytesOf o.pool.mem o.packet.data).take o.packet.size :=
      Gateway.PacketOut.bytesOf_fetchChunks _ _ _
    have hlen : ((bytesOf o.pool.mem o.packet.data).take o.packet.size).length =
        o.packet.size := by
      rw [List.length_take, length_bytesOf]
      omega
    have hafter : bytesOf o'.pool.mem (fetchData o'.packet) =
        ((bytesOf o.pool.mem o.packet.data).take o.packet.size ++ (between o ++
          bytesOf o.pool.mem data)).take o'.packet.size := by
      rw [hpool, fetchData, Gateway.PacketOut.bytesOf_fetchChunks, hdata', bytesOf_append,
        bytesOf_cut hsound hdrop, hend, List.append_assoc]
    have hcut : total (cut o ck) = o.packet.size + (between o).length := by
      rw [← length_bytesOf o.pool.mem, bytesOf_cut hsound hdrop, hend, List.length_append, hlen]
    constructor
    · rintro ⟨o1, hop1, hfetch, -⟩
      obtain rfl : o' = o1 := Except.ok.inj (hop.symm.trans hop1)
      rw [hafter, hbefore] at hfetch
      have hfits : o.packet.size + total data < 2 ^ 32 := by
        have hcount := congrArg List.length hfetch
        have hu : u32 (o.packet.pos + total data) < 2 ^ 32 := Nat.mod_lt _ (by decide)
        rw [List.length_append, hlen, length_bytesOf, List.length_take] at hcount
        omega
      have hu : u32 (o.packet.pos + total data) = o.packet.size + total data := by
        rw [hend]
        exact Nat.mod_eq_of_lt hfits
      refine ⟨hinside, hfits, ?_⟩
      rw [hsize', hu, Nat.max_eq_right (Nat.le_add_right _ _), List.take_append, hlen,
        List.take_of_length_le (by omega), Nat.add_sub_cancel_left] at hfetch
      exact List.append_cancel_left hfetch
    · rintro ⟨-, hfits, hbetween⟩
      have hu : u32 (o.packet.pos + total data) = o.packet.size + total data := by
        rw [hend]
        exact Nat.mod_eq_of_lt hfits
      rw [hu, Nat.max_eq_right (Nat.le_add_right _ _)] at hsize'
      refine ⟨o', hop, ?_, fun _ => ?_⟩
      · rw [hafter, hbefore, hsize', List.take_append, hlen, List.take_of_length_le (by omega),
          Nat.add_sub_cancel_left, hbetween]
      · obtain ⟨hapart, hne⟩ := cut_separate hsound hsep.apart hdrop
        have htotal : total (cut o ck ++ data) < 2 ^ 32 := by
          rw [total_append, hcut]
          by_cases hnil : between o = []
          · rw [hnil, List.length_nil]
            omega
          · have hroom := hspare hnil hfits
            have hshort := total_cut_le hdrop
            omega
        rw [show u32 (total (cut o ck ++ data)) = total (cut o ck ++ data) from
          Nat.mod_eq_of_lt htotal] at hcap'
        have hhead := writeHead_spec hdata' hne hapart (by omega)
          (by rw [hcap', total_append]; omega) (by rw [hcap']; exact htotal)
          (by rw [hsize']; omega) (by rw [hsize']; exact hfits) sequenceId
        rwa [hsize'] at hhead

/-- A new packet in chunks of `chunksize` bytes. -/
def started (chunksize : Nat) : Out :=
  match make (MemoryPool.emptyPool chunksize) 20 with
  | .ok (_, o) => o
  | .error _ => ⟨MemoryPool.emptyPool chunksize, Gateway.Packet.empty⟩

/-- Some bytes have been written to it. -/
def filled (chunksize : Nat) (src : List UInt8) : Out :=
  match putByte src (started chunksize) with
  | .ok (_, o) => o
  | .error _ => started chunksize

theorem written_filled_sixty : Written (filled 60 [1, 2, 3]) := by
  have hmade : make (MemoryPool.emptyPool 60) 20 = .ok ((), started 60) := rfl
  have hput : putByte [1, 2, 3] (started 60) = .ok ((), filled 60 [1, 2, 3]) := rfl
  exact .putByte (.make (MemoryPool.emptyPool_inv 60) (by decide) (by decide) hmade)
    ⟨by decide, by decide, by decide⟩ hput

/-- The cursor is in the only chunk. -/
theorem appended_iff_sixty :
    Written (filled 60 [1, 2, 3]) ∧
      (Appended 0 (filled 60 [1, 2, 3]) [⟨5, 0, 0, 8⟩] ↔ [(⟨5, 0, 0, 8⟩ : RefMemoryChunk)] = [] ∨
        ((filled 60 [1, 2, 3]).packet.posY < (filled 60 [1, 2, 3]).packet.data.length ∧
          (filled 60 [1, 2, 3]).packet.size + total [⟨5, 0, 0, 8⟩] < 2 ^ 32 ∧
          (between (filled 60 [1, 2, 3]) ++ bytesOf (filled 60 [1, 2, 3]).pool.mem
            [⟨5, 0, 0, 8⟩]).take (total [⟨5, 0, 0, 8⟩]) =
              bytesOf (filled 60 [1, 2, 3]).pool.mem [⟨5, 0, 0, 8⟩])) :=
  ⟨written_filled_sixty,
    appended_iff written_filled_sixty rfl 0 [⟨5, 0, 0, 8⟩] fun hne => absurd rfl hne⟩

/-- 26 bytes behind the head fill the chunk of 30 bytes, and the cursor is behind it. -/
theorem not_appended_full : ¬ ∀ (o : Out) (sequenceId : UInt8) (data : List RefMemoryChunk),
    Written o → o.packet.pos = o.packet.size → (∀ v ∈ data, 0 < v.count) →
    Appended sequenceId o data := by
  intro h
  have hmade : make (MemoryPool.emptyPool 30) 20 = .ok ((), started 30) := rfl
  have hput : putByte (List.replicate 26 1) (started 30) =
      .ok ((), filled 30 (List.replicate 26 1)) := rfl
  have hwritten : Written (filled 30 (List.replicate 26 1)) :=
    .putByte (.make (MemoryPool.emptyPool_inv 30) (by decide) (by decide) hmade)
      ⟨by decide, by decide, by decide⟩ hput
  obtain ⟨o', hop, -⟩ := h _ 0 [⟨5, 0, 0, 8⟩] hwritten rfl (by decide)
  have hnone : (filled 30 (List.replicate 26 1)).packet.data[
      (filled 30 (List.replicate 26 1)).packet.posY]? = none := rfl
  rw [appendData, if_neg (by decide), hnone] at hop
  cases hop

end PacketOut

end Jengine.Dbo.Internal
