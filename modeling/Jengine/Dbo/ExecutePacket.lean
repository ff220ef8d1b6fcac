import Jengine.Dbo.PreparedStatement

/-!
# The packet that executes a prepared statement

`HandlePrepareFinish` (`base/dbo_bk/preparedstatement.cpp`) and `RealConnection::Send`.  The
statement's id, the bitmap and the types are written to a new packet, and the chunks of the
values are appended to it.  The pool is the one that the packet of the values grew from, after
whatever else has used it.

The bitmap fails where the first of eight parameters is null.  `AppendData` fails where what is
in front of the values fills its chunks, since the cursor is behind them then.
-/

namespace Jengine.Dbo.Internal

open Jengine.Lib Jengine.Memory RefMemoryChunk
open Gateway.PacketOut (Op Out putByte fetchData fetchChunks)
open PacketOut (Beside Filled Pieces pieces_putByte pieces_forM)

/-- What `PushSend` is given: views, and the pool whose chunks they map. -/
structure Pushed where
  pool : MemoryPool
  data : List RefMemoryChunk

def Pushed.bytes (p : Pushed) : List UInt8 := bytesOf p.pool.mem p.data

/-- `RealConnection::Send`. -/
def send (sequenceId : UInt8) (pktout : Out) : Except Fault Pushed := do
  let pktout ← liftPacket (PacketOut.writeHead sequenceId pktout)
  return ⟨pktout.pool, fetchData pktout.packet⟩

namespace PreparedStatement

/-- What `HandlePrepareFinish` writes first. -/
def writeExecute (md : PreparedStatementMetadata) (cursorFlag : UInt8) : Op Unit := do
  putByte (toLE 1 0x17)
  putByte (toLE 4 md.statementId.toNat)
  putByte (toLE 1 cursorFlag.toNat)
  putByte (toLE 4 1)

/-- The bitmap, and the types with their flag. -/
def writeParams (st : PreparedStatement) : Op Unit := do
  PacketOut.writeFixedString st.bitmap
  putByte (toLE 1 1)
  st.paramsType.forM fun type => putByte (toLE 2 type.toNat)

/-- `HandlePrepareFinish`; the sequence number has been reset. -/
def handlePrepareFinish (mempool : MemoryPool) (md : PreparedStatementMetadata)
    (st : PreparedStatement) : Except Fault Pushed :=
  if md.numColumns.toNat ≠ md.columnsDef.length then .error .assertion
  else if md.numParams.toNat ≠ md.paramsDef.length then .error .assertion
  else if md.numParams.toUInt32 ≠ st.paramsIdx then
    .error (.exception "dbo: param size missmatch!")
  else do
    let pktout ← liftPacket (PacketOut.make mempool 100)
    let pktout ← liftPacket (writeExecute md st.cursorFlag pktout)
    if 0 < md.numParams then
      let st := st.ensureParamBitmapCapacity
      let pktout ← liftPacket (writeParams st pktout)
      let pktout ← PacketOut.appendData (fetchData st.params.packet) pktout
      send 0 pktout
    else
      let pktout ← liftPacket (putByte (toLE 1 0) pktout)
      send 0 pktout

end PreparedStatement

/-- The statement of the metadata has `n` parameters, and their definitions have been received. -/
structure PreparedFor (n : Nat) (md : PreparedStatementMetadata) : Prop where
  numParams : md.numParams.toNat = n
  paramsDef : md.paramsDef.length = n
  columnsDef : md.columnsDef.length = md.numColumns.toNat

/-- What is in front of the bitmap. -/
def executeHead (md : PreparedStatementMetadata) (cursorFlag : UInt8) : List UInt8 :=
  [0x17] ++ toLE 4 md.statementId.toNat ++ [cursorFlag] ++ [1, 0, 0, 0]

/-- The types, as they are sent. -/
def typeBytes (calls : List Param) : List UInt8 := calls.flatMap fun p => toLE 2 p.type.toNat

/-- The packet has the bitmap of the nulls among the parameters, their types, and the other
    values; without parameters it has none of them.  The packet of the values has four bytes at
    least, so less than four of values are followed by what happens to be there. -/
def Carries (md : PreparedStatementMetadata) (cursorFlag : UInt8) (calls : List Param)
    (bytes : List UInt8) : Prop :=
  ∃ bitmap stale payload, bitmap.length = (calls.length + 7) / 8 ∧
    (∀ i, bitAt bitmap i = true ↔ calls[i]? = some .null) ∧
    stale.length = 4 - (calls.flatMap Param.bytes).length ∧
    payload = executeHead md cursorFlag ++
      (if calls = [] then [0]
       else bitmap ++ [1] ++ typeBytes calls ++ (calls.flatMap Param.bytes ++ stale)) ∧
    bytes = toLE 3 payload.length ++ 0 :: payload

/-- No access to the bitmap or to the chunks is outside them, and what is sent is what the calls
    say, whatever uses the pool before the statement is executed. -/
def Executes (mempool : MemoryPool) (md : PreparedStatementMetadata) (cursorFlag : UInt8)
    (calls : List Param) : Prop :=
  ∃ st, setAll mempool cursorFlag calls = .ok st ∧
    ∀ mempool', MemoryPool.Keeps st.params.packet.data st.params.pool mempool' →
      ∃ sent, st.handlePrepareFinish mempool' md = .ok sent ∧
        Carries md cursorFlag calls sent.bytes

/-- What is in front of `n` values does not fill its chunks. -/
def HeadInside (n : Nat) : Prop := n = 0 ∨ (15 + (n + 7) / 8 + 2 * n) % 256 ≠ 0

instance (n : Nat) : Decidable (HeadInside n) :=
  inferInstanceAs (Decidable (n = 0 ∨ (15 + (n + 7) / 8 + 2 * n) % 256 ≠ 0))

/-- The values are less than 2 GiB by what the rest of the packet has at most. -/
def ValuesFit (calls : List Param) : Prop :=
  2 * (calls.flatMap Param.bytes).length + 2 ^ 18 ≤ 2 ^ 32

instance (calls : List Param) : Decidable (ValuesFit calls) :=
  inferInstanceAs (Decidable (2 * (calls.flatMap Param.bytes).length + 2 ^ 18 ≤ 2 ^ 32))

/-! ### In front of the values -/

theorem toLE_one_toNat (b : UInt8) : toLE 1 b.toNat = [b] := by
  rw [toLE, UInt8.ofNat_toNat]
  rfl

theorem length_executeHead (md : PreparedStatementMetadata) (cursorFlag : UInt8) :
    (executeHead md cursorFlag).length = 10 := by
  simp only [executeHead, List.length_append, length_toLE, List.length_cons, List.length_nil]

theorem pieces_writeExecute (md : PreparedStatementMetadata) (cursorFlag : UInt8) :
    Pieces 256 (PreparedStatement.writeExecute md cursorFlag) (executeHead md cursorFlag) := by
  have hput : ∀ (n v : Nat), n ≤ 4 → Pieces 256 (putByte (toLE n v)) (toLE n v) :=
    fun n v hn => pieces_putByte (by rw [length_toLE]; omega)
  have hall := (hput 1 0x17 (by decide)).seq ((hput 4 md.statementId.toNat (by decide)).seq
    ((hput 1 cursorFlag.toNat (by decide)).seq (hput 4 1 (by decide))))
  rw [toLE_one_toNat cursorFlag] at hall
  simp only [executeHead, List.append_assoc]
  rw [← toLE_one_toNat cursorFlag] at hall ⊢
  exact hall

section

variable {live : List RefMemoryChunk} {pool : MemoryPool}

/-- The new packet with what is written first. -/
theorem writeExecute_spec (hinv : pool.Inv live) (hcs : pool.chunksize = 256)
    (md : PreparedStatementMetadata) (cursorFlag : UInt8) :
    ∃ o0 o stale, PacketOut.make pool 100 = .ok ((), o0) ∧
      PreparedStatement.writeExecute md cursorFlag o0 = .ok ((), o) ∧ stale.length = 4 ∧
      Filled live o (stale ++ executeHead md cursorFlag) ∧ o.packet.capacity = 256 ∧
      o.pool.chunksize = 256 ∧ bytesOf o.pool.mem live = bytesOf pool.mem live := by
  obtain ⟨o0, stale, hmake, hstale, hfilled0, hcs0, hbytes0, hcap0⟩ :=
    PacketOut.filled_make hinv (by omega) (by decide : 20 ≤ 100) (by omega)
  have hone : pool.calculateChunkCount (100 + 10) = 1 := by
    rw [MemoryPool.calculateChunkCount, hcs]
    rfl
  rw [hone, hcs] at hcap0
  rw [hcs] at hcs0
  have hhead := length_executeHead md cursorFlag
  obtain ⟨o, hop, hfilled, hleaves, hcap⟩ :=
    pieces_writeExecute md cursorFlag live o0 stale hfilled0 hcs0 (by omega)
  have hcs' : o.pool.chunksize = 256 := hleaves.chunksize.trans hcs0
  have hmod := hfilled.capacity_mod (by omega)
  have hle := hfilled.length_le
  rw [List.length_append] at hle
  rw [hcs'] at hmod
  exact ⟨o0, o, stale, hmake, hop, hstale, hfilled, by omega, hcs', hleaves.bytes.trans hbytes0⟩

/-- The bitmap and the types behind it; no spare chunk is left then. -/
theorem writeParams_spec {st : PreparedStatement} {o : Gateway.PacketOut.Out} {ws : List UInt8}
    (h : Filled live o ws) (hws : ws.length = 14) (hcap : o.packet.capacity = 256)
    (hcs : o.pool.chunksize = 256) (hpos : st.paramsType ≠ [])
    (hcount : st.paramsType.length < 2 ^ 16)
    (hbitmap : st.bitmap.length = (st.paramsType.length + 7) / 8) :
    ∃ o', st.writeParams o = .ok ((), o') ∧
      Filled live o' (ws ++ (st.bitmap ++ [1] ++
        st.paramsType.flatMap fun type => toLE 2 type.toNat)) ∧
      o'.packet.capacity <
        15 + (st.paramsType.length + 7) / 8 + 2 * st.paramsType.length + 256 ∧
      o'.pool.chunksize = 256 ∧ bytesOf o'.pool.mem live = bytesOf o.pool.mem live := by
  have hlen := List.length_pos_iff.mpr hpos
  have hall : st.bitmap.take (Gateway.u32 st.bitmap.length) = st.bitmap := by
    rw [Gateway.u32, Nat.mod_eq_of_lt (by omega), List.take_length]
  have hpos' := h.pos
  -- the bitmap may get more chunks than it needs
  obtain ⟨o1, hop1, hfilled1, hleaves1, hcap1⟩ :=
    h.putByte (PacketOut.room_of_le st.bitmap h.separate.chunksize (by omega))
  have hhigh := o.pool.calculateChunkCount_mul_lt (st.bitmap.length + 10) h.separate.chunksize
  have hgrown : o1.packet.capacity = 256 ∨
      (242 < st.bitmap.length ∧ o1.packet.capacity ≤ st.bitmap.length + 522) := by
    rw [hcap1, Gateway.PacketOut.grown, hcap, hpos', hws]
    split
    · exact Or.inr (by omega)
    · exact Or.inl rfl
  -- the types fill them
  have htypes : (st.paramsType.flatMap fun type => toLE 2 type.toNat).length =
      2 * st.paramsType.length := by
    simp only [List.length_flatMap, length_toLE, List.map_const', List.sum_replicate_nat]
    omega
  have hput : ∀ (n v : Nat), n ≤ 2 → Pieces 256 (putByte (toLE n v)) (toLE n v) :=
    fun n v hn => pieces_putByte (by rw [length_toLE]; omega)
  have hrest := (hput 1 1 (by decide)).seq
    (pieces_forM (fun type : UInt16 => hput 2 type.toNat (by decide)) st.paramsType)
  have hlen1 : (ws ++ st.bitmap).length = 14 + st.bitmap.length := by
    rw [List.length_append, hws]
  have hlen2 : (toLE 1 1 ++ st.paramsType.flatMap fun type => toLE 2 type.toNat).length =
      1 + 2 * st.paramsType.length := by
    rw [List.length_append, length_toLE, htypes]
  obtain ⟨o2, hop2, hfilled2, hleaves2, hcap2⟩ := hrest live o1 _ hfilled1
    (hleaves1.chunksize.trans hcs) (by omega)
  refine ⟨o2, ?_, ?_, by omega, ?_, hleaves2.bytes.trans hleaves1.bytes⟩
  · show (PacketOut.writeFixedString st.bitmap o >>= fun r => (do
      putByte (toLE 1 1)
      st.paramsType.forM fun type => putByte (toLE 2 type.toNat)) r.2) = _
    rw [PacketOut.writeFixedString, hall, hop1]
    exact hop2
  · rw [List.append_assoc] at hfilled2
    rw [List.append_assoc st.bitmap]
    exact hfilled2
  · rw [hleaves2.chunksize, hleaves1.chunksize, hcs]

end

/-! ### The views of the values -/

theorem mem_fetchChunks {size : Nat} {vs : List RefMemoryChunk} (hne : ∀ w ∈ vs, 0 < w.count)
    {v : RefMemoryChunk} (hv : v ∈ fetchChunks size vs) :
    0 < v.count ∧ ∃ w ∈ vs, v.chunk = w.chunk := by
  induction vs generalizing size with
  | nil => exact absurd hv List.not_mem_nil
  | cons w vs ih =>
      have hw := hne w List.mem_cons_self
      by_cases hzero : size = 0
      · rw [fetchChunks, if_pos hzero] at hv
        exact absurd hv List.not_mem_nil
      · by_cases hlt : size < w.count
        · rw [fetchChunks, if_neg hzero, if_pos hlt, List.mem_singleton] at hv
          subst hv
          refine ⟨?_, w, List.mem_cons_self, rfl⟩
          show 0 < w.count - (w.count - size)
          omega
        · rw [fetchChunks, if_neg hzero, if_neg hlt] at hv
          rcases List.mem_cons.mp hv with rfl | hv
          · exact ⟨hw, v, List.mem_cons_self, rfl⟩
          · obtain ⟨hpos, u, hu, heq⟩ := ih (fun u hu => hne u (List.mem_cons_of_mem w hu)) hv
            exact ⟨hpos, u, List.mem_cons_of_mem w hu, heq⟩

theorem map_chunk_fetchChunks (size : Nat) (vs : List RefMemoryChunk) :
    ((fetchChunks size vs).map chunk).Sublist (vs.map chunk) := by
  induction vs generalizing size with
  | nil => exact List.Sublist.refl _
  | cons w vs ih =>
      by_cases hzero : size = 0
      · rw [fetchChunks, if_pos hzero]
        exact List.nil_sublist _
      · by_cases hlt : size < w.count
        · rw [fetchChunks, if_neg hzero, if_pos hlt]
          exact (List.nil_sublist _).cons_cons w.chunk
        · rw [fetchChunks, if_neg hzero, if_neg hlt]
          exact (ih _).cons_cons w.chunk

section

variable {o : Out} {ws : List UInt8}

theorem Ready.count_pos (h : Ready o) : ∀ v ∈ o.packet.data, 0 < v.count := by
  intro v hv
  rw [h.beside.whole v hv, MemoryPool.chunkLength, h.chunksize]
  decide

/-- There are views, of chunks of the packet. -/
theorem Ready.fetchData_ne_nil (h : Ready o) : fetchData o.packet ≠ [] := by
  have hhead := h.head_le
  have hnonempty := h.nonempty
  rw [fetchData]
  rcases hdata : o.packet.data with _ | ⟨v, vs⟩
  · exact absurd hdata hnonempty
  · rw [fetchChunks, if_neg (by omega)]
    split <;> exact List.cons_ne_nil _ _

theorem Holds.apart (h : Holds o ws) : (fetchData o.packet).Pairwise Apart := by
  have hnodup := h.rep.distinct.sublist (map_chunk_fetchChunks o.packet.size o.packet.data)
  exact (List.pairwise_map.mp hnodup).imp fun hne => Or.inl hne

/-- They show the values, and the first four bytes at least. -/
theorem Holds.bytes (h : Holds o ws) (hready : Ready o) : ∃ stale : List UInt8,
    stale.length = 4 - ws.length ∧
    ∀ m, bytesOf m o.packet.data = bytesOf o.pool.mem o.packet.data →
      bytesOf m (fetchData o.packet) = ws ++ stale := by
  have hcap := h.rep.capacity_eq
  have hlong : 256 ≤ o.packet.capacity := by
    rw [h.rep.capacity]
    have hnonempty := hready.nonempty
    rcases hdata : o.packet.data with _ | ⟨v, vs⟩
    · exact absurd hdata hnonempty
    · have hv := hready.beside.whole v (by rw [hdata]; exact List.mem_cons_self)
      rw [MemoryPool.chunkLength, hready.chunksize] at hv
      rw [total_cons, hv]
      exact Nat.le_add_right _ _
  refine ⟨(Gateway.PacketOut.unwritten o).take (4 - ws.length), ?_, fun m hm => ?_⟩
  · rw [List.length_take]
    omega
  · rw [fetchData, Gateway.PacketOut.bytesOf_fetchChunks, hm, h.rep.bytesOf_data, h.size,
      List.take_append, List.take_of_length_le (by omega)]
    refine congrArg (fun n => ws ++ (Gateway.PacketOut.unwritten o).take n) ?_
    omega

end

/-! ### The whole packet -/

section

variable {cursorFlag : UInt8} {calls : List Param} {st : PreparedStatement}
  {md : PreparedStatementMetadata} {mempool' : MemoryPool}

theorem PreparedFor.count_lt (h : PreparedFor calls.length md) : calls.length < 2 ^ 16 := by
  rw [← h.numParams]
  exact md.numParams.toNat_lt

/-- The checks pass, and there are as many parameters as calls. -/
theorem Represents.checked (h : Represents cursorFlag calls st)
    (hmd : PreparedFor calls.length md) :
    ¬ md.numColumns.toNat ≠ md.columnsDef.length ∧ ¬ md.numParams.toNat ≠ md.paramsDef.length ∧
      ¬ md.numParams.toUInt32 ≠ st.paramsIdx ∧ (0 < md.numParams ↔ calls ≠ []) := by
  refine ⟨fun hne => hne hmd.columnsDef.symm, fun hne => hne ?_, fun hne => hne ?_, ?_⟩
  · rw [hmd.numParams, hmd.paramsDef]
  · refine UInt32.toNat_inj.mp ?_
    rw [UInt16.toNat_toUInt32, hmd.numParams, h.idx]
  · rw [UInt16.lt_iff_toNat_lt, hmd.numParams]
    exact List.length_pos_iff

/-- The pool keeps the chunks of the values. -/
theorem Represents.kept (h : Represents cursorFlag calls st)
    (hkeeps : MemoryPool.Keeps st.params.packet.data st.params.pool mempool') :
    mempool'.Inv st.params.packet.data ∧ mempool'.chunksize = 256 ∧
      bytesOf mempool'.mem st.params.packet.data =
        bytesOf st.params.pool.mem st.params.packet.data := by
  have hinv := h.params.beside.inv
  rw [List.append_nil] at hinv
  exact ⟨hkeeps.inv hinv, hkeeps.chunksize.trans h.params.chunksize, bytesOf_congr hkeeps.bytes⟩

/-- A statement without parameters. -/
theorem Represents.handlePrepareFinish_nil (h : Represents cursorFlag [] st)
    (hmd : PreparedFor 0 md)
    (hkeeps : MemoryPool.Keeps st.params.packet.data st.params.pool mempool') :
    ∃ sent, st.handlePrepareFinish mempool' md = .ok sent ∧
      Carries md cursorFlag [] sent.bytes := by
  obtain ⟨hcolumns, hparams, hidx, hpos⟩ := h.checked hmd
  obtain ⟨hinv, hcs, -⟩ := h.kept hkeeps
  obtain ⟨o0, o1, head, hmake, hfirst, hhead, hfilled1, hcap1, hcs1, -⟩ :=
    writeExecute_spec hinv hcs md cursorFlag
  have hlen := length_executeHead md cursorFlag
  obtain ⟨o2, hsecond, hfilled2, -, -⟩ := pieces_putByte (by decide : [(0 : UInt8)].length + 10 ≤ 256)
    st.params.packet.data o1 _ hfilled1 hcs1 (by rw [List.length_append]; simp; omega)
  have hbytes := hfilled2.bytesOf_fetchData
  have hcount : (head ++ executeHead md cursorFlag ++ [0]).length = 15 := by
    rw [List.length_append, List.length_append, hhead, hlen]
    rfl
  obtain ⟨o3, hop, hsent⟩ := (hfilled2.complete (by omega)).writeHead 0
  refine ⟨⟨o3.pool, fetchData o3.packet⟩, ?_, st.ensureParamBitmapCapacity.bitmap,
    [0, 0, 0, 0], executeHead md cursorFlag ++ [0], ?_, ?_, rfl, rfl, ?_⟩
  · simp only [PreparedStatement.handlePrepareFinish, if_neg hcolumns, if_neg hparams, if_neg hidx,
      if_neg (fun hlt => hpos.mp hlt rfl), h.flag, hmake, hfirst, liftPacket, bind, Except.bind,
      show toLE 1 0 = [0] from rfl, hsecond, send, hop, pure, Except.pure]
  · exact (h.ensure (by decide)).2.1
  · exact (h.ensure (by decide)).1.bits
  · show bytesOf o3.pool.mem (fetchData o3.packet) = _
    rw [hsent, hbytes, hfilled2.size, hcount, List.append_assoc, List.drop_left' hhead,
      List.length_append, hlen]
    rfl

/-- What there is in front of the values: `AppendData` is called with the cursor behind all
    chunks, or with it in the last one. -/
theorem Represents.writeParams (h : Represents cursorFlag calls st)
    (hmd : PreparedFor calls.length md) (hne : calls ≠ [])
    (hkeeps : MemoryPool.Keeps st.params.packet.data st.params.pool mempool') :
    ∃ o head bitmap, head.length = 4 ∧ bitmap.length = (calls.length + 7) / 8 ∧
      (∀ i, bitAt bitmap i = true ↔ calls[i]? = some .null) ∧
      Filled st.params.packet.data o
        (head ++ (executeHead md cursorFlag ++ (bitmap ++ [1] ++ typeBytes calls))) ∧
      o.packet.capacity < 15 + (calls.length + 7) / 8 + 2 * calls.length + 256 ∧
      o.pool.chunksize = 256 ∧
      bytesOf o.pool.mem st.params.packet.data =
        bytesOf st.params.pool.mem st.params.packet.data ∧
      st.handlePrepareFinish mempool' md =
        PacketOut.appendData (fetchData st.params.packet) o >>= send 0 := by
  obtain ⟨hcolumns, hparams, hidx, hpos⟩ := h.checked hmd
  obtain ⟨hinv, hcs, hsame⟩ := h.kept hkeeps
  obtain ⟨o0, o1, head, hmake, hfirst, hhead, hfilled1, hcap1, hcs1, hbytes1⟩ :=
    writeExecute_spec hinv hcs md cursorFlag
  have hlt := hmd.count_lt
  obtain ⟨hensured, hlength, hvalues⟩ := h.ensure (by omega)
  have htypes := hensured.types
  have hcount : st.ensureParamBitmapCapacity.paramsType.length = calls.length := by
    rw [htypes, List.length_map]
  obtain ⟨o, hsecond, hfilled, hcap, hcs2, hbytes⟩ := writeParams_spec hfilled1
    (by rw [List.length_append, hhead, length_executeHead]) hcap1 hcs1
    (by rw [htypes]; exact fun hnil => hne (List.map_eq_nil_iff.mp hnil)) (by omega)
    (by rw [hlength, hcount])
  rw [List.append_assoc, htypes, List.flatMap_map] at hfilled
  rw [hcount] at hcap
  refine ⟨o, head, _, hhead, hlength, hensured.bits, hfilled, hcap, hcs2,
    (hbytes.trans hbytes1).trans hsame, ?_⟩
  simp only [PreparedStatement.handlePrepareFinish, if_neg hcolumns, if_neg hparams, if_neg hidx,
    if_pos (hpos.mpr hne), h.flag, hmake, hfirst, liftPacket, bind, Except.bind, hsecond, hvalues]

/-- The length of what is in front of the values. -/
theorem length_beforeValues (md : PreparedStatementMetadata) (cursorFlag : UInt8)
    (calls : List Param) {head bitmap : List UInt8} (hhead : head.length = 4)
    (hbitmap : bitmap.length = (calls.length + 7) / 8) :
    (head ++ (executeHead md cursorFlag ++ (bitmap ++ [1] ++ typeBytes calls))).length =
      15 + (calls.length + 7) / 8 + 2 * calls.length := by
  have htypes : (typeBytes calls).length = 2 * calls.length := by
    simp only [typeBytes, List.length_flatMap, length_toLE, List.map_const',
      List.sum_replicate_nat]
    omega
  simp only [List.length_append, hhead, hbitmap, htypes, length_executeHead, List.length_singleton]
  omega

/-- It fills its chunks. -/
theorem Represents.handlePrepareFinish_full (h : Represents cursorFlag calls st)
    (hmd : PreparedFor calls.length md) (hfull : ¬ HeadInside calls.length)
    (hkeeps : MemoryPool.Keeps st.params.packet.data st.params.pool mempool') :
    st.handlePrepareFinish mempool' md = .error .outOfRange := by
  obtain ⟨hzero, hmod⟩ := not_or.mp hfull
  have hne : calls ≠ [] := fun hnil => hzero (by rw [hnil]; rfl)
  obtain ⟨o, head, bitmap, hhead, hbitmap, -, hfilled, hcap, hcs, -, hop⟩ :=
    h.writeParams hmd hne hkeeps
  have hlen := length_beforeValues md cursorFlag calls hhead hbitmap
  have hcapmod := hfilled.capacity_mod (by omega)
  have hle := hfilled.length_le
  rw [hcs] at hcapmod
  have hnone := List.drop_eq_nil_iff.mp (hfilled.drop_eq_nil (by omega))
  rw [hop, PacketOut.appendData, if_neg h.params.fetchData_ne_nil, List.getElem?_eq_none hnone]
  rfl

/-- It does not. -/
theorem Represents.handlePrepareFinish_inside (h : Represents cursorFlag calls st)
    (hmd : PreparedFor calls.length md) (hne : calls ≠ []) (hinside : HeadInside calls.length)
    (hholds : Holds st.params (calls.flatMap Param.bytes)) (hfit : ValuesFit calls)
    (hkeeps : MemoryPool.Keeps st.params.packet.data st.params.pool mempool') :
    ∃ sent, st.handlePrepareFinish mempool' md = .ok sent ∧
      Carries md cursorFlag calls sent.bytes := by
  obtain ⟨o, head, bitmap, hhead, hbitmap, hbits, hfilled, hcap, hcs, hsame, hop⟩ :=
    h.writeParams hmd hne hkeeps
  have hlen := length_beforeValues md cursorFlag calls hhead hbitmap
  have hlt := hmd.count_lt
  have hmod : (15 + (calls.length + 7) / 8 + 2 * calls.length) % 256 ≠ 0 :=
    hinside.resolve_left fun hzero => hne (List.length_eq_zero_iff.mp hzero)
  have hcapmod := hfilled.capacity_mod (by omega)
  have hle := hfilled.length_le
  rw [hcs] at hcapmod
  obtain ⟨ck, hdrop, hck⟩ := hfilled.drop_eq_singleton (by omega) (by omega) (by omega)
  obtain ⟨stale, hstale, hvalues⟩ := hholds.bytes h.params
  have hdata := hvalues _ hsame
  have htotal : total (fetchData st.params.packet) =
      (calls.flatMap Param.bytes).length + stale.length := by
    rw [← length_bytesOf o.pool.mem, hdata, List.length_append]
  have hcount := h.params.count_pos
  unfold ValuesFit at hfit
  obtain ⟨o1, happend, hcomplete, hsize, hbytes⟩ := hfilled.appendData hdrop hck
    h.params.fetchData_ne_nil (fun v hv => (mem_fetchChunks hcount hv).1) hholds.apart
    (fun v hv => (mem_fetchChunks hcount hv).2) (by omega) (by omega)
  obtain ⟨o2, hwrite, hsent⟩ := hcomplete.writeHead 0
  refine ⟨⟨o2.pool, fetchData o2.packet⟩, ?_, bitmap, stale, _, hbitmap, hbits, hstale, rfl, ?_⟩
  · simp only [hop, happend, send, hwrite, liftPacket, bind, Except.bind, pure, Except.pure]
  · show bytesOf o2.pool.mem (fetchData o2.packet) = _
    have hpayload : (executeHead md cursorFlag ++ (bitmap ++ [1] ++ typeBytes calls ++
        (calls.flatMap Param.bytes ++ stale))).length =
        15 + (calls.length + 7) / 8 + 2 * calls.length +
          ((calls.flatMap Param.bytes).length + stale.length) - 4 := by
      simp only [List.length_append] at hlen ⊢
      omega
    rw [hsent, hbytes, hdata, hsize, hlen, htotal, if_neg hne, hpayload, List.append_assoc head,
      List.drop_left' hhead, List.append_assoc (executeHead md cursorFlag)]

end

/-- A new pool of the manager. -/
def newPool : ManagerPool where
  pool := ⟨256, 2560, [], fun _ => 0, 0, fun _ _ => 0⟩
  inv := ⟨List.nodup_nil, fun _ h => absurd h List.not_mem_nil,
    fun _ h => absurd h List.not_mem_nil, fun _ => Nat.zero_le _,
    fun _ h => absurd h List.not_mem_nil, fun _ h => absurd h List.not_mem_nil⟩
  chunksize := rfl
  poolsize := rfl

/-- A statement with `n` parameters. -/
def preparedFor (n : Nat) : PreparedStatementMetadata :=
  ⟨1, 0, UInt16.ofNat n, List.replicate n ⟨[], [], [], [], [], [], 0, 0, 0, .tiny, 0, 0, 0⟩, []⟩

end Jengine.Dbo.Internal
