import Jengine.Gateway.PacketWrite

/-!
# Packet heads

`PacketIn` and `PacketOut` (`base/gateway/packet.h`): a packet starts with ten
bytes, `identifier`, `length`, `code`, `signature` and `sessionid`, each a
little-endian 16-bit integer.  A packet under construction leaves room for the
head, is filled, and gets its head last, by moving the cursor back to the
start.
-/

namespace Jengine.Gateway

open Jengine.Lib Jengine.Memory RefMemoryChunk

/-- `IDENTIFIER`. -/
def identifier : UInt16 := 28380

/-- `HEAD_SIZE`. -/
def headSize : Nat := 10

/-- `CalculateSignature`. -/
def calculateSignature : Int16 := 0

/-- The ten bytes of a head. -/
def headBytes (length code sessionid : UInt16) : List UInt8 :=
  toLE 2 identifier.toNat ++ (toLE 2 length.toNat ++ (toLE 2 code.toNat ++
    (toLE 2 calculateSignature.toBitVec.toNat ++ toLE 2 sessionid.toNat)))

theorem length_headBytes (length code sessionid : UInt16) :
    (headBytes length code sessionid).length = headSize := by
  simp [headBytes, headSize]

/-- `PacketIn::ReadHead`: the packet's `code_` and `sessionid_`.  The signature is
    read and not enforced. -/
def PacketIn.readHead (m : Bytes) : PacketIn.Op (UInt16 × UInt16) := do
  PacketIn.skipTo 4
  let code ← PacketIn.readUShort m
  let _signature ← PacketIn.readShort m
  let sessionid ← PacketIn.readUShort m
  return (code, sessionid)

/-- The code in the head of a packet. -/
def codeOf (b : List UInt8) : UInt16 := UInt16.ofNat (ofLE ((b.drop 4).take 2))

/-- The session id in the head of a packet. -/
def sessionidOf (b : List UInt8) : UInt16 := UInt16.ofNat (ofLE ((b.drop 8).take 2))

/-- Two bytes as a `uint16_t`. -/
theorem PacketIn.reads_readUShort_ofLE (m : Bytes) {xs : List UInt8} (h : xs.length = 2) :
    Reads m (readUShort m) xs (UInt16.ofNat (ofLE xs)) :=
  (reads_readInt m h).map UInt16.ofNat

/-- Reading the head: the cursor is behind it afterwards. -/
theorem PacketIn.readHead_spec {m : Bytes} {pk : Packet} (hcap : pk.capacity = total pk.data)
    (hsize : pk.size = pk.capacity) (hfits : pk.size < 2 ^ 32)
    (hlen : headSize ≤ (bytesOf m pk.data).length) :
    ∃ pk', readHead m pk =
        .ok ((codeOf (bytesOf m pk.data), sessionidOf (bytesOf m pk.data)), pk') ∧
      Unread m pk' ((bytesOf m pk.data).drop headSize) ∧
      pk'.data.map region = pk.data.map region := by
  have htotal : (bytesOf m pk.data).length = total pk.data := length_bytesOf m pk.data
  simp only [headSize] at *
  obtain ⟨pk1, hskip, hun, -, -, -, hregion⟩ := skipTo_spec m pk 4 hcap hsize hfits (by omega)
  generalize bytesOf m pk.data = b at *
  -- the three fields after the length, and what follows them
  have hsplit : b.drop 4 = (b.drop 4).take 2 ++ ((b.drop 6).take 2 ++ ((b.drop 8).take 2 ++
      b.drop 10)) := by
    have hrest : ∀ k, b.drop k = (b.drop k).take 2 ++ b.drop (k + 2) := by
      intro k
      rw [← List.drop_drop, List.take_append_drop]
    rw [← hrest 8, ← hrest 6, ← hrest 4]
  have hfield : ∀ k, k + 2 ≤ 10 → ((b.drop k).take 2).length = 2 := by
    intro k hk
    rw [List.length_take, List.length_drop]
    omega
  have hread := (reads_readUShort_ofLE m (hfield 4 (by omega))).bind
    (f := fun c => readShort m >>= fun _ => readUShort m >>= fun s => Pure.pure (c, s))
    (((reads_readInt m (hfield 6 (by omega))).map (fun n => Int16.ofBitVec (.ofNat 16 n))).bind
      (f := fun _ => readUShort m >>= fun s => Pure.pure (codeOf b, s))
      ((reads_readUShort_ofLE m (hfield 8 (by omega))).map (fun s => (codeOf b, s))))
  rw [hsplit, ← List.append_assoc, ← List.append_assoc, List.append_assoc (List.take 2 _)] at hun
  obtain ⟨pk2, hop, hun2, hregion2⟩ := hread pk1 (b.drop 10) hun
  refine ⟨pk2, ?_, hun2, hregion2.trans hregion⟩
  show ((pk.skipTo 4 >>= fun pk' => Pure.pure ((), pk')) >>= fun r => _) = _
  rw [hskip]
  exact hop

/-- `PacketOut`. -/
structure PacketOut where
  out : PacketOut.Out
  code : UInt16
  sessionid : UInt16
  headWrited : Bool

namespace PacketOut

/-- The constructor `PacketOut(code, approx_size, mempool)`. -/
def make (code : UInt16) (approxSize : Nat) (mempool : MemoryPool) : Except Fault PacketOut := do
  let (_, out) ← skipTo headSize (aquireMemory ⟨mempool, Packet.empty⟩ approxSize)
  return ⟨out, code, 0, false⟩

/-- `SetSessionID`. -/
def setSessionID (p : PacketOut) (sid : UInt16) : PacketOut := { p with sessionid := sid }

/-- The writes of `WriteHead`. -/
def putHead (code sessionid : UInt16) : Op Unit := do
  skipTo 0
  writeUShort identifier
  let o ← get
  writeUShort (UInt16.ofNat o.packet.size)
  writeUShort code
  writeShort calculateSignature
  writeUShort sessionid

/-- `WriteHead`. -/
def writeHead (p : PacketOut) (rewrite : Bool) : Except Fault PacketOut := do
  if !p.headWrited || rewrite then
    let (_, out) ← putHead p.code p.sessionid p.out
    return { p with out := out, headWrited := true }
  else
    return p

/-! ### Building -/

/-- `FetchData` gives the first `size_` bytes. -/
theorem bytesOf_fetchChunks (m : Bytes) : ∀ (vs : List RefMemoryChunk) (s : Nat),
    bytesOf m (fetchChunks s vs) = (bytesOf m vs).take s := by
  intro vs
  induction vs with
  | nil => intro s; simp [fetchChunks]
  | cons v vs ih =>
      intro s
      have hlen : (v.bytes m).length = v.count := length_bytes m v
      by_cases hs : s = 0
      · simp [fetchChunks, hs]
      · by_cases hlt : s < v.count
        · simp only [fetchChunks, if_neg hs, if_pos hlt]
          rw [bytesOf_cons, bytesOf_nil, List.append_nil, bytes_shrinkCount m v (Nat.le_of_lt hlt),
            bytesOf_cons, List.take_append_of_le_length (by omega)]
        · have hall : (v.bytes m).take s = v.bytes m := List.take_of_length_le (by omega)
          simp only [fetchChunks, if_neg hs, if_neg hlt]
          rw [bytesOf_cons, ih, bytesOf_cons, List.take_append, hall, hlen]

theorem appends_writeUShort (v : UInt16) : Appends (writeUShort v) (toLE 2 v.toNat) :=
  appends_putByte (by simp)

theorem appends_writeShort (v : Int16) : Appends (writeShort v) (toLE 2 v.toBitVec.toNat) :=
  appends_putByte (by simp)

/-- The constructor of `PacketOutBase`. -/
theorem aquireMemory_empty {p : MemoryPool} (approx : Nat) (hinv : p.Inv [])
    (hcs : 0 < p.chunksize) (happrox : approx + 10 < 2 ^ 32)
    (hfit : p.calculateChunkCount (approx + 10) * p.chunksize < 2 ^ 32) :
    Rep (aquireMemory ⟨p, Packet.empty⟩ approx) [] ∧
      approx + 10 ≤ (aquireMemory ⟨p, Packet.empty⟩ approx).packet.capacity ∧
      (aquireMemory ⟨p, Packet.empty⟩ approx).packet.size = 0 ∧
      (aquireMemory ⟨p, Packet.empty⟩ approx).pool.chunksize = p.chunksize ∧
      p.chunksize ≤ (aquireMemory ⟨p, Packet.empty⟩ approx).packet.capacity := by
  have hu : u32 (approx + 10) = approx + 10 := Nat.mod_eq_of_lt happrox
  have haq := MemoryPool.aquire_spec (p.calculateChunkCount (approx + 10)) hinv
  have htotal := haq.total
  have hlow := p.le_calculateChunkCount_mul (approx + 10) hcs
  have hone : p.chunksize ≤ p.calculateChunkCount (approx + 10) * p.chunksize := by
    apply Nat.le_mul_of_pos_left
    exact Nat.pos_of_mul_pos_right (Nat.lt_of_lt_of_le (Nat.succ_pos _) hlow)
  have hlt : p.chunksize < 2 ^ 32 := Nat.lt_of_le_of_lt hone hfit
  rw [MemoryPool.chunkLength_of_lt hlt] at htotal
  rcases hr : MemoryPool.aquire (p.calculateChunkCount (approx + 10)) p with ⟨vs, q⟩
  rw [hr] at haq htotal
  have hu' : u32 (total vs) = total vs := Nat.mod_eq_of_lt (by rw [htotal]; exact hfit)
  have hgrown : aquireMemory ⟨p, Packet.empty⟩ approx = ⟨q, ⟨vs, 0, 0, 0, total vs⟩⟩ := by
    simp only [aquireMemory, MemoryPool.aquireByByteNeed, hu, hr, Packet.updateCapacity,
      Packet.empty, List.nil_append, hu']
  have hfresh : ∀ v ∈ vs, v.pos = 0 := fun v hv => (haq.whole v hv).2.1
  rw [hgrown]
  refine ⟨⟨?_, haq.distinct, Nat.zero_le _, AtCursor.of_fresh hfresh, ?_, rfl,
    Nat.le_refl _, rfl, ?_⟩, ?_, rfl, haq.chunksize, by rw [htotal]; exact hone⟩
  · have := haq.inv
    rwa [List.append_nil] at this
  · simp [front_of_fresh _ hfresh]
  · simp only [htotal]
    exact hfit
  · simp only [htotal]
    exact hlow

/-- A new packet: the cursor stands behind ten bytes whose content is whatever the
    chunks held. -/
theorem make_spec {p : MemoryPool} (code : UInt16) {approx : Nat} (hinv : p.Inv [])
    (hcs : 0 < p.chunksize) (happrox : approx + 10 < 2 ^ 32)
    (hfit : p.calculateChunkCount (approx + 10) * p.chunksize < 2 ^ 32) :
    ∃ out stale, make code approx p = .ok ⟨out, code, 0, false⟩ ∧ Rep out stale ∧
      stale.length = headSize ∧ out.packet.size = headSize ∧
      out.pool.chunksize = p.chunksize ∧ p.chunksize ≤ out.packet.capacity := by
  obtain ⟨h1, h2, h3, h4, h5⟩ := aquireMemory_empty approx hinv hcs happrox hfit
  have hhead : headSize ≤ (aquireMemory ⟨p, Packet.empty⟩ approx).packet.capacity := by
    simp only [headSize]
    omega
  obtain ⟨out, hskip, hrep', -, hsize, hcap, hpool⟩ := skipTo_spec h1 hhead
  refine ⟨out, _, ?_, hrep', ?_, ?_, by rw [hpool]; exact h4, by rw [hcap]; exact h5⟩
  · simp only [make, hskip, bind, Except.bind, pure, Except.pure]
  · have hcap := h1.capacity_eq
    rw [List.length_take, List.length_append]
    simp only [headSize] at *
    omega
  · rw [hsize, h3]
    rfl

/-- Writing the head replaces the first ten bytes and nothing else. -/
theorem writeHead_spec {p : PacketOut} {stale body : List UInt8}
    (h : Rep p.out (stale ++ body)) (hstale : stale.length = headSize)
    (hsize : p.out.packet.size = headSize + body.length) (hcs : 0 < p.out.pool.chunksize)
    (hhead : p.headWrited = false) (rewrite : Bool) :
    ∃ p', p.writeHead rewrite = .ok p' ∧
      bytesOf p'.out.pool.mem (fetchData p'.out.packet) =
        headBytes (UInt16.ofNat (headSize + body.length)) p.code p.sessionid ++ body := by
  have hcap := h.capacity_eq
  rw [List.length_append] at hcap
  simp only [headSize] at hstale hcap
  obtain ⟨o1, hskip, hrep1, hunw1, hsize1, hcap1, hpool1⟩ := skipTo_spec h (Nat.zero_le _)
  have hlen := length_headBytes (UInt16.ofNat (headSize + body.length)) p.code p.sessionid
  have hident : (toLE 2 identifier.toNat).length = 2 := length_toLE _ _
  -- the head is written in two pieces, because `size()` is read after the first
  obtain ⟨o2, hop2, hrep2, hunw2, hsize2, hcs2, hgrown2⟩ :=
    appends_writeUShort identifier o1 _ hrep1 (by rw [hpool1]; exact hcs)
      (Or.inl (by simp only [List.take_zero, List.length_nil, hident, hcap1]; omega))
  have hrest := (appends_writeUShort (UInt16.ofNat o2.packet.size)).seq
    ((appends_writeUShort p.code).seq
      ((appends_writeShort calculateSignature).seq (appends_writeUShort p.sessionid)))
  rw [List.take_zero, List.nil_append] at hrep2
  simp only [List.take_zero, List.length_nil, Nat.zero_add, hident] at hunw2 hsize2
  have hsize2' : o2.packet.size = headSize + body.length := by
    simp only [headSize] at *
    omega
  rw [hsize2'] at hrest
  obtain ⟨o3, hop3, hrep3, hunw3, hsize3, -⟩ := hrest o2 _ hrep2 (by rw [hcs2, hpool1]; exact hcs)
    (Or.inl (by simp only [hident, List.length_append, length_toLE]; omega))
  have hcap2 := hrep2.capacity_eq
  have hunw1' : (unwritten o1).length = o1.packet.capacity := by
    have := hrep1.capacity_eq
    simpa using this.symm
  have hu2 := hunw2 (by omega)
  rw [hu2, List.length_drop, hident] at hcap2
  simp only [hident, List.length_append, length_toLE] at hunw3 hsize3
  have hu3 := hunw3 (by omega)
  rw [hu2, hunw1, List.drop_zero, List.drop_drop, List.append_assoc,
    List.drop_left' (by rw [hstale])] at hu3
  refine ⟨{ p with out := o3, headWrited := true }, ?_, ?_⟩
  · have hput : putHead p.code p.sessionid p.out = .ok ((), o3) := by
      let rest : Nat → Op Unit := fun size => do
        writeUShort (UInt16.ofNat size)
        writeUShort p.code
        writeShort calculateSignature
        writeUShort p.sessionid
      show (skipTo 0 p.out >>= fun r =>
        writeUShort identifier r.2 >>= fun r' => rest r'.2.packet.size r'.2) = _
      rw [hskip]
      show (writeUShort identifier o1 >>= fun r' => rest r'.2.packet.size r'.2) = _
      rw [hop2]
      show rest o2.packet.size o2 = _
      rw [hsize2']
      exact hop3
    simp only [writeHead, hhead, Bool.not_false, Bool.true_or, if_true, hput, bind, Except.bind,
      pure, Except.pure]
  · have hdata := hrep3.bytesOf_data
    rw [hu3, ← List.append_assoc] at hdata
    have hsize3' : o3.packet.size = (headBytes (UInt16.ofNat (headSize + body.length)) p.code
        p.sessionid ++ body).length := by
      rw [List.length_append, hlen]
      simp only [headSize] at *
      omega
    rw [fetchData, bytesOf_fetchChunks, hsize3']
    simp only
    rw [hdata]
    exact List.take_left

end PacketOut

end Jengine.Gateway
