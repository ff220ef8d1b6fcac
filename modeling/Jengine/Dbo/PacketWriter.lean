import Jengine.Dbo.AppendData

/-!
# Packets that are filled from the front

A packet that is constructed, written to at its end and given its head is a packet of the
mysql protocol: three bytes of length, a sequence number, and what was written
(`base/dbo_bk/internal/packet.h`).
-/

namespace Jengine.Dbo.Internal

open Jengine.Lib Jengine.Memory RefMemoryChunk

namespace PacketOut

open Gateway (u32)
open Gateway.PacketOut (Op Out Rep putByte unwritten aquireMemory skipTo_spec putByte_spec
  aquireMemory_empty fetchData)

/-- `WriteFixedString`: `PutByte` takes the length as a `uint32_t`. -/
def writeFixedString (str : List UInt8) : Op Unit := putByte (str.take (u32 str.length))

/-- `WriteNulTerminateString`. -/
def writeNulTerminateString (str : List UInt8) : Op Unit := do
  putByte (str.take (u32 str.length))
  putByte [0]

/-- A writer puts the bytes `xs` at the end of a packet. -/
def Fills (op : Op Unit) (xs : List UInt8) : Prop :=
  ∀ o ws, Rep o ws → o.packet.size = ws.length → 0 < o.pool.chunksize →
    ws.length + 2 * xs.length + 10 + o.pool.chunksize ≤ 2 ^ 32 →
    ∃ o', op o = .ok ((), o') ∧ Rep o' (ws ++ xs) ∧ o'.packet.size = (ws ++ xs).length ∧
      o'.pool.chunksize = o.pool.chunksize

theorem fills_putByte (src : List UInt8) : Fills (putByte src) src := by
  intro o ws h hsize hcs hroom
  obtain ⟨o', hop, hrep, -, hsize', hchunk, -⟩ := putByte_spec h hcs (Or.inr hroom)
  refine ⟨o', hop, hrep, ?_, hchunk⟩
  rw [hsize', hsize, List.length_append]
  exact Nat.max_eq_right (Nat.le_add_right _ _)

theorem fills_pure : Fills (Pure.pure ()) [] := by
  intro o ws h hsize _ _
  exact ⟨o, rfl, by rwa [List.append_nil], by rwa [List.append_nil], rfl⟩

theorem Fills.seq {op op' : Op Unit} {xs ys : List UInt8} (h : Fills op xs) (h' : Fills op' ys) :
    Fills (do op; op') (xs ++ ys) := by
  intro o ws hrep hsize hcs hroom
  rw [List.length_append] at hroom
  obtain ⟨o1, hop1, hrep1, hsize1, hcs1⟩ := h o ws hrep hsize hcs (by omega)
  have hlen : (ws ++ xs).length = ws.length + xs.length := List.length_append
  obtain ⟨o2, hop2, hrep2, hsize2, hcs2⟩ := h' o1 (ws ++ xs) hrep1 hsize1 (by omega) (by omega)
  refine ⟨o2, ?_, by rwa [← List.append_assoc], by rwa [← List.append_assoc], hcs2.trans hcs1⟩
  show (op o >>= fun r => op' r.2) = _
  rw [hop1]
  exact hop2

theorem Fills.ite {p : Prop} [Decidable p] {op op' : Op Unit} {xs ys : List UInt8}
    (h : Fills op xs) (h' : Fills op' ys) :
    Fills (if p then op else op') (if p then xs else ys) := by
  by_cases hp : p
  · rw [if_pos hp, if_pos hp]
    exact h
  · rw [if_neg hp, if_neg hp]
    exact h'

theorem fills_writeFixedString {str : List UInt8} (h : str.length < 2 ^ 32) :
    Fills (writeFixedString str) str := by
  have hall : str.take (u32 str.length) = str := by
    rw [u32, Nat.mod_eq_of_lt h, List.take_length]
  rw [writeFixedString, hall]
  exact fills_putByte str

theorem fills_writeNulTerminateString {str : List UInt8} (h : str.length < 2 ^ 32) :
    Fills (writeNulTerminateString str) (str ++ [0]) :=
  (fills_writeFixedString h).seq (fills_putByte [0])

/-- The head is written over the first four bytes. -/
theorem writeHead_of_rep {o : Out} {stale payload : List UInt8} (h : Rep o (stale ++ payload))
    (hstale : stale.length = 4) (hsize : o.packet.size = 4 + payload.length)
    (hcs : 0 < o.pool.chunksize) (hlen : payload.length < 2 ^ 24) (sequenceId : UInt8) :
    ∃ o', writeHead sequenceId o = .ok ((), o') ∧
      bytesOf o'.pool.mem (fetchData o'.packet) =
        toLE 3 payload.length ++ sequenceId :: payload := by
  have hcap := h.capacity_eq
  rw [List.length_append, hstale] at hcap
  obtain ⟨o1, hskip, hrep1, hunw1, hsize1, hcap1, hpool1⟩ := skipTo_spec h (Nat.zero_le _)
  rw [List.take_zero] at hrep1
  rw [List.drop_zero] at hunw1
  have hpay : u32 (o1.packet.size + 2 ^ 32 - 4) = payload.length := by
    rw [hsize1, hsize, u32]
    omega
  have hthree : (toLE 3 payload.length).length = 3 := length_toLE 3 _
  have hroom1 : ([] : List UInt8).length + (toLE 3 payload.length).length ≤ o1.packet.capacity := by
    rw [List.length_nil, hthree, hcap1]
    omega
  obtain ⟨o2, hput2, hrep2, hunw2, hsize2, hcs2, hcap2⟩ :=
    putByte_spec hrep1 (by rw [hpool1]; exact hcs) (Or.inl hroom1)
  rw [List.nil_append] at hrep2
  rw [List.length_nil, hthree] at hunw2 hsize2
  have hroom2 : (toLE 3 payload.length).length + [sequenceId].length ≤ o2.packet.capacity := by
    rw [hthree, List.length_singleton]
    omega
  obtain ⟨o3, hput3, hrep3, hunw3, hsize3, -, -⟩ :=
    putByte_spec hrep2 (by rw [hcs2, hpool1]; exact hcs) (Or.inl hroom2)
  rw [hthree, List.length_singleton] at hunw3 hsize3
  have hseq : toLE 1 sequenceId.toNat = [sequenceId] := by
    simp only [toLE, List.cons.injEq, and_true]
    exact UInt8.ofNat_toNat
  refine ⟨o3, ?_, ?_⟩
  · simp only [writeHead, bind, StateT.bind, Except.bind, hskip, get, getThe, MonadStateOf.get,
      StateT.get, pure, Except.pure, hpay, hput2, hseq, hput3]
  · have htail : unwritten o3 = payload ++ unwritten o := by
      rw [hunw3 (by omega), hunw2 (by omega), hunw1, List.drop_drop, List.append_assoc,
        List.drop_left' (by rw [hstale])]
    have hall : o3.packet.size = (toLE 3 payload.length ++ sequenceId :: payload).length := by
      rw [hsize3, hsize2, hsize1, hsize, List.length_append, List.length_cons, hthree]
      omega
    rw [fetchData, Gateway.PacketOut.bytesOf_fetchChunks, hrep3.bytesOf_data, htail, hall,
      List.append_assoc]
    have hsplit : toLE 3 payload.length ++ ([sequenceId] ++ (payload ++ unwritten o)) =
        (toLE 3 payload.length ++ sequenceId :: payload) ++ unwritten o := by
      rw [List.append_assoc]
      rfl
    rw [hsplit, List.take_left]

/-- A new packet: its cursor is behind the first four bytes. -/
theorem make_spec {mempool : MemoryPool} (hpool : mempool.Inv [])
    (hchunk : 0 < mempool.chunksize) {approxSize : Nat} (hsmall : approxSize < 2 ^ 24)
    (hroom : mempool.chunksize + 2 ^ 26 ≤ 2 ^ 32) :
    ∃ o stale, make mempool approxSize = .ok ((), o) ∧ Rep o stale ∧ stale.length = 4 ∧
      o.packet.size = 4 ∧ o.pool.chunksize = mempool.chunksize := by
  obtain ⟨n, hn, hlt⟩ : ∃ n, n = (if approxSize < 20 then 20 else approxSize) ∧
      n < 2 ^ 24 := ⟨_, rfl, by split <;> omega⟩
  have hcount := mempool.calculateChunkCount_mul_lt (n + 10) hchunk
  obtain ⟨hrep0, hcap0, hsize0, hcs0, -⟩ :=
    aquireMemory_empty n hpool hchunk (by omega) (by omega)
  have hlow : 4 ≤ (aquireMemory ⟨mempool, Gateway.Packet.empty⟩ n).packet.capacity := by omega
  obtain ⟨o, hskip, hrep, -, hsize, -, hpool1⟩ := skipTo_spec hrep0 hlow
  have hcap := hrep0.capacity_eq
  rw [List.length_nil] at hcap
  refine ⟨o, _, by rw [make, ← hn]; exact hskip, hrep, ?_, ?_, by rw [hpool1, hcs0]⟩
  · rw [List.length_take, List.nil_append]
    omega
  · rw [hsize, hsize0]
    rfl

/-- A packet that is made, filled and given its head. -/
theorem frame_of_fills {mempool : MemoryPool} (hpool : mempool.Inv [])
    (hchunk : 0 < mempool.chunksize) (hroom : mempool.chunksize + 2 ^ 26 ≤ 2 ^ 32)
    {op : Op Unit} {payload : List UInt8} (hop : Fills op payload)
    (hlen : payload.length < 2 ^ 24) {approxSize : Nat} (happrox : approxSize < 2 ^ 24)
    (sequenceId : UInt8) :
    ∃ o1 o2 o3, make mempool approxSize = .ok ((), o1) ∧ op o1 = .ok ((), o2) ∧
      writeHead sequenceId o2 = .ok ((), o3) ∧
      bytesOf o3.pool.mem (fetchData o3.packet) =
        toLE 3 payload.length ++ sequenceId :: payload := by
  obtain ⟨o1, stale, hmake, hrep1, hstale, hstart, hcs1⟩ :=
    make_spec hpool hchunk happrox hroom
  obtain ⟨o2, hop2, hrep2, hsize2, hcs2⟩ := hop o1 _ hrep1 (by rw [hstart, hstale]) (by omega)
    (by omega)
  rw [List.length_append, hstale] at hsize2
  obtain ⟨o3, hhead, hbytes⟩ := writeHead_of_rep hrep2 hstale hsize2 (by omega) hlen sequenceId
  exact ⟨o1, o2, o3, hmake, hop2, hhead, hbytes⟩

end PacketOut

end Jengine.Dbo.Internal
