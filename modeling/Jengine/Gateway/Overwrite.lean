import Jengine.Gateway.PacketWrite

/-!
# Writing into chunks that a packet already has

A write that fits into the chunks of a packet acquires none, so the chunks stay
where they are and other views of them see it.  `cells` names the bytes a
sequence of views maps by chunk and offset; a writer changes cells of its own
packet only, and which of them follows from what the packet represents.
-/

namespace Jengine.Memory

open Jengine.Lib

namespace RefMemoryChunk

/-- Where the bytes of a sequence of views are. -/
def cells (vs : List RefMemoryChunk) : List (Nat × Nat) :=
  vs.flatMap fun v => (List.range v.count).map fun i => (v.chunk, v.data + i)

theorem cells_cons (v : RefMemoryChunk) (vs : List RefMemoryChunk) :
    cells (v :: vs) = ((List.range v.count).map fun i => (v.chunk, v.data + i)) ++ cells vs := rfl

theorem cells_append (vs ws : List RefMemoryChunk) : cells (vs ++ ws) = cells vs ++ cells ws :=
  List.flatMap_append

theorem bytesOf_eq_cells (m : Bytes) (vs : List RefMemoryChunk) :
    bytesOf m vs = (cells vs).map fun c => m c.1 c.2 := by
  induction vs with
  | nil => rfl
  | cons v vs ih =>
      rw [bytesOf_cons, cells_cons, List.map_append, ← ih, List.map_map]
      rfl

theorem bytes_congr_cells {m m' : Bytes} {v : RefMemoryChunk}
    (h : ∀ c ∈ cells [v], m' c.1 c.2 = m c.1 c.2) : v.bytes m' = v.bytes m := by
  have hone : ∀ n : Bytes, v.bytes n = bytesOf n [v] := fun n => by
    rw [bytesOf_cons, bytesOf_nil, List.append_nil]
  rw [hone, hone, bytesOf_eq_cells, bytesOf_eq_cells]
  exact List.map_congr_left h

theorem mem_cells_of_mem {v : RefMemoryChunk} {vs : List RefMemoryChunk} (h : v ∈ vs)
    {c : Nat × Nat} (hc : c ∈ cells [v]) : c ∈ cells vs := by
  rw [cells, List.mem_flatMap]
  refine ⟨v, h, ?_⟩
  rwa [cells, List.flatMap_singleton] at hc

/-- Where a view is does not depend on its cursor. -/
theorem cells_of_region_eq : ∀ {vs ws : List RefMemoryChunk}, vs.map region = ws.map region →
    cells vs = cells ws := by
  intro vs
  induction vs with
  | nil =>
      intro ws h
      rw [List.map_nil] at h
      rw [List.map_eq_nil_iff.mp h.symm]
  | cons v vs ih =>
      intro ws h
      cases ws with
      | nil => cases h
      | cons w ws =>
          simp only [List.map_cons, List.cons.injEq, region, Prod.mk.injEq] at h
          rw [cells_cons, cells_cons, ih h.2, h.1.1, h.1.2.1, h.1.2.2]

/-- `Write` changes cells of its view only. -/
theorem write_outside_cells (m : Bytes) (v : RefMemoryChunk) (src : List UInt8) {c : Nat × Nat}
    (hc : c ∉ cells [v]) : (v.write m src).1 c.1 c.2 = m c.1 c.2 := by
  by_cases hchunk : c.1 = v.chunk
  · apply Segments.write_outside
    by_contra hin
    apply hc
    have hle : v.moved src.length ≤ v.count - v.pos := by
      rw [moved_eq_min]
      exact Nat.min_le_right _ _
    have hlen : (src.take (v.moved src.length)).length ≤ v.moved src.length := by
      rw [List.length_take]
      exact Nat.min_le_left _ _
    rw [cells, List.flatMap_singleton, List.mem_map]
    refine ⟨c.2 - v.data, List.mem_range.mpr (by omega), ?_⟩
    rw [Prod.ext_iff]
    exact ⟨hchunk.symm, by simp only; omega⟩
  · exact Segments.write_other_segment m v.chunk _ _ hchunk c.2

end RefMemoryChunk

end Jengine.Memory

namespace Jengine.Gateway

open Jengine.Lib Jengine.Memory RefMemoryChunk

/-- The loop of `PutByte` changes cells of the chunks it walks over, and moves no view. -/
theorem writeChunks_frame : ∀ (vs : List RefMemoryChunk) (m : Bytes) (src : List UInt8),
    (writeChunks m src vs).2.1.map region = vs.map region ∧
      ∀ c, c ∉ cells vs → (writeChunks m src vs).1 c.1 c.2 = m c.1 c.2 := by
  intro vs
  induction vs with
  | nil => exact fun m src => ⟨rfl, fun _ _ => rfl⟩
  | cons v vs ih =>
      intro m src
      have hfirst : ∀ c, c ∉ cells (v :: vs) → (v.write m src).1 c.1 c.2 = m c.1 c.2 := by
        intro c hc
        apply write_outside_cells m v src
        exact fun hmem => hc (mem_cells_of_mem List.mem_cons_self hmem)
      by_cases hsrc : src = []
      · rw [hsrc, writeChunks_nil]
        exact ⟨rfl, fun _ _ => rfl⟩
      by_cases hle : v.freeCount ≤ src.length
      · obtain ⟨hregion, hframe⟩ := ih (v.write m src).1 (src.drop v.freeCount)
        rw [writeChunks_cons_used m vs hsrc hle]
        refine ⟨?_, ?_⟩
        · rw [List.map_cons, hregion]
          rfl
        · intro c hc
          have htail : c ∉ cells vs := by
            rw [cells_cons, List.mem_append, not_or] at hc
            exact hc.2
          rw [hframe c htail]
          exact hfirst c hc
      · rw [writeChunks_cons_inside m vs hsrc (by omega)]
        exact ⟨rfl, hfirst⟩

namespace PacketOut

/-- What a writer of the bytes `xs` does to a packet that has the room for them. -/
def Overwrites (op : Op Unit) (xs : List UInt8) : Prop :=
  ∀ o ws, Rep o ws → 0 < o.pool.chunksize → ws.length + xs.length ≤ o.packet.capacity →
    ∃ o', op o = .ok ((), o') ∧ Rep o' (ws ++ xs) ∧
      unwritten o' = (unwritten o).drop xs.length ∧
      o'.packet.size = max o.packet.size (ws.length + xs.length) ∧
      o'.pool.chunksize = o.pool.chunksize ∧ o'.packet.capacity = o.packet.capacity ∧
      o'.packet.data.map region = o.packet.data.map region ∧
      ∀ c, c ∉ cells o.packet.data → o'.pool.mem c.1 c.2 = o.pool.mem c.1 c.2

/-- `PutByte` without growth. -/
theorem putByte_frame {o o' : Out} {src : List UInt8}
    (hroom : u32 (o.packet.pos + src.length) ≤ o.packet.capacity)
    (hop : putByte src o = .ok ((), o')) :
    o'.packet.capacity = o.packet.capacity ∧
      o'.packet.data.map region = o.packet.data.map region ∧
      ∀ c, c ∉ cells o.packet.data → o'.pool.mem c.1 c.2 = o.pool.mem c.1 c.2 := by
  have hgrow : grow (2 ^ 32) src.length o = .ok o := by
    rw [show 2 ^ 32 = 4294967295 + 1 from rfl, grow, if_neg (by omega)]
  have hsize := updateSize_eq { o.packet with pos := u32 (o.packet.pos + src.length) }
  obtain ⟨hregion, hframe⟩ :=
    writeChunks_frame (o.packet.data.drop o.packet.posY) o.pool.mem src
  simp only [putByte, hgrow, bind, Except.bind, pure, Except.pure, hsize, Except.ok.injEq,
    Prod.mk.injEq, true_and] at hop
  rw [← hop]
  refine ⟨rfl, ?_, ?_⟩
  · rw [List.map_append, hregion, ← List.map_append, List.take_append_drop]
  · intro c hc
    apply hframe
    intro hmem
    apply hc
    rw [← List.take_append_drop o.packet.posY o.packet.data, cells_append]
    exact List.mem_append_right _ hmem

theorem overwrites_putByte {src : List UInt8} (hsrc : src.length ≤ 65535) :
    Overwrites (putByte src) src := by
  intro o ws h hcs hroom
  obtain ⟨o', hop, hrep, hunw, hsize, hchunk, -⟩ := appends_putByte hsrc o ws h hcs (Or.inl hroom)
  have hlt := h.capacity_lt
  have hu : u32 (o.packet.pos + src.length) = ws.length + src.length := by
    rw [h.pos]
    exact Nat.mod_eq_of_lt (by omega)
  obtain ⟨hcap, hregion, hframe⟩ := putByte_frame (by omega) hop
  exact ⟨o', hop, hrep, hunw hroom, hsize, hchunk, hcap, hregion, hframe⟩

theorem Overwrites.seq {op op' : Op Unit} {xs ys : List UInt8} (h : Overwrites op xs)
    (h' : Overwrites op' ys) : Overwrites (do op; op') (xs ++ ys) := by
  intro o ws hrep hcs hroom
  rw [List.length_append] at hroom
  have hlen : (ws ++ xs).length = ws.length + xs.length := List.length_append
  obtain ⟨o1, hop1, hrep1, hunw1, hsize1, hcs1, hcap1, hregion1, hframe1⟩ :=
    h o ws hrep hcs (by omega)
  obtain ⟨o2, hop2, hrep2, hunw2, hsize2, hcs2, hcap2, hregion2, hframe2⟩ :=
    h' o1 (ws ++ xs) hrep1 (by omega) (by omega)
  refine ⟨o2, ?_, by rwa [← List.append_assoc], ?_, ?_, hcs2.trans hcs1, hcap2.trans hcap1,
    hregion2.trans hregion1, ?_⟩
  · show (op o >>= fun r => op' r.2) = _
    rw [hop1]
    exact hop2
  · rw [hunw2, hunw1, List.drop_drop, List.length_append]
  · rw [hsize2, hsize1, hlen, List.length_append]
    omega
  · intro c hc
    rw [hframe2 c (by rw [cells_of_region_eq hregion1]; exact hc)]
    exact hframe1 c hc

end PacketOut

end Jengine.Gateway
