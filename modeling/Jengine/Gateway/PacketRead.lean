import Jengine.Gateway.PacketBase

/-!
# Reading a chunked packet is reading a byte string

`Unread m pk bs` says that `bs` is what a received packet still has to give:
the unread bytes of the chunks from `pos_y_` on, as many as `size_ - pos_`.
Every reader takes the front of `bs` and leaves the rest, whatever the chunks
are; this is the only fact about chunks that the results above this module
need.
-/

namespace Jengine.Gateway

open Jengine.Lib Jengine.Memory RefMemoryChunk

theorem readChunks_zero (m : Bytes) (vs : List RefMemoryChunk) :
    readChunks m 0 vs = ([], vs, 0) := by
  cases vs <;> simp [readChunks]

/-- A chunk that cannot satisfy the request is used up. -/
theorem readChunks_cons_used (m : Bytes) {n : Nat} {v : RefMemoryChunk}
    (vs : List RefMemoryChunk) (hn : n ≠ 0) (h : v.freeCount ≤ n) :
    readChunks m n (v :: vs) =
      (v.unread m ++ (readChunks m (n - v.freeCount) vs).1,
        (v.read m n).2 :: (readChunks m (n - v.freeCount) vs).2.1,
        (readChunks m (n - v.freeCount) vs).2.2 + 1) := by
  have hz : (v.read m n).2.freeCount = 0 := by rw [freeCount_read]; omega
  have hbs : (v.read m n).1 = v.unread m := by
    rw [read_fst, List.take_of_length_le (by rw [length_unread]; exact h)]
  have hlen : (v.read m n).1.length = v.freeCount := by rw [hbs, length_unread]
  simp only [readChunks, if_neg hn, if_pos hz, hlen]
  rw [hbs]

/-- A chunk with enough unread bytes satisfies the request alone. -/
theorem readChunks_cons_inside (m : Bytes) {n : Nat} {v : RefMemoryChunk}
    (vs : List RefMemoryChunk) (hn : n ≠ 0) (h : n < v.freeCount) :
    readChunks m n (v :: vs) = ((v.unread m).take n, (v.read m n).2 :: vs, 0) := by
  have hz : (v.read m n).2.freeCount ≠ 0 := by rw [freeCount_read]; omega
  simp only [readChunks, if_neg hn, if_neg hz]
  rw [read_fst]

/-- The loop of `GetByte` copies the front of the unread bytes and leaves the
    rest. -/
theorem readChunks_spec (m : Bytes) : ∀ (vs : List RefMemoryChunk) (n : Nat),
    n ≤ (unreadOf m vs).length →
    (readChunks m n vs).1 = (unreadOf m vs).take n ∧
      unreadOf m ((readChunks m n vs).2.1.drop (readChunks m n vs).2.2) =
        (unreadOf m vs).drop n ∧
      (readChunks m n vs).2.2 ≤ (readChunks m n vs).2.1.length ∧
      (readChunks m n vs).2.1.map region = vs.map region := by
  intro vs
  induction vs with
  | nil =>
      intro n h
      simp [readChunks]
  | cons v vs ih =>
      intro n h
      have hlen : (v.unread m).length = v.freeCount := length_unread m v
      by_cases hn : n = 0
      · simp [hn, readChunks_zero]
      · by_cases hle : v.freeCount ≤ n
        · simp only [unreadOf_cons, List.length_append] at h
          obtain ⟨h1, h2, h3, h4⟩ := ih (n - v.freeCount) (by omega)
          rw [readChunks_cons_used m vs hn hle]
          have hall : (v.unread m).take n = v.unread m := List.take_of_length_le (by omega)
          have hnone : (v.unread m).drop n = [] := List.drop_eq_nil_of_le (by omega)
          refine ⟨?_, ?_, Nat.succ_le_succ h3, ?_⟩
          · rw [unreadOf_cons, List.take_append, hall, hlen, h1]
          · rw [List.drop_succ_cons, h2, unreadOf_cons, List.drop_append, hnone, hlen,
              List.nil_append]
          · rw [List.map_cons, h4, region_read, List.map_cons]
        · have hin : n ≤ (v.unread m).length := by omega
          rw [readChunks_cons_inside m vs hn (by omega)]
          refine ⟨?_, ?_, Nat.zero_le _, ?_⟩
          · rw [unreadOf_cons, List.take_append_of_le_length hin]
          · rw [List.drop_zero, unreadOf_cons, unread_read, unreadOf_cons,
              List.drop_append_of_le_length hin]
          · rw [List.map_cons, region_read, List.map_cons]

theorem skipChunks_cons_zero (v : RefMemoryChunk) (vs : List RefMemoryChunk) :
    Packet.skipChunks 0 (v :: vs) =
      (v.skipTo 0 :: (Packet.skipChunks 0 vs).1, (Packet.skipChunks 0 vs).2) := by
  simp [Packet.skipChunks]

theorem skipChunks_cons_inside {pos : Nat} {v : RefMemoryChunk} (vs : List RefMemoryChunk)
    (h0 : pos ≠ 0) (h : pos < v.count) :
    Packet.skipChunks pos (v :: vs) =
      (v.skipTo pos :: (Packet.skipChunks 0 vs).1, (Packet.skipChunks 0 vs).2) := by
  simp [Packet.skipChunks, h0, h]

theorem skipChunks_cons_beyond {pos : Nat} {v : RefMemoryChunk} (vs : List RefMemoryChunk)
    (h0 : pos ≠ 0) (h : ¬ pos < v.count) :
    Packet.skipChunks pos (v :: vs) =
      (v.skipTo v.count :: (Packet.skipChunks (pos - v.count) vs).1,
        (Packet.skipChunks (pos - v.count) vs).2 + 1) := by
  simp [Packet.skipChunks, h0, h]

theorem skipChunks_zero (vs : List RefMemoryChunk) : (Packet.skipChunks 0 vs).2 = 0 := by
  induction vs with
  | nil => rfl
  | cons v vs ih => rw [skipChunks_cons_zero]; exact ih

/-- The loop of `SkipTo` leaves the bytes from `pos` on. -/
theorem skipChunks_spec (m : Bytes) : ∀ (vs : List RefMemoryChunk) (pos : Nat), pos ≤ total vs →
    unreadOf m ((Packet.skipChunks pos vs).1.drop (Packet.skipChunks pos vs).2) =
        (bytesOf m vs).drop pos ∧
      (Packet.skipChunks pos vs).2 ≤ (Packet.skipChunks pos vs).1.length ∧
      (Packet.skipChunks pos vs).1.map region = vs.map region := by
  intro vs
  induction vs with
  | nil =>
      intro pos h
      simp [Packet.skipChunks]
  | cons v vs ih =>
      intro pos h
      have hlen : (v.bytes m).length = v.count := length_bytes m v
      -- behind the chunk `pos` falls into, every cursor goes back to the start
      obtain ⟨h01, -, h02⟩ := ih 0 (Nat.zero_le _)
      rw [skipChunks_zero, List.drop_zero, List.drop_zero] at h01
      by_cases hp : pos = 0
      · subst hp
        rw [skipChunks_cons_zero, skipChunks_zero]
        refine ⟨?_, Nat.zero_le _, ?_⟩
        · rw [List.drop_zero, unreadOf_cons, h01, unread_skipTo m v (Nat.zero_le _)]
          rfl
        · rw [List.map_cons, h02, region_skipTo, List.map_cons]
      · by_cases hlt : pos < v.count
        · rw [skipChunks_cons_inside vs hp hlt, skipChunks_zero]
          refine ⟨?_, Nat.zero_le _, ?_⟩
          · rw [List.drop_zero, unreadOf_cons, h01, unread_skipTo m v (Nat.le_of_lt hlt),
              bytesOf_cons, List.drop_append_of_le_length (by omega)]
          · rw [List.map_cons, h02, region_skipTo, List.map_cons]
        · simp only [total_cons] at h
          obtain ⟨h1, h2, h3⟩ := ih (pos - v.count) (by omega)
          rw [skipChunks_cons_beyond vs hp hlt]
          refine ⟨?_, Nat.succ_le_succ h2, ?_⟩
          · have hskip : (v.bytes m).drop pos = [] := List.drop_eq_nil_of_le (by omega)
            rw [List.drop_succ_cons, h1, bytesOf_cons, List.drop_append, hskip, hlen,
              List.nil_append]
          · rw [List.map_cons, h3, region_skipTo, List.map_cons]

namespace PacketIn

/-- What the packet still has to give is `bs`. -/
structure Unread (m : Bytes) (pk : Packet) (bs : List UInt8) : Prop where
  rest : unreadOf m (pk.data.drop pk.posY) = bs
  size : pk.pos + bs.length = pk.size
  fits : pk.size < 2 ^ 32
  posY_le : pk.posY ≤ pk.data.length

/-- `GetByte` takes the front of what is left. -/
theorem getByte_spec {m : Bytes} {pk : Packet} {xs ys : List UInt8}
    (h : Unread m pk (xs ++ ys)) :
    ∃ pk', getByte m xs.length pk = .ok (xs, pk') ∧ Unread m pk' ys ∧
      pk'.data.map region = pk.data.map region := by
  have hsize := h.size
  have hfits := h.fits
  simp only [List.length_append] at hsize
  have hu : u32 (pk.pos + xs.length) = pk.pos + xs.length := Nat.mod_eq_of_lt (by omega)
  obtain ⟨h1, h2, h3, h4⟩ := readChunks_spec m (pk.data.drop pk.posY) xs.length
    (by rw [h.rest]; simp)
  rw [h.rest] at h1 h2
  simp only [List.take_left, List.drop_left] at h1 h2
  have htake : (pk.data.take pk.posY).length = pk.posY :=
    List.length_take_of_le h.posY_le
  rcases hr : readChunks m xs.length (pk.data.drop pk.posY) with ⟨bs, vs, y⟩
  simp only [hr] at h1 h2 h3 h4
  refine ⟨⟨pk.data.take pk.posY ++ vs, pk.size, pk.pos + xs.length, pk.posY + y, pk.capacity⟩,
    ?_, ⟨?_, ?_, hfits, ?_⟩, ?_⟩
  · simp only [getByte, hu, if_neg (show ¬ pk.size < pk.pos + xs.length by omega), hr, h1]
  · simp only [List.drop_append, htake, Nat.add_sub_cancel_left]
    rw [List.drop_eq_nil_of_le (by omega), List.nil_append, h2]
  · simp only
    omega
  · simp only [List.length_append, htake]
    omega
  · rw [List.map_append, h4, ← List.map_append, List.take_append_drop]

theorem size_getByte {m : Bytes} {n : Nat} {pk pk' : Packet} {bs : List UInt8}
    (h : getByte m n pk = .ok (bs, pk')) : pk'.size = pk.size := by
  unfold getByte at h
  split at h
  · cases h
  · rw [Except.ok.injEq, Prod.mk.injEq] at h
    rw [← h.2]

/-- Too few bytes are left: `GetByte` throws and the packet is not touched. -/
theorem getByte_short {m : Bytes} {pk : Packet} {bs : List UInt8} {n : Nat}
    (h : Unread m pk bs) (hn : bs.length < n) (hw : pk.pos + n < 2 ^ 32) :
    getByte m n pk = .error .noMoreData := by
  have hsize := h.size
  have hu : u32 (pk.pos + n) = pk.pos + n := Nat.mod_eq_of_lt hw
  simp only [getByte, hu, if_pos (show pk.size < pk.pos + n by omega)]

/-- `SkipTo` inside a received packet. -/
theorem skipTo_spec (m : Bytes) (pk : Packet) (pos : Nat) (hcap : pk.capacity = total pk.data)
    (hsize : pk.size = pk.capacity) (hfits : pk.size < 2 ^ 32) (hpos : pos ≤ pk.capacity) :
    ∃ pk', pk.skipTo pos = .ok pk' ∧ Unread m pk' ((bytesOf m pk.data).drop pos) ∧
      pk'.pos = pos ∧ pk'.size = pk.size ∧ pk'.capacity = pk.capacity ∧
      pk'.data.map region = pk.data.map region := by
  obtain ⟨h1, h2, h3⟩ := skipChunks_spec m pk.data pos (by omega)
  rcases hr : Packet.skipChunks pos pk.data with ⟨r, y⟩
  simp only [hr] at h1 h2 h3
  refine ⟨{ pk with pos := pos, data := r, posY := y }, ?_, ⟨h1, ?_, hfits, h2⟩,
    rfl, rfl, rfl, h3⟩
  · have hnot : ¬ pk.size < pos := by omega
    simp only [Packet.skipTo, if_pos hpos, hr, Packet.updateSize, if_neg hnot]
  · simp only [List.length_drop, length_bytesOf]
    omega

/-- The constructor: everything is still to be read. -/
theorem make_spec (m : Bytes) (data : List RefMemoryChunk) (h : total data < 2 ^ 32) :
    ∃ pk, make data = .ok pk ∧ Unread m pk (bytesOf m data) ∧ pk.pos = 0 ∧
      pk.size = total data ∧ pk.capacity = total data ∧ pk.data.map region = data.map region := by
  have hu : u32 (total data) = total data := Nat.mod_eq_of_lt h
  obtain ⟨pk, h1, h2, h3, h4, h5, h6⟩ := skipTo_spec m
    { Packet.empty with data := data, capacity := total data, size := total data } 0
    rfl rfl h (Nat.zero_le _)
  refine ⟨pk, ?_, h2, h3, h4, h5, h6⟩
  rw [← h1]
  simp only [make, Packet.updateCapacity, hu]

/-! ### Readers as statements about byte strings -/

/-- `op` consumes exactly the bytes `xs` and returns `a`, however the packet is
    cut into chunks and whatever follows `xs`. -/
def Reads (m : Bytes) {α : Type} (op : Op α) (xs : List UInt8) (a : α) : Prop :=
  ∀ pk ys, Unread m pk (xs ++ ys) →
    ∃ pk', op pk = .ok (a, pk') ∧ Unread m pk' ys ∧ pk'.data.map region = pk.data.map region

theorem Reads.pure (m : Bytes) {α : Type} (a : α) : Reads m (Pure.pure a : Op α) [] a :=
  fun pk _ h => ⟨pk, rfl, h, rfl⟩

theorem Reads.bind {m : Bytes} {α β : Type} {op : Op α} {f : α → Op β} {xs ys : List UInt8}
    {a : α} {b : β} (hop : Reads m op xs a) (hf : Reads m (f a) ys b) :
    Reads m (op >>= f) (xs ++ ys) b := by
  intro pk zs h
  rw [List.append_assoc] at h
  obtain ⟨pk1, h1, hrest1, hreg1⟩ := hop pk (ys ++ zs) h
  obtain ⟨pk2, h2, hrest2, hreg2⟩ := hf pk1 zs hrest1
  refine ⟨pk2, ?_, hrest2, hreg2.trans hreg1⟩
  show (op pk >>= fun r => f r.1 r.2) = _
  rw [h1]
  exact h2

theorem Reads.map {m : Bytes} {α β : Type} {op : Op α} {xs : List UInt8} {a : α}
    (f : α → β) (hop : Reads m op xs a) : Reads m (f <$> op) xs (f a) := by
  intro pk ys h
  obtain ⟨pk1, h1, hrest1, hreg1⟩ := hop pk ys h
  refine ⟨pk1, ?_, hrest1, hreg1⟩
  show (do let r ← op pk; Pure.pure (f r.1, r.2)) = _
  rw [h1]
  rfl

theorem reads_getByte (m : Bytes) (xs : List UInt8) : Reads m (getByte m xs.length) xs xs :=
  fun _ _ h => getByte_spec h

theorem reads_readInt (m : Bytes) {n : Nat} {xs : List UInt8} (h : xs.length = n) :
    Reads m (readInt m n) xs (ofLE xs) := by
  subst h
  have hbind := (reads_getByte m xs).bind (f := fun bs => Pure.pure (ofLE bs))
    (Reads.pure m (ofLE xs))
  rwa [List.append_nil] at hbind

/-- An integer of `n` bytes that was written is read back. -/
theorem reads_readInt_toLE (m : Bytes) {n v : Nat} (h : v < 256 ^ n) :
    Reads m (readInt m n) (toLE n v) v := by
  have hread := reads_readInt m (length_toLE n v)
  rwa [ofLE_toLE_of_lt h] at hread

end PacketIn

end Jengine.Gateway
