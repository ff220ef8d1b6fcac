import Jengine.Net.ClientViews

/-!
# Popping into a buffer

There are two `PopReceive` in `base/net/client.cpp`.  The one for a `char*` walks over the
receive queue as the one for a `vector` does, and copies every chunk to `dst`, where
`CopyReceive` copies it to `dst + total`.  The chunks come to lie over each other.
-/

namespace Jengine.Net

open Jengine.Lib Jengine.Memory RefMemoryChunk

/-- `memcpy` of `bs` to the start of `dst`. -/
def memcpy (dst bs : List UInt8) : List UInt8 := bs ++ dst.drop bs.length

theorem memcpy_nil (dst : List UInt8) : memcpy dst [] = dst := rfl

theorem memcpy_inside (dst : List UInt8) {bs : List UInt8} {i : Nat} (h : i < bs.length) :
    (memcpy dst bs)[i]? = bs[i]? := List.getElem?_append_left h

theorem memcpy_outside (dst : List UInt8) {bs : List UInt8} {i : Nat} (h : bs.length ≤ i) :
    (memcpy dst bs)[i]? = dst[i]? := by
  rw [memcpy, List.getElem?_append_right h, List.getElem?_drop, Nat.add_sub_cancel' h]

/-- What was copied can be told from the buffers it leaves. -/
theorem memcpy_injective {bs bs' : List UInt8} {n : Nat}
    (h : ∀ dst, n ≤ dst.length → memcpy dst bs = memcpy dst bs') : bs = bs' := by
  apply List.ext_getElem?
  intro i
  have hget : ∀ b : UInt8, (memcpy (List.replicate (n + i + 1) b) bs)[i]? =
      (memcpy (List.replicate (n + i + 1) b) bs')[i]? := by
    intro b
    rw [h _ (by rw [List.length_replicate]; omega)]
  have hdst : ∀ b : UInt8, (List.replicate (n + i + 1) b)[i]? = some b := by
    intro b
    rw [List.getElem?_replicate, if_pos (by omega)]
  by_cases hi : i < bs.length <;> by_cases hi' : i < bs'.length
  · have heq := hget 0
    rwa [memcpy_inside _ hi, memcpy_inside _ hi'] at heq
  · have heq := fun b => (hget b).symm
    simp only [memcpy_inside _ hi, memcpy_outside _ (Nat.not_lt.mp hi'), hdst] at heq
    exact absurd ((heq 0).trans (heq 1).symm) (by decide)
  · have heq := hget
    simp only [memcpy_outside _ (Nat.not_lt.mp hi), memcpy_inside _ hi', hdst] at heq
    exact absurd ((heq 0).trans (heq 1).symm) (by decide)
  · rw [List.getElem?_eq_none (Nat.not_lt.mp hi), List.getElem?_eq_none (Nat.not_lt.mp hi')]

namespace Client

variable {δ : Type}

/-- `total` of the loop of `PopReceive(char*, std::size_t)`. -/
def drained : Nat → List RefMemoryChunk → Nat
  | _, [] => 0
  | count, v :: vs =>
      if count = 0 then 0
      else if v.count ≤ count then v.count + drained (count - v.count) vs
      else count

/-- What the three functions have in common if they work alike: the number returned, what is
    left of the queue, `recvq_count_`, and the bytes in a buffer with room for them. -/
structure PopsAlike (c : Client δ) (count : Nat) : Prop where
  number : drained count c.recvq = total (c.popReceive count).1
  queue : ∀ dst, (c.popReceiveInto count dst).2.received = (c.popReceive count).2.received
  recvqCount : ∀ dst, (c.popReceiveInto count dst).2.recvqCount = (c.popReceive count).2.recvqCount
  bytes : ∀ dst, count ≤ dst.length → (c.popReceiveInto count dst).1 =
    memcpy dst (bytesOf c.pool.mem (c.popReceive count).1)
  copy : ∀ dst, count ≤ dst.length → (c.popReceiveInto count dst).1 =
    memcpy dst (c.copyReceive count).1

/-- The size of the first chunk with something in it. -/
def firstCount : List RefMemoryChunk → Nat
  | [] => 0
  | v :: vs => if v.count = 0 then firstCount vs else v.count

/-! ### The loop -/

theorem drain_zero (p : MemoryPool) (vs : List RefMemoryChunk) (dst : List UInt8) :
    drain p 0 vs dst = (dst, vs, p) := by
  cases vs <;> simp [drain]

theorem read_fresh (m : Bytes) {v : RefMemoryChunk} (hv : v.pos = 0) (n : Nat) :
    (v.read m n).1 = (v.bytes m).take n := by
  rw [read_fst, unread, bytes, freeCount, hv]
  rfl

/-- A chunk that is taken whole. -/
theorem drain_whole (p : MemoryPool) {n : Nat} {v : RefMemoryChunk} (vs : List RefMemoryChunk)
    (dst : List UInt8) (hv : v.pos = 0) (hn : n ≠ 0) (h : v.count ≤ n) :
    drain p n (v :: vs) dst =
      drain (p.releaseChunk v) (n - v.count) vs (memcpy dst (v.bytes p.mem)) := by
  have hbytes : (v.read p.mem v.count).1 = v.bytes p.mem := by
    rw [read_fresh p.mem hv, List.take_of_length_le (Nat.le_of_eq (length_bytes p.mem v))]
  simp only [drain, if_neg hn, if_pos h, hbytes]
  rfl

/-- A chunk that is split. -/
theorem drain_split (p : MemoryPool) {n : Nat} {v : RefMemoryChunk} (vs : List RefMemoryChunk)
    (dst : List UInt8) (hv : v.pos = 0) (hn : n ≠ 0) (h : n < v.count) :
    drain p n (v :: vs) dst =
      (memcpy dst ((v.bytes p.mem).take n), v.forwardOffset n :: vs, p) := by
  simp only [drain, if_neg hn, if_neg (Nat.not_le.mpr h), read_fresh p.mem hv]
  rfl

/-- The queue is left as the other `PopReceive` leaves it. -/
theorem drain_cut : ∀ (vs : List RefMemoryChunk) (p q : MemoryPool) (n : Nat) (dst : List UInt8),
    (∀ v ∈ vs, v.pos = 0) →
    (drain p n vs dst).2.1 = (cut q n vs).2.1 ∧ (drain p n vs dst).2.2.mem = p.mem := by
  intro vs
  induction vs with
  | nil => intro p q n dst _; exact ⟨rfl, rfl⟩
  | cons v vs ih =>
      intro p q n dst h
      have hv : v.pos = 0 := h v List.mem_cons_self
      by_cases hn : n = 0
      · rw [hn, cut_zero, drain_zero]
        exact ⟨rfl, rfl⟩
      · by_cases hle : v.count ≤ n
        · obtain ⟨hqueue, hmem⟩ := ih (p.releaseChunk v) ((q.retainChunk v).releaseChunk v)
            (n - v.count) (memcpy dst (v.bytes p.mem)) fun w hw => h w (List.mem_cons_of_mem v hw)
          rw [drain_whole p vs dst hv hn hle, cut_cons_whole q vs hn hle]
          exact ⟨hqueue, hmem.trans (MemoryPool.mem_releaseChunk p v)⟩
        · rw [drain_split p vs dst hv hn (Nat.not_le.mp hle), cut_cons_split q vs hn hle]
          exact ⟨rfl, rfl⟩

theorem drained_eq : ∀ (vs : List RefMemoryChunk) (q : MemoryPool) (n : Nat),
    drained n vs = total (cut q n vs).1 := by
  intro vs
  induction vs with
  | nil => intro q n; rfl
  | cons v vs ih =>
      intro q n
      by_cases hn : n = 0
      · rw [hn, cut_zero, drained, if_pos rfl, total_nil]
      · by_cases hle : v.count ≤ n
        · rw [cut_cons_whole q vs hn hle, drained, if_neg hn, if_pos hle, total_cons]
          rw [ih ((q.retainChunk v).releaseChunk v)]
        · rw [cut_cons_split q vs hn hle, drained, if_neg hn, if_neg hle]
          simp only [total_cons, total_nil, shrinkCount, reset]
          omega

/-- Nothing is written behind as many bytes as are popped. -/
theorem drain_outside : ∀ (vs : List RefMemoryChunk) (p : MemoryPool) (n : Nat) (dst : List UInt8),
    (∀ v ∈ vs, v.pos = 0) → ∀ i, min n (total vs) ≤ i → (drain p n vs dst).1[i]? = dst[i]? := by
  intro vs
  induction vs with
  | nil => intro p n dst _ i _; rfl
  | cons v vs ih =>
      intro p n dst h i hi
      have hv : v.pos = 0 := h v List.mem_cons_self
      have hlen : (v.bytes p.mem).length = v.count := length_bytes p.mem v
      rw [total_cons] at hi
      by_cases hn : n = 0
      · rw [hn, drain_zero]
      · by_cases hle : v.count ≤ n
        · have hrest := ih (p.releaseChunk v) (n - v.count) (memcpy dst (v.bytes p.mem))
            (fun w hw => h w (List.mem_cons_of_mem v hw)) i (by omega)
          rw [drain_whole p vs dst hv hn hle, hrest, memcpy_outside dst (by omega)]
        · rw [drain_split p vs dst hv hn (Nat.not_le.mp hle)]
          apply memcpy_outside
          rw [List.length_take]
          omega

/-- One chunk is enough: its bytes are where they should be. -/
theorem drain_inside : ∀ (vs : List RefMemoryChunk) (p : MemoryPool) (n : Nat) (dst : List UInt8),
    (∀ v ∈ vs, v.pos = 0) → min n (total vs) ≤ firstCount vs →
    (drain p n vs dst).1 = memcpy dst ((bytesOf p.mem vs).take n) := by
  intro vs
  induction vs with
  | nil => intro p n dst _ _; simp [drain, memcpy_nil]
  | cons v vs ih =>
      intro p n dst h hone
      have hv : v.pos = 0 := h v List.mem_cons_self
      have hvs : ∀ w ∈ vs, w.pos = 0 := fun w hw => h w (List.mem_cons_of_mem v hw)
      have hlen : (v.bytes p.mem).length = v.count := length_bytes p.mem v
      have hmem : (p.releaseChunk v).mem = p.mem := MemoryPool.mem_releaseChunk p v
      rw [total_cons, firstCount] at hone
      by_cases hn : n = 0
      · rw [hn, drain_zero, List.take_zero, memcpy_nil]
      · by_cases hle : v.count ≤ n
        · rw [drain_whole p vs dst hv hn hle, bytesOf_cons, List.take_append, hlen,
            List.take_of_length_le (by omega)]
          by_cases hzero : v.count = 0
          · rw [if_pos hzero] at hone
            rw [List.eq_nil_of_length_eq_zero (hlen.trans hzero), memcpy_nil, List.nil_append, ← hmem]
            exact ih (p.releaseChunk v) (n - v.count) dst hvs (by omega)
          · -- Nothing is left to be popped from the chunks behind.
            rw [if_neg hzero] at hone
            have hnone : (bytesOf p.mem vs).take (n - v.count) = [] := by
              apply List.eq_nil_of_length_eq_zero
              rw [List.length_take, length_bytesOf]
              omega
            rw [hnone, List.append_nil]
            apply List.ext_getElem?
            exact fun i => drain_outside vs _ (n - v.count) _ hvs i (by omega)
        · rw [drain_split p vs dst hv hn (Nat.not_le.mp hle), bytesOf_cons,
            List.take_append_of_le_length (by omega)]

/-- Two chunks are needed: the last byte is not written. -/
theorem drain_short : ∀ (vs : List RefMemoryChunk) (p : MemoryPool) (n : Nat) (dst : List UInt8),
    (∀ v ∈ vs, v.pos = 0) → firstCount vs < min n (total vs) →
    (drain p n vs dst).1[min n (total vs) - 1]? = dst[min n (total vs) - 1]? := by
  intro vs
  induction vs with
  | nil => intro p n dst _ hmore; simp [drain]
  | cons v vs ih =>
      intro p n dst h hmore
      have hv : v.pos = 0 := h v List.mem_cons_self
      have hvs : ∀ w ∈ vs, w.pos = 0 := fun w hw => h w (List.mem_cons_of_mem v hw)
      have hlen : (v.bytes p.mem).length = v.count := length_bytes p.mem v
      rw [total_cons, firstCount] at hmore
      have hn : n ≠ 0 := by omega
      have hle : v.count ≤ n := by
        by_cases hzero : v.count = 0
        · omega
        · rw [if_neg hzero] at hmore
          omega
      rw [drain_whole p vs dst hv hn hle, total_cons]
      by_cases hzero : v.count = 0
      · rw [if_pos hzero] at hmore
        rw [List.eq_nil_of_length_eq_zero (hlen.trans hzero), memcpy_nil, hzero, Nat.zero_add,
          Nat.sub_zero]
        exact ih _ n dst hvs (by omega)
      · rw [if_neg hzero] at hmore
        have hrest := drain_outside vs (p.releaseChunk v) (n - v.count)
          (memcpy dst (v.bytes p.mem)) hvs (min n (v.count + total vs) - 1) (by omega)
        rw [hrest, memcpy_outside dst (by omega)]

/-! ### The two functions -/

theorem received_popReceive {c : Client δ} (count : Nat) :
    (c.popReceive count).2.received = bytesOf c.pool.mem (cut c.pool count c.recvq).2.1 := by
  show bytesOf (cut c.pool count c.recvq).2.2.mem _ = _
  rw [(pool_cut c.recvq c.pool count).1]
  rfl

theorem total_cut (vs : List RefMemoryChunk) (p : MemoryPool) (n : Nat) :
    total (cut p n vs).1 + total (cut p n vs).2.1 = total vs := by
  obtain ⟨hmoved, hkept⟩ := bytesOf_cut p.mem vs p n
  have hmoved := congrArg List.length hmoved
  have hkept := congrArg List.length hkept
  rw [length_bytesOf, List.length_take, length_bytesOf] at hmoved
  rw [length_bytesOf, List.length_drop, length_bytesOf] at hkept
  omega

/-- The queue and the counter never differ. -/
theorem popReceiveInto_queue {c : Client δ} (hfresh : ∀ v ∈ c.recvq, v.pos = 0) (count : Nat)
    (dst : List UInt8) :
    (c.popReceiveInto count dst).2.received = (c.popReceive count).2.received ∧
      (c.popReceiveInto count dst).2.recvqCount = (c.popReceive count).2.recvqCount := by
  obtain ⟨hqueue, hmem⟩ := drain_cut c.recvq c.pool c.pool count dst hfresh
  constructor
  · rw [received_popReceive, ← hqueue, ← hmem]
    rfl
  · have htotal := total_cut c.recvq c.pool count
    show c.recvqCount - (total c.recvq - total (drain c.pool count c.recvq dst).2.1) =
      c.recvqCount - total (cut c.pool count c.recvq).1
    rw [hqueue]
    omega

theorem bytesOf_popReceive {c : Client δ} (count : Nat) :
    bytesOf c.pool.mem (c.popReceive count).1 = c.received.take count :=
  (bytesOf_cut c.pool.mem c.recvq c.pool count).1

/-- The bytes come out right iff one chunk has all that are popped. -/
theorem popReceiveInto_bytes_iff {c : Client δ} (hfresh : ∀ v ∈ c.recvq, v.pos = 0) (count : Nat) :
    (∀ dst, count ≤ dst.length → (c.popReceiveInto count dst).1 =
        memcpy dst (bytesOf c.pool.mem (c.popReceive count).1)) ↔
      min count (total c.recvq) ≤ firstCount c.recvq := by
  rw [bytesOf_popReceive]
  constructor
  · intro hbytes
    by_contra hmore
    rw [Nat.not_le] at hmore
    -- The last byte of a buffer that holds something else there stays as it is.
    obtain ⟨k, hk⟩ : ∃ k, k = min count (total c.recvq) - 1 := ⟨_, rfl⟩
    have hlt : k < (c.received.take count).length := by
      rw [List.length_take, received, length_bytesOf]
      omega
    have hkeep : ∀ b, (c.received.take count)[k]? = some b := by
      intro b
      have hshort := drain_short c.recvq c.pool count (List.replicate count b) hfresh hmore
      have hpop : (c.popReceiveInto count (List.replicate count b)).1 =
          (drain c.pool count c.recvq (List.replicate count b)).1 := rfl
      rw [← hk, ← hpop, hbytes _ (Nat.le_of_eq List.length_replicate.symm), memcpy_inside _ hlt,
        List.getElem?_replicate, if_pos (by omega)] at hshort
      exact hshort
    exact absurd ((hkeep 0).symm.trans (hkeep 1)) (by decide)
  · intro hone dst _
    exact drain_inside c.recvq c.pool count dst hfresh hone

/-- `CopyReceive` copies what is popped iff its count fits into a `uint32_t` or the queue is
    shorter than what is left of it. -/
theorem copyReceive_popReceive_iff {c : Client δ} (hfresh : ∀ v ∈ c.recvq, v.pos = 0)
    (count : Nat) :
    (c.copyReceive count).1 = bytesOf c.pool.mem (c.popReceive count).1 ↔
      min count (total c.recvq) ≤ count % 2 ^ 32 := by
  have hlen : c.received.length = total c.recvq := length_bytesOf c.pool.mem c.recvq
  have hmod : count % 2 ^ 32 ≤ count := Nat.mod_le count _
  rw [bytesOf_popReceive, copyReceive_fresh hfresh, List.take_eq_take_iff, hlen]
  omega

/-- **Exactly when popping into a buffer is popping into a vector.** -/
theorem popReceiveInto_iff (c : Client δ) (count : Nat) (hfresh : ∀ v ∈ c.recvq, v.pos = 0) :
    PopsAlike c count ↔
      min count (total c.recvq) ≤ firstCount c.recvq ∧
      min count (total c.recvq) ≤ count % 2 ^ 32 := by
  rw [← popReceiveInto_bytes_iff hfresh, ← copyReceive_popReceive_iff hfresh]
  constructor
  · intro h
    refine ⟨h.bytes, memcpy_injective fun dst (hdst : count ≤ dst.length) => ?_⟩
    rw [← h.copy dst hdst, ← h.bytes dst hdst]
  · rintro ⟨hbytes, hcopy⟩
    constructor
    · exact drained_eq c.recvq c.pool count
    · exact fun dst => (popReceiveInto_queue hfresh count dst).1
    · exact fun dst => (popReceiveInto_queue hfresh count dst).2
    · exact hbytes
    · rwa [hcopy]

/-- The bytes 1 and 2 have arrived one after the other, in a chunk of 16. -/
def twoChunks : Client Unit where
  pool := ⟨16, 4, [], fun _ => 3, 1, fun _ i => UInt8.ofNat (i + 1)⟩
  connect := true
  closed := false
  recvq := [⟨0, 0, 0, 1⟩, ⟨0, 1, 0, 1⟩]
  recvqCount := 2
  recvp := [⟨0, 2, 0, 14⟩]
  derived := ()

theorem popReceiveInto_iff_twoChunks : PopsAlike twoChunks 1 ↔
    min 1 (total twoChunks.recvq) ≤ firstCount twoChunks.recvq ∧
      min 1 (total twoChunks.recvq) ≤ 1 % 2 ^ 32 :=
  popReceiveInto_iff twoChunks 1 (by decide)

/-- The second byte lies over the first. -/
theorem twoChunks_not_alike : ¬ PopsAlike twoChunks 2 := by
  intro h
  have hbytes := h.copy [0, 0] (Nat.le_refl 2)
  revert hbytes
  decide

end Client

end Jengine.Net
