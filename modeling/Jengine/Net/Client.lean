import Jengine.Memory.MemoryPool
import Mathlib.Data.PNat.Basic

/-!
# The receiving side of a client

`Client` (`base/net/client.h`, `client.cpp`) reads from its socket with `readv`
into the chunks of a receive pool `recvp_`, moves the filled part of the pool to
the receive queue `recvq_`, and calls the virtual `OnReceive` of the derived
class, which takes bytes off the queue with `CopyReceive` and `PopReceive`.
A chunk that was filled in part is shared: its front is mapped from the queue,
its back from the pool.

The members of the derived class are the type parameter `δ`; `OnReceive` is a
parameter of `onEventIOReadable`.  The results say what one pass of the read
loop does to the bytes of the queue, whatever `OnReceive` is.
-/

namespace Jengine.Net

open Jengine.Lib Jengine.Memory RefMemoryChunk

structure Client (δ : Type) where
  pool : MemoryPool
  connect : Bool
  /-- `EventIO::closed_`. -/
  closed : Bool
  recvq : List RefMemoryChunk
  recvqCount : Nat
  recvp : List RefMemoryChunk
  /-- The members of the derived class. -/
  derived : δ

/-- The first `n` bytes of a sequence of views are moved to another container: the
    body of both the transfer from `recvp_` to `recvq_` and of `PopReceive`.  A
    view that is moved is copied and the original destroyed; a view that is split
    is copied, and both copies are narrowed. -/
def cut : MemoryPool → Nat → List RefMemoryChunk →
    List RefMemoryChunk × List RefMemoryChunk × MemoryPool
  | p, _, [] => ([], [], p)
  | p, n, v :: vs =>
      if n = 0 then ([], v :: vs, p)
      else if v.count ≤ n then
        let (a, r, q) := cut ((p.retainChunk v).releaseChunk v) (n - v.count) vs
        (v :: a, r, q)
      else ([v.shrinkCount (v.count - n)], v.forwardOffset n :: vs, p.retainChunk v)

/-- What `readv` does to the memory: the bytes fill the views in order. -/
def scatter : Bytes → List RefMemoryChunk → List UInt8 → Bytes
  | m, [], _ => m
  | m, v :: vs, bs =>
      scatter (m.write v.chunk v.data (bs.take v.count)) vs (bs.drop v.count)

namespace Client

variable {δ : Type}

/-- `RECVP_SIZE`. -/
def recvpSize : Nat := 20

/-- `RECVIOV_SIZE`. -/
def recviovSize : Nat := 200

/-- The most bytes Linux moves in one call of `readv`. -/
def maxRWCount : Nat := 0x7ffff000

def close (c : Client δ) : Client δ := { c with closed := true }

/-- The loop of `CopyReceive`: the bytes copied, and the views with their cursors put
    back.  `Read` takes the count as a `uint32_t`. -/
def copyChunks (m : Bytes) : Nat → List RefMemoryChunk → List UInt8 × List RefMemoryChunk
  | _, [] => ([], [])
  | count, v :: vs =>
      if count = 0 then ([], v :: vs)
      else
        let (bs, v') := v.read m (count % 2 ^ 32)
        let (bs', vs') := copyChunks m (count - bs.length) vs
        (bs ++ bs', v'.reset :: vs')

/-- `CopyReceive`. -/
def copyReceive (c : Client δ) (count : Nat) : List UInt8 × Client δ :=
  let (bs, q) := copyChunks c.pool.mem count c.recvq
  (bs, { c with recvq := q })

/-- `PopReceive(std::vector<RefMemoryChunk>&, std::size_t)`. -/
def popReceive (c : Client δ) (count : Nat) : List RefMemoryChunk × Client δ :=
  let (a, r, q) := cut c.pool count c.recvq
  (a, { c with pool := q, recvq := r, recvqCount := c.recvqCount - total a })

/-- Keep `RECVP_SIZE` views to read into. -/
def replenish (c : Client δ) : Client δ :=
  if c.recvp.length < recvpSize then
    let (vs, q) := MemoryPool.aquire (recvpSize - c.recvp.length) c.pool
    { c with pool := q, recvp := c.recvp ++ vs }
  else c

/-- `Recvp2IOVec`. -/
def recvp2IOVec (c : Client δ) : List RefMemoryChunk := c.recvp.take recviovSize

/-- `readv` returned the bytes `bs`: they are in the receive pool, and their views
    move to the receive queue. -/
def transfer (c : Client δ) (bs : List UInt8) : Client δ :=
  let (a, r, q) :=
    cut { c.pool with mem := scatter c.pool.mem c.recvp2IOVec bs } bs.length c.recvp
  { c with pool := q, recvq := c.recvq ++ a, recvp := r, recvqCount := c.recvqCount + bs.length }

/-- What the kernel has to say to one call of `readv`: it is ready to give so many
    bytes, the peer has closed, or an error other than `EAGAIN`. -/
inductive Ready where
  | bytes (n : ℕ+)
  | eof
  | error

/-- `OnEventIOReadable` on a socket with the bytes `pending` on their way: the
    answers to the calls of `readv` are given, and `EAGAIN` follows them.  A call
    without room to read into returns 0. -/
def onEventIOReadable (onReceive : Nat → Client δ → Client δ) :
    List Ready → Client δ → List UInt8 → Client δ × List UInt8
  | answers, c, pending =>
      if c.connect && !c.closed then
        let c := c.replenish
        let room := min (total c.recvp2IOVec) maxRWCount
        if c.recvp2IOVec = [] ∨ room = 0 then (c.close, pending)
        else
          match answers with
          | [] => (c, pending)
          | .eof :: _ => (c.close, pending)
          | .error :: _ => (c.close, pending)
          | .bytes n :: answers =>
              let rc := min (min (n : Nat) room) pending.length
              if rc = 0 then (c, pending)
              else
                let c := c.transfer (pending.take rc)
                onEventIOReadable onReceive answers (onReceive c.recvqCount c) (pending.drop rc)
      else (c, pending)

end Client

/-! ### Views a client holds -/

/-- Views that are counted by the pool, map no byte twice and have their cursors at
    the start. -/
structure Sound (p : MemoryPool) (vs : List RefMemoryChunk) : Prop where
  inv : p.Inv vs
  apart : vs.Pairwise Apart
  fresh : ∀ v ∈ vs, v.pos = 0

theorem Sound.perm {p : MemoryPool} {vs ws : List RefMemoryChunk} (h : Sound p vs)
    (hperm : vs.Perm ws) : Sound p ws where
  inv := h.inv.perm hperm
  apart := (hperm.pairwise_iff fun hvw => Apart.symm hvw).mp h.apart
  fresh := fun v hv => h.fresh v (hperm.mem_iff.mpr hv)

theorem Sound.of_append_right {p : MemoryPool} {vs ws : List RefMemoryChunk}
    (h : Sound p (vs ++ ws)) : Sound p ws := by
  induction vs with
  | nil => exact h
  | cons v vs ih =>
      apply ih
      exact ⟨h.inv.weaken, h.apart.of_cons, fun w hw => h.fresh w (List.mem_cons_of_mem v hw)⟩

/-- What moving the first `n` bytes of `vs` leaves: the bytes moved, the bytes kept,
    and sound views among whatever else is held. -/
structure Cut (p : MemoryPool) (n : Nat) (vs other : List RefMemoryChunk)
    (r : List RefMemoryChunk × List RefMemoryChunk × MemoryPool) : Prop where
  sound : Sound r.2.2 (r.1 ++ (r.2.1 ++ other))
  moved : bytesOf p.mem r.1 = (bytesOf p.mem vs).take n
  kept : bytesOf p.mem r.2.1 = (bytesOf p.mem vs).drop n
  mem : r.2.2.mem = p.mem
  chunksize : r.2.2.chunksize = p.chunksize
  filled : (∀ v ∈ vs, 0 < v.count) → ∀ v ∈ r.2.1, 0 < v.count
  length_le : r.2.1.length ≤ vs.length

theorem cut_zero (p : MemoryPool) (vs : List RefMemoryChunk) : cut p 0 vs = ([], vs, p) := by
  cases vs <;> simp [cut]

theorem cut_cons_whole (p : MemoryPool) {n : Nat} {v : RefMemoryChunk} (vs : List RefMemoryChunk)
    (hn : n ≠ 0) (h : v.count ≤ n) :
    cut p n (v :: vs) =
      (v :: (cut ((p.retainChunk v).releaseChunk v) (n - v.count) vs).1,
        (cut ((p.retainChunk v).releaseChunk v) (n - v.count) vs).2.1,
        (cut ((p.retainChunk v).releaseChunk v) (n - v.count) vs).2.2) := by
  simp only [cut, if_neg hn, if_pos h]

theorem cut_cons_split (p : MemoryPool) {n : Nat} {v : RefMemoryChunk} (vs : List RefMemoryChunk)
    (hn : n ≠ 0) (h : ¬ v.count ≤ n) :
    cut p n (v :: vs) =
      ([v.shrinkCount (v.count - n)], v.forwardOffset n :: vs, p.retainChunk v) := by
  simp only [cut, if_neg hn, if_neg h]

/-- Both halves of a split view are counted. -/
theorem inv_split {p : MemoryPool} {v : RefMemoryChunk} {vs : List RefMemoryChunk} {n : Nat}
    (h : p.Inv (v :: vs)) (hn : n ≤ v.count) :
    (p.retainChunk v).Inv (v.shrinkCount (v.count - n) :: v.forwardOffset n :: vs) := by
  have hbound := h.live_bound v List.mem_cons_self
  have hshrink := within_shrinkCount v (v.count - n)
  have hforward := within_forwardOffset hn
  have hcopy := h.retainChunk List.mem_cons_self
  have hfirst := hcopy.remap hshrink.1 (Nat.le_trans hshrink.2.2 hbound)
  have hsecond := (hfirst.perm (List.Perm.swap _ _ _)).remap hforward.1
    (Nat.le_trans hforward.2.2 hbound)
  exact hsecond.perm (List.Perm.swap _ _ _)

theorem inv_cut : ∀ (vs : List RefMemoryChunk) (p : MemoryPool) (n : Nat)
    (other : List RefMemoryChunk), p.Inv (vs ++ other) →
    (cut p n vs).2.2.Inv ((cut p n vs).1 ++ ((cut p n vs).2.1 ++ other)) := by
  intro vs
  induction vs with
  | nil => intro p n other h; exact h
  | cons v vs ih =>
      intro p n other h
      by_cases hn : n = 0
      · rw [hn, cut_zero]
        exact h
      · by_cases hle : v.count ≤ n
        · -- the copy takes over the reference of the original
          have hcopy : ((p.retainChunk v).releaseChunk v).Inv (v :: (vs ++ other)) :=
            (h.retainChunk List.mem_cons_self).releaseChunk
          have hrest := ih ((p.retainChunk v).releaseChunk v) (n - v.count) (v :: other)
            (hcopy.perm List.perm_middle.symm)
          rw [cut_cons_whole p vs hn hle]
          apply hrest.perm
          rw [← List.append_assoc, ← List.append_assoc]
          exact List.perm_middle
        · rw [cut_cons_split p vs hn hle]
          exact inv_split h (by omega)

theorem pool_cut : ∀ (vs : List RefMemoryChunk) (p : MemoryPool) (n : Nat),
    (cut p n vs).2.2.mem = p.mem ∧ (cut p n vs).2.2.chunksize = p.chunksize := by
  intro vs
  induction vs with
  | nil => intro p n; exact ⟨rfl, rfl⟩
  | cons v vs ih =>
      intro p n
      by_cases hn : n = 0
      · rw [hn, cut_zero]
        exact ⟨rfl, rfl⟩
      · by_cases hle : v.count ≤ n
        · obtain ⟨hmem, hsize⟩ := ih ((p.retainChunk v).releaseChunk v) (n - v.count)
          rw [cut_cons_whole p vs hn hle]
          exact ⟨hmem.trans (MemoryPool.mem_releaseChunk _ v),
            hsize.trans (MemoryPool.chunksize_releaseChunk _ v)⟩
        · rw [cut_cons_split p vs hn hle]
          exact ⟨rfl, rfl⟩

theorem bytesOf_cut (m : Bytes) : ∀ (vs : List RefMemoryChunk) (p : MemoryPool) (n : Nat),
    bytesOf m (cut p n vs).1 = (bytesOf m vs).take n ∧
      bytesOf m (cut p n vs).2.1 = (bytesOf m vs).drop n := by
  intro vs
  induction vs with
  | nil => intro p n; simp [cut]
  | cons v vs ih =>
      intro p n
      have hlen : (v.bytes m).length = v.count := length_bytes m v
      by_cases hn : n = 0
      · rw [hn, cut_zero]
        exact ⟨rfl, rfl⟩
      · by_cases hle : v.count ≤ n
        · obtain ⟨hmoved, hkept⟩ := ih ((p.retainChunk v).releaseChunk v) (n - v.count)
          have hall : (v.bytes m).take n = v.bytes m := List.take_of_length_le (by omega)
          have hnone : (v.bytes m).drop n = [] := List.drop_eq_nil_of_le (by omega)
          rw [cut_cons_whole p vs hn hle]
          constructor
          · rw [bytesOf_cons, bytesOf_cons, List.take_append, hall, hlen, hmoved]
          · rw [bytesOf_cons, List.drop_append, hnone, hlen, hkept, List.nil_append]
        · have hle' : n ≤ v.count := by omega
          rw [cut_cons_split p vs hn hle]
          constructor
          · rw [bytesOf_cons, bytesOf_nil, List.append_nil, bytes_shrinkCount _ _ hle',
              bytesOf_cons, List.take_append_of_le_length (by omega)]
          · rw [bytesOf_cons, bytes_forwardOffset _ _ hle', bytesOf_cons,
              List.drop_append_of_le_length (by omega)]

/-- Whatever `cut` gives out maps a part of what went in, from its start on. -/
theorem within_cut : ∀ (vs : List RefMemoryChunk) (p : MemoryPool) (n : Nat),
    ∀ w ∈ (cut p n vs).1 ++ (cut p n vs).2.1, w ∈ vs ∨ (w.pos = 0 ∧ ∃ v ∈ vs, Within w v) := by
  intro vs
  induction vs with
  | nil => intro p n w hw; exact Or.inl hw
  | cons v vs ih =>
      intro p n w hw
      by_cases hn : n = 0
      · rw [hn, cut_zero] at hw
        exact Or.inl hw
      · by_cases hle : v.count ≤ n
        · rw [cut_cons_whole p vs hn hle] at hw
          rcases List.mem_cons.mp hw with rfl | hw
          · exact Or.inl List.mem_cons_self
          · rcases ih _ _ w hw with hmem | ⟨hpos, u, hu, hwithin⟩
            · exact Or.inl (List.mem_cons_of_mem v hmem)
            · exact Or.inr ⟨hpos, u, List.mem_cons_of_mem v hu, hwithin⟩
        · rw [cut_cons_split p vs hn hle] at hw
          rcases List.mem_cons.mp hw with rfl | hw
          · exact Or.inr ⟨rfl, v, List.mem_cons_self, within_shrinkCount v _⟩
          · rcases List.mem_cons.mp hw with rfl | hw
            · exact Or.inr ⟨rfl, v, List.mem_cons_self, within_forwardOffset (by omega)⟩
            · exact Or.inl (List.mem_cons_of_mem v hw)

/-- What is apart from all that went in is apart from all that comes out. -/
theorem apart_of_cut {vs : List RefMemoryChunk} {p : MemoryPool} {n : Nat} {u w : RefMemoryChunk}
    (hw : w ∈ (cut p n vs).1 ++ (cut p n vs).2.1) (h : ∀ v ∈ vs, Apart v u) : Apart w u := by
  rcases within_cut vs p n w hw with hmem | ⟨-, v, hv, hwithin⟩
  · exact h w hmem
  · exact (h v hv).within hwithin

theorem pairwise_cut : ∀ (vs : List RefMemoryChunk) (p : MemoryPool) (n : Nat),
    vs.Pairwise Apart → ((cut p n vs).1 ++ (cut p n vs).2.1).Pairwise Apart := by
  intro vs
  induction vs with
  | nil => intro p n h; exact h
  | cons v vs ih =>
      intro p n h
      obtain ⟨hv, hvs⟩ := List.pairwise_cons.mp h
      by_cases hn : n = 0
      · rw [hn, cut_zero]
        exact h
      · by_cases hle : v.count ≤ n
        · rw [cut_cons_whole p vs hn hle]
          refine List.Pairwise.cons ?_ (ih _ _ hvs)
          exact fun w hw => (apart_of_cut hw fun u hu => (hv u hu).symm).symm
        · have hshrink := within_shrinkCount v (v.count - n)
          have hforward := within_forwardOffset (show n ≤ v.count by omega)
          rw [cut_cons_split p vs hn hle]
          refine List.Pairwise.cons ?_ (List.Pairwise.cons ?_ hvs)
          · intro w hw
            rcases List.mem_cons.mp hw with rfl | hw
            · exact apart_split (by omega)
            · exact (hv w hw).within hshrink
          · exact fun w hw => (hv w hw).within hforward

/-- What is left over is not empty and no longer than what went in. -/
theorem left_cut : ∀ (vs : List RefMemoryChunk) (p : MemoryPool) (n : Nat),
    ((∀ v ∈ vs, 0 < v.count) → ∀ v ∈ (cut p n vs).2.1, 0 < v.count) ∧
      (cut p n vs).2.1.length ≤ vs.length := by
  intro vs
  induction vs with
  | nil => intro p n; exact ⟨fun hf => hf, Nat.le_refl _⟩
  | cons v vs ih =>
      intro p n
      by_cases hn : n = 0
      · rw [hn, cut_zero]
        exact ⟨fun hf => hf, Nat.le_refl _⟩
      · by_cases hle : v.count ≤ n
        · obtain ⟨hfilled, hlength⟩ := ih ((p.retainChunk v).releaseChunk v) (n - v.count)
          rw [cut_cons_whole p vs hn hle]
          exact ⟨fun hf => hfilled fun w hw => hf w (List.mem_cons_of_mem v hw),
            Nat.le_succ_of_le hlength⟩
        · rw [cut_cons_split p vs hn hle]
          refine ⟨?_, Nat.le_refl _⟩
          intro hf w hw
          rcases List.mem_cons.mp hw with rfl | hw
          · simp only [forwardOffset, reset]
            omega
          · exact hf w (List.mem_cons_of_mem v hw)

theorem cut_spec (vs : List RefMemoryChunk) (p : MemoryPool) (n : Nat)
    (other : List RefMemoryChunk) (h : Sound p (vs ++ other)) : Cut p n vs other (cut p n vs) := by
  obtain ⟨hvs, hother, hcross⟩ := List.pairwise_append.mp h.apart
  have hinv := inv_cut vs p n other h.inv
  have hpairwise := pairwise_cut vs p n hvs
  obtain ⟨hmoved, hkept⟩ := bytesOf_cut p.mem vs p n
  obtain ⟨hmem, hsize⟩ := pool_cut vs p n
  obtain ⟨hfilled, hlength⟩ := left_cut vs p n
  have hapart : ((cut p n vs).1 ++ ((cut p n vs).2.1 ++ other)).Pairwise Apart := by
    rw [← List.append_assoc]
    refine List.pairwise_append.mpr ⟨hpairwise, hother, ?_⟩
    exact fun w hw u hu => apart_of_cut hw fun v hv => hcross v hv u hu
  refine ⟨⟨hinv, hapart, ?_⟩, hmoved, hkept, hmem, hsize, hfilled, hlength⟩
  intro w hw
  rw [← List.append_assoc] at hw
  rcases List.mem_append.mp hw with hw | hw
  · rcases within_cut vs p n w hw with hmem | ⟨hpos, -⟩
    · exact h.fresh w (List.mem_append_left _ hmem)
    · exact hpos
  · exact h.fresh w (List.mem_append_right _ hw)

theorem scatter_apart : ∀ (vs : List RefMemoryChunk) (m : Bytes) (bs : List UInt8)
    {w : RefMemoryChunk}, (∀ v ∈ vs, Apart v w) → w.bytes (scatter m vs bs) = w.bytes m := by
  intro vs
  induction vs with
  | nil => intro m bs w _; rfl
  | cons v vs ih =>
      intro m bs w h
      have hfit : v.data + (bs.take v.count).length ≤ v.data + v.count := by
        rw [List.length_take]
        omega
      rw [scatter, ih _ _ fun u hu => h u (List.mem_cons_of_mem v hu)]
      exact bytes_write_apart m _ (h v List.mem_cons_self) (Nat.le_refl _) hfit

theorem bytesOf_scatter : ∀ (vs : List RefMemoryChunk) (m : Bytes) (bs : List UInt8),
    vs.Pairwise Apart →
    bytesOf (scatter m vs bs) vs = bs.take (total vs) ++ (bytesOf m vs).drop bs.length := by
  intro vs
  induction vs with
  | nil => intro m bs _; simp
  | cons v vs ih =>
      intro m bs h
      obtain ⟨hv, hvs⟩ := List.pairwise_cons.mp h
      have hfit : (bs.take v.count).length ≤ v.count := by
        rw [List.length_take]
        omega
      have hlen : (v.bytes m).length = v.count := length_bytes m v
      -- `v` is written once and not touched by the later views, nor they by it
      have hfirst : v.bytes (m.write v.chunk v.data (bs.take v.count)) =
          bs.take v.count ++ (v.bytes m).drop (bs.take v.count).length := by
        have hin := Segments.read_write_inside m v.chunk v.data v.count 0 (bs.take v.count) (by omega)
        rw [Nat.add_zero, Nat.zero_add, List.take_zero, List.nil_append] at hin
        exact hin
      have hrest : bytesOf (m.write v.chunk v.data (bs.take v.count)) vs = bytesOf m vs :=
        bytesOf_congr fun w hw => bytes_write_apart m _ (hv w hw) (Nat.le_refl _) (by omega)
      rw [bytesOf_cons, scatter, scatter_apart vs _ _ fun w hw => (hv w hw).symm, hfirst, ih _ _ hvs,
        hrest, bytesOf_cons, total_cons, List.length_drop, List.length_take, List.drop_append, hlen]
      rcases Nat.le_total bs.length v.count with hle | hle
      · have htake : bs.take v.count = bs := List.take_of_length_le hle
        have hdrop : bs.drop v.count = [] := List.drop_eq_nil_of_le hle
        rw [htake, hdrop, Nat.min_eq_right hle, Nat.sub_eq_zero_of_le hle, List.take_nil,
          List.nil_append, List.take_of_length_le (by omega), List.append_assoc]
      · have hover : (v.bytes m).drop v.count = [] := List.drop_eq_nil_of_le (Nat.le_of_eq hlen)
        have hover' : (v.bytes m).drop bs.length = [] := List.drop_eq_nil_of_le (by omega)
        rw [Nat.min_eq_left hle, hover, hover', List.append_nil, List.nil_append,
          ← List.append_assoc, ← List.take_add]

namespace Client

variable {δ : Type}

/-! ### One pass of the read loop -/

/-- The invariant of a client between two calls of its handlers. -/
structure Inv (c : Client δ) : Prop where
  sound : Sound c.pool (c.recvq ++ c.recvp)
  filled : ∀ v ∈ c.recvp, 0 < v.count
  recvp_le : c.recvp.length ≤ recvpSize
  count : c.recvqCount = total c.recvq
  chunk_pos : 0 < c.pool.chunkLength

/-- The unconsumed bytes. -/
def received (c : Client δ) : List UInt8 := bytesOf c.pool.mem c.recvq

theorem Inv.count_eq {c : Client δ} (h : c.Inv) : c.recvqCount = c.received.length := by
  rw [h.count, received, length_bytesOf]

theorem replenish_spec {c : Client δ} (h : c.Inv) :
    c.replenish.Inv ∧ c.replenish.received = c.received ∧ c.replenish.recvp.length = recvpSize ∧
      c.replenish.closed = c.closed ∧ c.replenish.connect = c.connect ∧
      c.replenish.derived = c.derived := by
  have hle := h.recvp_le
  unfold replenish
  split
  · rename_i hlt
    have haq := MemoryPool.aquire_spec (recvpSize - c.recvp.length) h.sound.inv
    rcases hr : MemoryPool.aquire (recvpSize - c.recvp.length) c.pool with ⟨vs, q⟩
    rw [hr] at haq
    have hlength : (c.recvp ++ vs).length = recvpSize := by
      rw [List.length_append, haq.length]
      omega
    refine ⟨⟨?_, ?_, Nat.le_of_eq hlength, h.count, ?_⟩, ?_, hlength, rfl, rfl, rfl⟩
    · have hall : Sound q (vs ++ (c.recvq ++ c.recvp)) := by
        constructor
        · exact haq.inv
        · apply List.pairwise_append.mpr
          refine ⟨?_, h.sound.apart, fun v hv w hw => Or.inl (haq.fresh v hv w hw)⟩
          have hdistinct := haq.distinct
          rw [List.Nodup, List.pairwise_map] at hdistinct
          exact hdistinct.imp fun hne => Or.inl hne
        · intro v hv
          rcases List.mem_append.mp hv with hv | hv
          · exact (haq.whole v hv).2.1
          · exact h.sound.fresh v hv
      apply hall.perm
      rw [← List.append_assoc c.recvq]
      exact List.perm_append_comm
    · intro v hv
      rcases List.mem_append.mp hv with hv | hv
      · exact h.filled v hv
      · rw [(haq.whole v hv).2.2]
        exact h.chunk_pos
    · rw [MemoryPool.chunkLength, haq.chunksize]
      exact h.chunk_pos
    · simp only [received]
      rw [show q.mem = c.pool.mem from haq.mem]
  · exact ⟨h, rfl, by omega, rfl, rfl, rfl⟩

theorem recvp2IOVec_eq {c : Client δ} (h : c.Inv) : c.recvp2IOVec = c.recvp := by
  apply List.take_of_length_le
  have := h.recvp_le
  simp only [recvpSize, recviovSize] at *
  omega

/-- What `readv` read is at the end of the receive queue. -/
theorem transfer_spec {c : Client δ} (h : c.Inv) {bs : List UInt8} (hbs : bs.length ≤ total c.recvp) :
    (c.transfer bs).Inv ∧ (c.transfer bs).received = c.received ++ bs ∧
      (c.transfer bs).closed = c.closed ∧ (c.transfer bs).connect = c.connect ∧
      (c.transfer bs).derived = c.derived := by
  have happ := List.pairwise_append.mp h.sound.apart
  have hpool : Sound { c.pool with mem := scatter c.pool.mem c.recvp bs } (c.recvp ++ c.recvq) := by
    have hswap := h.sound.perm List.perm_append_comm
    exact ⟨hswap.inv.of_mem _, hswap.apart, hswap.fresh⟩
  have hcut := cut_spec c.recvp _ bs.length c.recvq hpool
  have hfill := bytesOf_scatter c.recvp c.pool.mem bs happ.2.1
  have hqueue : bytesOf (scatter c.pool.mem c.recvp bs) c.recvq = bytesOf c.pool.mem c.recvq :=
    bytesOf_congr fun w hw => scatter_apart _ _ _ fun v hv => (happ.2.2 w hw v hv).symm
  have hmoved := hcut.moved
  simp only at hmoved
  rw [hfill, List.take_of_length_le hbs, List.take_left] at hmoved
  rcases hr : cut { c.pool with mem := scatter c.pool.mem c.recvp bs } bs.length c.recvp
    with ⟨a, r, q⟩
  have heq : c.transfer bs = { c with pool := q, recvq := c.recvq ++ a, recvp := r,
                                      recvqCount := c.recvqCount + bs.length } := by
    simp only [transfer, recvp2IOVec_eq h, hr]
  rw [hr] at hcut hmoved
  rw [heq]
  refine ⟨⟨?_, hcut.filled h.filled, Nat.le_trans hcut.length_le h.recvp_le, ?_, ?_⟩, ?_,
    rfl, rfl, rfl⟩
  · apply hcut.sound.perm
    rw [← List.append_assoc]
    exact (List.perm_append_comm).trans (by rw [List.append_assoc])
  · simp only [total_append, h.count]
    rw [← length_bytesOf (scatter c.pool.mem c.recvp bs) a, hmoved]
  · rw [MemoryPool.chunkLength, hcut.chunksize]
    exact h.chunk_pos
  · simp only [received, bytesOf_append]
    rw [show q.mem = scatter c.pool.mem c.recvp bs from hcut.mem, hqueue, hmoved]

/-- From `2 ^ 32` on only the rest modulo `2 ^ 32` is copied. -/
theorem copyChunks_spec (m : Bytes) : ∀ (vs : List RefMemoryChunk) (n : Nat),
    (∀ v ∈ vs, v.pos = 0) → copyChunks m n vs = ((bytesOf m vs).take (n % 2 ^ 32), vs) := by
  intro vs
  induction vs with
  | nil => intro n _; simp [copyChunks]
  | cons v vs ih =>
      intro n h
      have hv : v.pos = 0 := h v List.mem_cons_self
      have hlen : (v.bytes m).length = v.count := length_bytes m v
      have hunread : v.unread m = v.bytes m := by simp [unread, bytes, freeCount, hv]
      have hreset : (v.read m (n % 2 ^ 32)).2.reset = v := by
        obtain ⟨c, d, k, e⟩ := v
        subst hv
        rfl
      have hlength : (v.read m (n % 2 ^ 32)).1.length = min (n % 2 ^ 32) v.count := by
        rw [read_fst, hunread, List.length_take, hlen]
      by_cases hn : n = 0
      · simp [copyChunks, hn]
      · have hmod : (n - min (n % 2 ^ 32) v.count) % 2 ^ 32 = n % 2 ^ 32 - v.count := by omega
        simp only [copyChunks, if_neg hn, hreset, hlength,
          ih (n - min (n % 2 ^ 32) v.count) fun w hw => h w (List.mem_cons_of_mem v hw)]
        rw [read_fst, hunread, bytesOf_cons, List.take_append, hlen, hmod]

/-- `CopyReceive` looks at the front of the queue and leaves it there. -/
theorem copyReceive_fresh {c : Client δ} (h : ∀ v ∈ c.recvq, v.pos = 0) (n : Nat) :
    c.copyReceive n = (c.received.take (n % 2 ^ 32), c) := by
  rw [copyReceive, copyChunks_spec _ _ _ h]
  rfl

theorem copyReceive_spec {c : Client δ} (h : c.Inv) {n : Nat} (hn : n < 2 ^ 32) :
    c.copyReceive n = (c.received.take n, c) := by
  have hfresh := copyReceive_fresh (fun v hv => h.sound.fresh v (List.mem_append_left _ hv)) n
  rwa [Nat.mod_eq_of_lt hn] at hfresh

/-- `PopReceive` takes the front of the queue. -/
theorem popReceive_spec {c : Client δ} (h : c.Inv) {n : Nat} (hn : n ≤ c.received.length) :
    bytesOf c.pool.mem (c.popReceive n).1 = c.received.take n ∧
      (c.popReceive n).2.received = c.received.drop n ∧
      (c.popReceive n).2.Inv ∧ (c.popReceive n).2.pool.mem = c.pool.mem ∧
      Sound (c.popReceive n).2.pool ((c.popReceive n).1 ++
        ((c.popReceive n).2.recvq ++ (c.popReceive n).2.recvp)) ∧
      (c.popReceive n).2.closed = c.closed ∧ (c.popReceive n).2.connect = c.connect ∧
      (c.popReceive n).2.derived = c.derived := by
  have hcut := cut_spec c.recvq c.pool n c.recvp h.sound
  rcases hr : cut c.pool n c.recvq with ⟨a, r, q⟩
  have heq : c.popReceive n =
      (a, { c with pool := q, recvq := r, recvqCount := c.recvqCount - total a }) := by
    simp only [popReceive, hr]
  rw [hr] at hcut
  have hmem : q.mem = c.pool.mem := hcut.mem
  have hmoved := congrArg List.length hcut.moved
  have hkept := congrArg List.length hcut.kept
  rw [received, length_bytesOf] at hn
  rw [length_bytesOf, List.length_take, length_bytesOf] at hmoved
  rw [length_bytesOf, List.length_drop, length_bytesOf] at hkept
  rw [heq]
  refine ⟨hcut.moved, ?_, ⟨hcut.sound.of_append_right, h.filled, h.recvp_le, ?_, ?_⟩, hmem,
    hcut.sound, rfl, rfl, rfl⟩
  · simp only [received, hmem]
    exact hcut.kept
  · simp only [h.count]
    simp only at hmoved hkept
    omega
  · rw [MemoryPool.chunkLength, hcut.chunksize]
    exact h.chunk_pos

theorem total_pos_of_filled {vs : List RefMemoryChunk} (h : ∀ v ∈ vs, 0 < v.count)
    (hne : vs ≠ []) : 0 < total vs := by
  cases vs with
  | nil => exact absurd rfl hne
  | cons v vs =>
      have := h v List.mem_cons_self
      rw [total_cons]
      omega

theorem total_recvp_pos {c : Client δ} (h : c.Inv) (hlen : c.recvp.length = recvpSize) :
    0 < total c.recvp := by
  apply total_pos_of_filled h.filled
  intro hnil
  rw [hnil] at hlen
  exact absurd hlen (by decide)

/-- There is always room to read into. -/
theorem room_ne_zero {c : Client δ} (h : c.Inv) (hlen : c.recvp.length = recvpSize) :
    ¬ (c.recvp = [] ∨ min (total c.recvp) maxRWCount = 0) := by
  have hpos := total_recvp_pos h hlen
  rintro (hnil | hzero)
  · rw [hnil] at hpos
    exact absurd hpos (by simp)
  · simp only [maxRWCount] at hzero
    omega

theorem onEventIOReadable_closed (onReceive : Nat → Client δ → Client δ) (answers : List Ready)
    {c : Client δ} (pending : List UInt8) (h : c.closed = true) :
    onEventIOReadable onReceive answers c pending = (c, pending) := by
  unfold onEventIOReadable
  simp [h]

section ReadLoop

variable {onReceive : Nat → Client δ → Client δ} {c : Client δ} (h : c.Inv)
  (hconnect : c.connect = true) (hopen : c.closed = false)

include h hconnect hopen

theorem onEventIOReadable_again (pending : List UInt8) :
    onEventIOReadable onReceive [] c pending = (c.replenish, pending) := by
  obtain ⟨hinv, -, hlen, -⟩ := replenish_spec h
  have hroom := room_ne_zero hinv hlen
  unfold onEventIOReadable
  simp only [hconnect, hopen, Bool.not_false, Bool.and_self, if_true, recvp2IOVec_eq hinv,
    if_neg hroom]

theorem onEventIOReadable_drained (n : ℕ+) (answers : List Ready) :
    onEventIOReadable onReceive (.bytes n :: answers) c [] = (c.replenish, []) := by
  obtain ⟨hinv, -, hlen, -⟩ := replenish_spec h
  have hroom := room_ne_zero hinv hlen
  unfold onEventIOReadable
  simp only [hconnect, hopen, Bool.not_false, Bool.and_self, if_true, recvp2IOVec_eq hinv,
    if_neg hroom, List.length_nil, Nat.min_zero]

/-- One pass of the loop reads between one byte and as many as there is room for. -/
theorem onEventIOReadable_bytes (n : ℕ+) (answers : List Ready) {pending : List UInt8}
    (hpending : pending ≠ []) :
    ∃ rc, 0 < rc ∧ rc ≤ pending.length ∧ rc ≤ total c.replenish.recvp ∧
      onEventIOReadable onReceive (.bytes n :: answers) c pending =
        onEventIOReadable onReceive answers
          (onReceive (c.replenish.transfer (pending.take rc)).recvqCount
            (c.replenish.transfer (pending.take rc))) (pending.drop rc) := by
  obtain ⟨hinv, -, hlen, -⟩ := replenish_spec h
  have hroom := room_ne_zero hinv hlen
  have hn := n.pos
  have hp := List.length_pos_iff.mpr hpending
  have hrc : ¬ min (min (n : Nat) (min (total c.replenish.recvp) maxRWCount)) pending.length = 0 := by
    have := fun hzero => hroom (Or.inr hzero)
    omega
  refine ⟨min (min n (min (total c.replenish.recvp) maxRWCount)) pending.length,
    Nat.pos_of_ne_zero hrc, Nat.min_le_right _ _, by omega, ?_⟩
  conv_lhs => unfold onEventIOReadable
  simp only [hconnect, hopen, Bool.not_false, Bool.and_self, if_true, recvp2IOVec_eq hinv,
    if_neg hroom, if_neg hrc]

end ReadLoop

/-- **The rule for the read loop.**  A relation between a client and the bytes it has
    read so far is kept by the loop when it survives a replenished pool and one
    call of `OnReceive`.  Every answer of the kernel moves at least one byte as
    long as there are any and the client is open. -/
theorem onEventIOReadable_rule {onReceive : Nat → Client δ → Client δ}
    {R : Client δ → List UInt8 → Prop}
    (hinv : ∀ c t, R c t → c.Inv ∧ c.connect = true)
    (hreplenish : ∀ c t, R c t → R c.replenish t)
    (hreceive : ∀ c t bs, R c t → c.closed = false → bs.length ≤ total c.recvp →
      R (onReceive (c.transfer bs).recvqCount (c.transfer bs)) (t ++ bs)) :
    ∀ (ns : List ℕ+) (c : Client δ) (t pending : List UInt8), R c t →
      ∃ t', t ++ pending = t' ++ (onEventIOReadable onReceive (ns.map .bytes) c pending).2 ∧
        R (onEventIOReadable onReceive (ns.map .bytes) c pending).1 t' ∧
        ((onEventIOReadable onReceive (ns.map .bytes) c pending).1.closed = true ∨
          (onEventIOReadable onReceive (ns.map .bytes) c pending).2.length ≤
            pending.length - ns.length) := by
  intro ns
  induction ns with
  | nil =>
      intro c t pending hR
      obtain ⟨h, hconnect⟩ := hinv c t hR
      rcases hopen : c.closed with _ | _
      · rw [List.map_nil, onEventIOReadable_again h hconnect hopen]
        exact ⟨t, rfl, hreplenish c t hR, Or.inr (Nat.le_refl _)⟩
      · rw [onEventIOReadable_closed _ _ _ hopen]
        exact ⟨t, rfl, hR, Or.inl hopen⟩
  | cons n ns ih =>
      intro c t pending hR
      obtain ⟨h, hconnect⟩ := hinv c t hR
      rcases hopen : c.closed with _ | _
      · rw [List.map_cons]
        by_cases hpending : pending = []
        · subst hpending
          rw [onEventIOReadable_drained h hconnect hopen]
          exact ⟨t, rfl, hreplenish c t hR, Or.inr (Nat.zero_le _)⟩
        · obtain ⟨rc, hpos, hle, hroom, heq⟩ :=
            onEventIOReadable_bytes h hconnect hopen n (ns.map .bytes) hpending
          have hlen : (pending.take rc).length = rc := List.length_take_of_le hle
          have hclosed : c.replenish.closed = false :=
            (replenish_spec h).2.2.2.1.trans hopen
          have hstep := hreceive _ _ (pending.take rc) (hreplenish c t hR) hclosed (by omega)
          obtain ⟨t', h1, h2, h3⟩ := ih _ _ (pending.drop rc) hstep
          rw [heq]
          refine ⟨t', ?_, h2, ?_⟩
          · rw [← h1, List.append_assoc, List.take_append_drop]
          · rcases h3 with h3 | h3
            · exact Or.inl h3
            · right
              rw [List.length_drop] at h3
              rw [List.length_cons]
              omega
      · rw [onEventIOReadable_closed _ _ _ hopen]
        exact ⟨t, rfl, hR, Or.inl hopen⟩

end Client

end Jengine.Net
