import Jengine.Memory.MemoryChunk
import Mathlib.Data.List.Nodup
import Mathlib.Logic.Function.Basic

/-!
# The memory pool and its reference counts

`MemoryPool` (`base/memory/memorypool.h`) keeps a bounded queue of free chunks
and creates new ones when the queue is empty; a view holds one reference to its
chunk, and the last view to go gives the chunk back.  The pool below carries
the queue, every chunk's `ref_`, the number the next `new` will use, and the
bytes of all chunks, so that a chunk that was handed out again really still
holds the bytes of its previous user.

`Inv p live` is the discipline the rest of the development relies on: the
chunks mapped by the views in `live` are counted in `ref_` (other holders may
count too), and no chunk is free while it is counted.  `Keeps` is what code
outside a modelled component promises: it leaves the views it does not hold
readable and their bytes unchanged.
-/

namespace Jengine.Memory

open Jengine.Lib RefMemoryChunk

/-- `MemoryPool` with the chunks it has created. -/
structure MemoryPool where
  chunksize : Nat
  poolsize : Nat
  /-- `chunks_`, the free queue. -/
  chunks : List Nat
  /-- `MemoryChunk::ref_`. -/
  ref : Nat → Nat
  /-- The number of the next chunk to be created. -/
  next : Nat
  /-- `MemoryChunk::data`. -/
  mem : Bytes

namespace MemoryPool

/-- The length of the pool's chunks: `MemoryChunk` takes the `std::size_t` chunk
    size as a `uint32_t`. -/
def chunkLength (p : MemoryPool) : Nat := p.chunksize % 2 ^ 32

/-- `CalculateChunkCount`. -/
def calculateChunkCount (p : MemoryPool) (bytesCount : Nat) : Nat :=
  if 0 < bytesCount % p.chunksize then bytesCount / p.chunksize + 1
  else bytesCount / p.chunksize

/-- A view of a whole chunk (`RefMemoryChunk(MemoryPool*, MemoryChunk*)`). -/
def wholeChunk (p : MemoryPool) (c : Nat) : RefMemoryChunk := ⟨c, 0, 0, p.chunkLength⟩

/-- `RetainChunk`, run by every copy of a view. -/
def retainChunk (p : MemoryPool) (v : RefMemoryChunk) : MemoryPool :=
  { p with ref := Function.update p.ref v.chunk (p.ref v.chunk + 1) }

/-- `MemoryPool::Release`: keep the chunk unless the queue is full. -/
def release (p : MemoryPool) (c : Nat) : MemoryPool :=
  if p.poolsize ≤ p.chunks.length then p else { p with chunks := p.chunks ++ [c] }

/-- `ReleaseChunk`, run by the destructor of every view. -/
def releaseChunk (p : MemoryPool) (v : RefMemoryChunk) : MemoryPool :=
  let q := { p with ref := Function.update p.ref v.chunk (p.ref v.chunk - 1) }
  if q.ref v.chunk = 0 then q.release v.chunk else q

/-- One pass of the loop of `Aquire`: the front of the queue, or a new chunk.
    The view that ends up in the container holds the only reference. -/
def aquireOne (p : MemoryPool) : RefMemoryChunk × MemoryPool :=
  match p.chunks with
  | c :: cs =>
      (p.wholeChunk c, { p with chunks := cs, ref := Function.update p.ref c (p.ref c + 1) })
  | [] =>
      (p.wholeChunk p.next,
        { p with next := p.next + 1, ref := Function.update p.ref p.next 1 })

/-- `Aquire`: the views appended to the container. -/
def aquire : Nat → MemoryPool → List RefMemoryChunk × MemoryPool
  | 0, p => ([], p)
  | n + 1, p =>
      let (v, q) := p.aquireOne
      let (vs, r) := aquire n q
      (v :: vs, r)

/-- `AquireByByteNeed`. -/
def aquireByByteNeed (p : MemoryPool) (bytesCount : Nat) : List RefMemoryChunk × MemoryPool :=
  aquire (p.calculateChunkCount bytesCount) p

/-- Destroy a container of views. -/
def releaseAll (p : MemoryPool) (vs : List RefMemoryChunk) : MemoryPool :=
  vs.foldl releaseChunk p

/-! ### The reference discipline -/

/-- The views in `live` are counted, lie inside their chunks, and no counted
    chunk is free. -/
structure Inv (p : MemoryPool) (live : List RefMemoryChunk) : Prop where
  free_nodup : p.chunks.Nodup
  free_ref : ∀ c ∈ p.chunks, p.ref c = 0
  free_lt : ∀ c ∈ p.chunks, c < p.next
  live_ref : ∀ c, (live.map chunk).count c ≤ p.ref c
  live_lt : ∀ v ∈ live, v.chunk < p.next
  live_bound : ∀ v ∈ live, v.data + v.count ≤ p.chunkLength

/-- What code that holds none of the views in `live` leaves to them. -/
structure Keeps (live : List RefMemoryChunk) (p q : MemoryPool) : Prop where
  chunksize : q.chunksize = p.chunksize
  inv : p.Inv live → q.Inv live
  bytes : ∀ v ∈ live, v.bytes q.mem = v.bytes p.mem

theorem Keeps.refl (live : List RefMemoryChunk) (p : MemoryPool) : Keeps live p p :=
  ⟨rfl, id, fun _ _ => rfl⟩

theorem Inv.perm {p : MemoryPool} {live live' : List RefMemoryChunk} (h : p.Inv live)
    (hperm : live.Perm live') : p.Inv live' where
  free_nodup := h.free_nodup
  free_ref := h.free_ref
  free_lt := h.free_lt
  live_ref := fun c => by
    rw [← (hperm.map chunk).count_eq c]
    exact h.live_ref c
  live_lt := fun v hv => h.live_lt v (hperm.mem_iff.mpr hv)
  live_bound := fun v hv => h.live_bound v (hperm.mem_iff.mpr hv)

/-- What the chunks hold is not the discipline's business. -/
theorem Inv.of_mem {p : MemoryPool} {live : List RefMemoryChunk} (h : p.Inv live) (m : Bytes) :
    ({ p with mem := m } : MemoryPool).Inv live :=
  ⟨h.free_nodup, h.free_ref, h.free_lt, h.live_ref, h.live_lt, h.live_bound⟩

/-- Replacing a view by another one of the same chunk keeps the discipline. -/
theorem Inv.remap {p : MemoryPool} {v w : RefMemoryChunk} {live : List RefMemoryChunk}
    (h : p.Inv (v :: live)) (hc : w.chunk = v.chunk)
    (hb : w.data + w.count ≤ p.chunkLength) : p.Inv (w :: live) where
  free_nodup := h.free_nodup
  free_ref := h.free_ref
  free_lt := h.free_lt
  live_ref := fun c => by
    have hcount := h.live_ref c
    simp only [List.map_cons] at hcount ⊢
    rw [hc]
    exact hcount
  live_lt := fun u hu => by
    rcases List.mem_cons.mp hu with rfl | hu
    · rw [hc]
      exact h.live_lt v List.mem_cons_self
    · exact h.live_lt u (List.mem_cons_of_mem v hu)
  live_bound := fun u hu => by
    rcases List.mem_cons.mp hu with rfl | hu
    · exact hb
    · exact h.live_bound u (List.mem_cons_of_mem v hu)

/-- A view that is given up may be forgotten before its destructor runs. -/
theorem Inv.weaken {p : MemoryPool} {v : RefMemoryChunk} {live : List RefMemoryChunk}
    (h : p.Inv (v :: live)) : p.Inv live where
  free_nodup := h.free_nodup
  free_ref := h.free_ref
  free_lt := h.free_lt
  live_ref := fun c => by
    have hcount := h.live_ref c
    simp only [List.map_cons, List.count_cons] at hcount
    omega
  live_lt := fun u hu => h.live_lt u (List.mem_cons_of_mem v hu)
  live_bound := fun u hu => h.live_bound u (List.mem_cons_of_mem v hu)

theorem Inv.of_append {p : MemoryPool} {live vs : List RefMemoryChunk} (h : p.Inv (vs ++ live)) :
    p.Inv vs := by
  induction live with
  | nil => rwa [List.append_nil] at h
  | cons v live ih => exact ih (Inv.weaken (h.perm List.perm_middle))

/-- A view keeps its place in the reference discipline when only its cursor moves. -/
theorem Inv.of_region_eq {p : MemoryPool} : ∀ {vs ws : List RefMemoryChunk},
    vs.map region = ws.map region → p.Inv ws → p.Inv vs := by
  intro vs ws h hinv
  have hmem : ∀ v ∈ vs, ∃ w ∈ ws, w.region = v.region := by
    intro v hv
    have : v.region ∈ ws.map region := h ▸ List.mem_map.mpr ⟨v, hv, rfl⟩
    exact List.mem_map.mp this
  have hchunk := map_chunk_of_region_eq h
  refine ⟨hinv.free_nodup, hinv.free_ref, hinv.free_lt, ?_, ?_, ?_⟩
  · rw [hchunk]
    exact hinv.live_ref
  · intro v hv
    obtain ⟨w, hw, heq⟩ := hmem v hv
    simp only [region, Prod.mk.injEq] at heq
    rw [← heq.1]
    exact hinv.live_lt w hw
  · intro v hv
    obtain ⟨w, hw, heq⟩ := hmem v hv
    simp only [region, Prod.mk.injEq] at heq
    rw [← heq.2.1, ← heq.2.2]
    exact hinv.live_bound w hw

/-- Copying a view. -/
theorem Inv.retainChunk {p : MemoryPool} {v : RefMemoryChunk} {live : List RefMemoryChunk}
    (h : p.Inv live) (hv : v ∈ live) : (p.retainChunk v).Inv (v :: live) where
  free_nodup := h.free_nodup
  free_ref := fun c hc => by
    have hne : c ≠ v.chunk := by
      intro heq
      have hpos : 0 < (live.map chunk).count c :=
        List.count_pos_iff.mpr (List.mem_map.mpr ⟨v, hv, heq.symm⟩)
      have hle := h.live_ref c
      rw [h.free_ref c hc] at hle
      omega
    simp only [MemoryPool.retainChunk, Function.update_of_ne hne]
    exact h.free_ref c hc
  free_lt := h.free_lt
  live_ref := fun c => by
    have hle := h.live_ref c
    simp only [MemoryPool.retainChunk, List.map_cons, List.count_cons]
    by_cases heq : c = v.chunk
    · subst heq
      simp only [Function.update_self, beq_self_eq_true, if_true]
      omega
    · have hne : (v.chunk == c) = false := by simpa using Ne.symm heq
      simp only [Function.update_of_ne heq, hne]
      simpa using hle
  live_lt := fun u hu => by
    rcases List.mem_cons.mp hu with rfl | hu
    · exact h.live_lt _ hv
    · exact h.live_lt u hu
  live_bound := fun u hu => by
    rcases List.mem_cons.mp hu with rfl | hu
    · exact h.live_bound _ hv
    · exact h.live_bound u hu

@[simp] theorem mem_releaseChunk (p : MemoryPool) (v : RefMemoryChunk) :
    (p.releaseChunk v).mem = p.mem := by
  simp only [releaseChunk, release]
  split
  · split <;> rfl
  · rfl

@[simp] theorem chunksize_releaseChunk (p : MemoryPool) (v : RefMemoryChunk) :
    (p.releaseChunk v).chunksize = p.chunksize := by
  simp only [releaseChunk, release]
  split
  · split <;> rfl
  · rfl

/-- Destroying a view. -/
theorem Inv.releaseChunk {p : MemoryPool} {v : RefMemoryChunk} {live : List RefMemoryChunk}
    (h : p.Inv (v :: live)) : (p.releaseChunk v).Inv live := by
  have hv := h.live_ref v.chunk
  simp only [List.map_cons, List.count_cons_self] at hv
  have hnotfree : v.chunk ∉ p.chunks := by
    intro hmem
    have := h.free_ref v.chunk hmem
    omega
  -- the pool after `DecRef`, before the chunk is possibly given back
  have hdec : ∀ c, (live.map chunk).count c ≤
      Function.update p.ref v.chunk (p.ref v.chunk - 1) c := by
    intro c
    by_cases heq : c = v.chunk
    · subst heq
      simp only [Function.update_self]
      omega
    · simp only [Function.update_of_ne heq]
      have hle := h.live_ref c
      simp only [List.map_cons, List.count_cons] at hle
      omega
  have hfree : ∀ c ∈ p.chunks, Function.update p.ref v.chunk (p.ref v.chunk - 1) c = 0 := by
    intro c hc
    have hne : c ≠ v.chunk := fun heq => hnotfree (heq ▸ hc)
    simp only [Function.update_of_ne hne]
    exact h.free_ref c hc
  have hlt : ∀ u ∈ live, u.chunk < p.next := fun u hu => h.live_lt u (List.mem_cons_of_mem v hu)
  have hbound : ∀ u ∈ live, u.data + u.count ≤ p.chunkLength :=
    fun u hu => h.live_bound u (List.mem_cons_of_mem v hu)
  simp only [MemoryPool.releaseChunk, release]
  split
  · rename_i hzero
    split
    · exact ⟨h.free_nodup, hfree, h.free_lt, hdec, hlt, hbound⟩
    · refine ⟨?_, ?_, ?_, hdec, hlt, hbound⟩
      · exact List.Nodup.append h.free_nodup (List.nodup_singleton _)
          (by simpa using hnotfree)
      · intro c hc
        rcases List.mem_append.mp hc with hc | hc
        · exact hfree c hc
        · rw [List.mem_singleton.mp hc]
          exact hzero
      · intro c hc
        rcases List.mem_append.mp hc with hc | hc
        · exact h.free_lt c hc
        · rw [List.mem_singleton.mp hc]
          exact h.live_lt v List.mem_cons_self
  · exact ⟨h.free_nodup, hfree, h.free_lt, hdec, hlt, hbound⟩

/-- Destroying a container of views. -/
theorem Inv.releaseAll {live : List RefMemoryChunk} :
    ∀ (vs : List RefMemoryChunk) {p : MemoryPool}, p.Inv (vs ++ live) →
      (p.releaseAll vs).Inv live ∧ (p.releaseAll vs).mem = p.mem ∧
        (p.releaseAll vs).chunksize = p.chunksize := by
  intro vs
  induction vs with
  | nil => intro p h; exact ⟨h, rfl, rfl⟩
  | cons v vs ih =>
      intro p h
      obtain ⟨hinv, hmem, hsize⟩ := ih (p := p.releaseChunk v) (Inv.releaseChunk h)
      exact ⟨hinv, hmem.trans (mem_releaseChunk p v), hsize.trans (chunksize_releaseChunk p v)⟩

/-- A pool without recycled chunks. -/
def emptyPool (chunksize : Nat) : MemoryPool := ⟨chunksize, 0, [], fun _ => 0, 0, fun _ _ => 0⟩

theorem emptyPool_inv (chunksize : Nat) : (emptyPool chunksize).Inv [] where
  free_nodup := List.nodup_nil
  free_ref := fun _ h => absurd h List.not_mem_nil
  free_lt := fun _ h => absurd h List.not_mem_nil
  live_ref := fun _ => Nat.zero_le _
  live_lt := fun _ h => absurd h List.not_mem_nil
  live_bound := fun _ h => absurd h List.not_mem_nil

/-! ### Acquiring -/

/-- What `Aquire` appends: as many whole chunks as asked for, pairwise distinct,
    none of them mapped by a live view, with the bytes they happened to hold. -/
structure Aquired (p : MemoryPool) (live : List RefMemoryChunk) (n : Nat)
    (vs : List RefMemoryChunk) (q : MemoryPool) : Prop where
  length : vs.length = n
  whole : ∀ v ∈ vs, v.data = 0 ∧ v.pos = 0 ∧ v.count = p.chunkLength
  distinct : (vs.map chunk).Nodup
  fresh : ∀ v ∈ vs, ∀ w ∈ live, v.chunk ≠ w.chunk
  inv : q.Inv (vs ++ live)
  mem : q.mem = p.mem
  chunksize : q.chunksize = p.chunksize

/-- Taking a chunk nobody maps, and giving it its first reference. -/
theorem Inv.take {p : MemoryPool} {live : List RefMemoryChunk} (h : p.Inv live)
    {cs : List Nat} {c next : Nat} {r : Nat} (hcs : cs.Sublist p.chunks)
    (hc : c ∉ cs) (hfresh : ∀ w ∈ live, c ≠ w.chunk) (hnext : p.next ≤ next) (hlt : c < next)
    (hr : 0 < r) :
    ({ p with chunks := cs, next := next, ref := Function.update p.ref c r } : MemoryPool).Inv
      (p.wholeChunk c :: live) where
  free_nodup := h.free_nodup.sublist hcs
  free_ref := fun d hd => by
    have hne : d ≠ c := fun heq => hc (heq ▸ hd)
    simp only [Function.update_of_ne hne]
    exact h.free_ref d (hcs.subset hd)
  free_lt := fun d hd => Nat.lt_of_lt_of_le (h.free_lt d (hcs.subset hd)) hnext
  live_ref := fun d => by
    simp only [List.map_cons, List.count_cons, wholeChunk]
    by_cases heq : d = c
    · subst heq
      have hzero : (live.map chunk).count d = 0 := by
        rw [List.count_eq_zero]
        intro hmem
        obtain ⟨w, hw, hwd⟩ := List.mem_map.mp hmem
        exact hfresh w hw hwd.symm
      simp only [Function.update_self, hzero, beq_self_eq_true, if_true]
      omega
    · have hne : (c == d) = false := by simpa using Ne.symm heq
      simp only [Function.update_of_ne heq, hne]
      simpa using h.live_ref d
  live_lt := fun u hu => by
    rcases List.mem_cons.mp hu with rfl | hu
    · exact hlt
    · exact Nat.lt_of_lt_of_le (h.live_lt u hu) hnext
  live_bound := fun u hu => by
    rcases List.mem_cons.mp hu with rfl | hu
    · simp [wholeChunk, chunkLength]
    · exact h.live_bound u hu

theorem aquireOne_spec {p : MemoryPool} {live : List RefMemoryChunk} (h : p.Inv live) :
    Aquired p live 1 [p.aquireOne.1] p.aquireOne.2 := by
  unfold aquireOne
  rcases hq : p.chunks with _ | ⟨c, cs⟩
  · have hfresh : ∀ w ∈ live, p.next ≠ w.chunk := fun w hw => by
      have := h.live_lt w hw
      omega
    refine ⟨rfl, by simp [wholeChunk], by simp, by simpa [wholeChunk] using hfresh, ?_, rfl, rfl⟩
    exact h.take (r := 1) (List.nil_sublist _) List.not_mem_nil hfresh
      (Nat.le_succ _) (Nat.lt_succ_self _) Nat.one_pos
  · have hmem : c ∈ p.chunks := by simp [hq]
    have hfresh : ∀ w ∈ live, c ≠ w.chunk := by
      intro w hw heq
      have hpos : 0 < (live.map chunk).count c :=
        List.count_pos_iff.mpr (List.mem_map.mpr ⟨w, hw, heq.symm⟩)
      have hle := h.live_ref c
      rw [h.free_ref c hmem] at hle
      omega
    have hnodup := h.free_nodup
    rw [hq, List.nodup_cons] at hnodup
    refine ⟨rfl, by simp [wholeChunk], by simp, by simpa [wholeChunk] using hfresh, ?_, rfl, rfl⟩
    exact h.take (by rw [hq]; exact List.sublist_cons_self c cs) hnodup.1 hfresh
      (Nat.le_refl p.next) (h.free_lt c hmem) (Nat.succ_pos _)

theorem aquire_succ (n : Nat) (p : MemoryPool) :
    aquire (n + 1) p =
      (p.aquireOne.1 :: (aquire n p.aquireOne.2).1, (aquire n p.aquireOne.2).2) := rfl

theorem aquire_spec : ∀ (n : Nat) {p : MemoryPool} {live : List RefMemoryChunk}, p.Inv live →
    Aquired p live n (aquire n p).1 (aquire n p).2 := by
  intro n
  induction n with
  | zero =>
      intro p live h
      exact ⟨rfl, by simp [aquire], by simp [aquire], by simp [aquire], h, rfl, rfl⟩
  | succ n ih =>
      intro p live h
      have hone := aquireOne_spec h
      have hrest := ih hone.inv
      have hwhole := hone.whole _ List.mem_cons_self
      rw [aquire_succ]
      generalize p.aquireOne = one at hone hrest hwhole ⊢
      refine ⟨by simp [hrest.length], ?_, ?_, ?_, ?_, ?_, ?_⟩
      · intro v hv
        rcases List.mem_cons.mp hv with rfl | hv
        · exact hwhole
        · have := hrest.whole v hv
          rwa [chunkLength, hone.chunksize] at this
      · refine List.nodup_cons.mpr ⟨?_, hrest.distinct⟩
        intro hmem
        obtain ⟨v, hv, heq⟩ := List.mem_map.mp hmem
        exact hrest.fresh v hv _ (by simp) heq
      · intro v hv w hw
        rcases List.mem_cons.mp hv with rfl | hv
        · exact hone.fresh _ List.mem_cons_self w hw
        · exact hrest.fresh v hv w (by simp [hw])
      · exact hrest.inv.perm List.perm_middle
      · exact hrest.mem.trans hone.mem
      · exact hrest.chunksize.trans hone.chunksize

/-- The acquired views offer exactly the asked number of whole chunks. -/
theorem Aquired.total {p q : MemoryPool} {live vs : List RefMemoryChunk} {n : Nat}
    (h : Aquired p live n vs q) : total vs = n * p.chunkLength := by
  have hcount : vs.map count = List.replicate n p.chunkLength := by
    rw [List.eq_replicate_iff]
    refine ⟨by simp [h.length], ?_⟩
    intro k hk
    obtain ⟨v, hv, rfl⟩ := List.mem_map.mp hk
    exact (h.whole v hv).2.2
  simp [RefMemoryChunk.total, hcount]

theorem chunkLength_of_lt {p : MemoryPool} (h : p.chunksize < 2 ^ 32) :
    p.chunkLength = p.chunksize := Nat.mod_eq_of_lt h

/-- Enough chunks for the bytes asked for. -/
theorem le_calculateChunkCount_mul (p : MemoryPool) (n : Nat) (h : 0 < p.chunksize) :
    n ≤ p.calculateChunkCount n * p.chunksize := by
  have hdiv := Nat.div_add_mod n p.chunksize
  have hmul : p.chunksize * (n / p.chunksize) = n / p.chunksize * p.chunksize := Nat.mul_comm _ _
  have hmod := Nat.mod_lt n h
  unfold calculateChunkCount
  split
  · rw [Nat.add_mul]
    omega
  · omega

/-- Not more than one chunk too many. -/
theorem calculateChunkCount_mul_lt (p : MemoryPool) (n : Nat) (h : 0 < p.chunksize) :
    p.calculateChunkCount n * p.chunksize < n + p.chunksize := by
  have hdiv := Nat.div_add_mod n p.chunksize
  have hmul : p.chunksize * (n / p.chunksize) = n / p.chunksize * p.chunksize := Nat.mul_comm _ _
  unfold calculateChunkCount
  split
  · rw [Nat.add_mul]
    omega
  · omega

end MemoryPool

end Jengine.Memory
