import Jengine.Lib.Runs
import Jengine.Memory.MemoryPool
import Mathlib.Data.List.Perm.Basic

/-!
# Every view is counted

The objects of type `RefMemoryChunk` one by one: acquired from the pool,
copied, assigned, narrowed and destroyed in any order, as vectors and queues do
it behind the program's back.  `ref_` is a `uint32_t`, a chunk that comes back
to a full pool is deleted, and `operator=` lets go of its own chunk before it
looks at the right-hand side.

An object is `none` while it is a null view.  Objects are told apart by their
position among those that are alive.  `assigned` records for every assignment
what it left in its left-hand side and what the right-hand side was before.
-/

namespace Jengine.Memory

open Jengine.Lib RefMemoryChunk

structure ViewHeap where
  chunksize : Nat
  poolsize : Nat
  /-- `chunks_`, the free queue. -/
  chunks : List Nat
  ref : Nat → Nat
  next : Nat
  deleted : List Nat
  objs : List (Option RefMemoryChunk)
  assigned : List (Option RefMemoryChunk × Option RefMemoryChunk)

namespace ViewHeap

/-- The constructor of the pool fills the free queue. -/
def fresh (chunksize poolsize : Nat) : ViewHeap :=
  ⟨chunksize, poolsize, List.range poolsize, fun _ => 0, poolsize, [], [], []⟩

/-- `RetainChunk`. -/
def retainChunk (s : ViewHeap) : Option RefMemoryChunk → ViewHeap
  | none => s
  | some v => { s with ref := Function.update s.ref v.chunk ((s.ref v.chunk + 1) % 2 ^ 32) }

/-- `MemoryPool::Release`. -/
def release (s : ViewHeap) (c : Nat) : ViewHeap :=
  if s.poolsize ≤ s.chunks.length then { s with deleted := c :: s.deleted }
  else { s with chunks := s.chunks ++ [c] }

/-- `ReleaseChunk`, apart from the object itself. -/
def releaseChunk (s : ViewHeap) : Option RefMemoryChunk → ViewHeap
  | none => s
  | some v =>
      let s := { s with ref := Function.update s.ref v.chunk ((s.ref v.chunk + 2 ^ 32 - 1) % 2 ^ 32) }
      if s.ref v.chunk = 0 then s.release v.chunk else s

/-- One pass of the loop of `Aquire`.  The temporary that is copied into the container has
    come and gone. -/
def aquireOne (s : ViewHeap) : ViewHeap :=
  match s.chunks with
  | c :: cs =>
      let v := some (⟨c, 0, 0, s.chunksize % 2 ^ 32⟩ : RefMemoryChunk)
      retainChunk { s with chunks := cs, objs := v :: s.objs } v
  | [] =>
      let v := some (⟨s.next, 0, 0, s.chunksize % 2 ^ 32⟩ : RefMemoryChunk)
      retainChunk { s with next := s.next + 1, objs := v :: s.objs } v

/-- `a = b`, for the objects at two positions.  `ReleaseChunk` makes a null view of `a`
    before the members of `b` are copied. -/
def assign (s : ViewHeap) (i j : Nat) : ViewHeap :=
  match s.objs[i]?, s.objs[j]? with
  | some a, some b =>
      let s := s.releaseChunk a
      let objs := s.objs.set i none
      let rhs := (objs[j]?).getD none
      { s.retainChunk rhs with
        objs := objs.set i rhs
        assigned := s.assigned ++ [(rhs, b)] }
  | _, _ => s

/-- What the program does to views. -/
inductive Action where
  | aquire (chunksCount : Nat)
  /-- The default constructor. -/
  | null
  | copy (i : Nat)
  | assign (i j : Nat)
  | shrinkCount (i shrink : Nat)
  | forwardOffset (i forward : Nat)
  | destroy (i : Nat)

/-- Narrow the view at a position, as far as its assertion allows. -/
def narrow (s : ViewHeap) (i k : Nat) (f : RefMemoryChunk → RefMemoryChunk) : ViewHeap :=
  match s.objs[i]? with
  | some (some v) => if k ≤ v.count then { s with objs := s.objs.set i (some (f v)) } else s
  | _ => s

def step (s : ViewHeap) : Action → ViewHeap
  | .aquire n => Nat.repeat aquireOne n s
  | .null => { s with objs := none :: s.objs }
  | .copy i =>
      match s.objs[i]? with
      | some a => retainChunk { s with objs := a :: s.objs } a
      | none => s
  | .assign i j => s.assign i j
  | .shrinkCount i k => s.narrow i k fun v => v.shrinkCount k
  | .forwardOffset i k => s.narrow i k fun v => v.forwardOffset k
  | .destroy i =>
      match s.objs[i]? with
      | some a => { s.releaseChunk a with objs := s.objs.eraseIdx i }
      | none => s

/-- The object maps the chunk. -/
def maps (c : Nat) (o : Option RefMemoryChunk) : Bool := o.any fun v => v.chunk == c

/-- The number of live views of a chunk. -/
def viewsOf (s : ViewHeap) (c : Nat) : Nat := s.objs.countP (maps c)

/-! ### What must hold -/

/-- Everything that is asked of the reference counts. -/
structure Balanced (s : ViewHeap) : Prop where
  counted : ∀ c, s.ref c = s.viewsOf c
  free_ref : ∀ c ∈ s.chunks, s.ref c = 0
  free_once : s.chunks.Nodup
  bounded : s.chunks.length ≤ s.poolsize
  alive : ∀ c, 0 < s.viewsOf c → c ∉ s.chunks ∧ c ∉ s.deleted
  assigned : ∀ e ∈ s.assigned, e.1 = e.2

/-- No view that maps a chunk is assigned to itself, and no chunk is given as many views
    as `ref_` cannot count. -/
def Proper (s : ViewHeap) : Action → Prop
  | .copy i => ∀ v, s.objs[i]? = some (some v) → s.viewsOf v.chunk + 1 < 2 ^ 32
  | .assign i j =>
      (i = j → s.objs[i]? = none ∨ s.objs[i]? = some none) ∧
      ∀ v, s.objs[j]? = some (some v) →
        (s.objs.eraseIdx i).countP (maps v.chunk) + 1 < 2 ^ 32
  | _ => True

/-- The counts of the pool are those of the objects `objs`. -/
structure Counts (s : ViewHeap) (objs : List (Option RefMemoryChunk)) : Prop where
  ref : ∀ c, s.ref c = objs.countP (maps c)
  lt : ∀ c, s.ref c < 2 ^ 32
  free_ref : ∀ c ∈ s.chunks, s.ref c = 0
  free_once : s.chunks.Nodup
  free_alive : ∀ c ∈ s.chunks, c ∉ s.deleted
  bounded : s.chunks.length ≤ s.poolsize
  deleted_ref : ∀ c ∈ s.deleted, s.ref c = 0
  created : ∀ c, c ∈ s.chunks ∨ c ∈ s.deleted ∨ 0 < s.ref c → c < s.next

theorem maps_some (c : Nat) (v : RefMemoryChunk) : maps c (some v) = (v.chunk == c) := rfl

theorem Counts.perm {s : ViewHeap} {objs objs' : List (Option RefMemoryChunk)} (h : Counts s objs)
    (hperm : objs.Perm objs') : Counts s objs' :=
  ⟨fun c => (h.ref c).trans (hperm.countP_eq _), h.lt, h.free_ref, h.free_once, h.free_alive,
    h.bounded, h.deleted_ref, h.created⟩

/-- The objects themselves and the record of assignments do not matter. -/
theorem Counts.of_eq {s r : ViewHeap} {objs : List (Option RefMemoryChunk)} (h : Counts s objs)
    (href : r.ref = s.ref) (hchunks : r.chunks = s.chunks) (hdeleted : r.deleted = s.deleted)
    (hpoolsize : r.poolsize = s.poolsize) (hnext : r.next = s.next) : Counts r objs := by
  constructor
  · rw [href]
    exact h.ref
  · rw [href]
    exact h.lt
  · rw [href, hchunks]
    exact h.free_ref
  · rw [hchunks]
    exact h.free_once
  · rw [hchunks, hdeleted]
    exact h.free_alive
  · rw [hchunks, hpoolsize]
    exact h.bounded
  · rw [hdeleted, href]
    exact h.deleted_ref
  · rw [hchunks, hdeleted, href, hnext]
    exact h.created

theorem Counts.null {s : ViewHeap} {objs : List (Option RefMemoryChunk)} (h : Counts s objs) :
    Counts s (none :: objs) :=
  ⟨fun c => (h.ref c).trans (List.countP_cons_of_neg (by simp [maps])).symm, h.lt, h.free_ref,
    h.free_once, h.free_alive, h.bounded, h.deleted_ref, h.created⟩

/-- A chunk gets one view more. -/
theorem Counts.retainChunk {s : ViewHeap} {objs : List (Option RefMemoryChunk)} (h : Counts s objs)
    {v : RefMemoryChunk} (hfree : v.chunk ∉ s.chunks) (hdeleted : v.chunk ∉ s.deleted)
    (hnext : v.chunk < s.next) (hlt : s.ref v.chunk + 1 < 2 ^ 32) :
    Counts (s.retainChunk (some v)) (some v :: objs) := by
  have hne : ∀ c ≠ v.chunk, (s.retainChunk (some v)).ref c = s.ref c :=
    fun c hc => Function.update_of_ne hc _ _
  have hsame : (s.retainChunk (some v)).ref v.chunk = s.ref v.chunk + 1 := by
    rw [ViewHeap.retainChunk]
    simp only [Function.update_self]
    exact Nat.mod_eq_of_lt hlt
  constructor
  · intro c
    by_cases hc : c = v.chunk
    · subst hc
      rw [hsame, h.ref, List.countP_cons_of_pos (by simp [maps])]
    · rw [hne c hc, h.ref, List.countP_cons_of_neg (by simpa [maps] using Ne.symm hc)]
  · intro c
    by_cases hc : c = v.chunk
    · subst hc
      rw [hsame]
      exact hlt
    · rw [hne c hc]
      exact h.lt c
  · intro c hmem
    rw [hne c fun hc => hfree (hc ▸ hmem)]
    exact h.free_ref c hmem
  · exact h.free_once
  · exact h.free_alive
  · exact h.bounded
  · intro c hmem
    rw [hne c fun hc => hdeleted (hc ▸ hmem)]
    exact h.deleted_ref c hmem
  · intro c hc
    by_cases heq : c = v.chunk
    · rw [heq]
      exact hnext
    · rw [hne c heq] at hc
      exact h.created c hc

/-- The state of the pool after `DecRef`, before the chunk is possibly given back. -/
theorem Counts.decRef {s : ViewHeap} {objs : List (Option RefMemoryChunk)} {v : RefMemoryChunk}
    (h : Counts s (some v :: objs)) :
    Counts { s with ref := Function.update s.ref v.chunk ((s.ref v.chunk + 2 ^ 32 - 1) % 2 ^ 32) }
      objs ∧ v.chunk ∉ s.chunks ∧ v.chunk ∉ s.deleted ∧ v.chunk < s.next := by
  have hone : s.ref v.chunk = objs.countP (maps v.chunk) + 1 := by
    rw [h.ref, List.countP_cons_of_pos (by simp [maps])]
  have hlt := h.lt v.chunk
  have hdec : (s.ref v.chunk + 2 ^ 32 - 1) % 2 ^ 32 = objs.countP (maps v.chunk) := by omega
  rw [hdec]
  have hne : ∀ c ≠ v.chunk,
      Function.update s.ref v.chunk (objs.countP (maps v.chunk)) c = s.ref c :=
    fun c hc => Function.update_of_ne hc _ _
  have hfree : v.chunk ∉ s.chunks := fun hmem => by
    have := h.free_ref _ hmem
    omega
  have hdeleted : v.chunk ∉ s.deleted := fun hmem => by
    have := h.deleted_ref _ hmem
    omega
  refine ⟨⟨?_, ?_, ?_, h.free_once, h.free_alive, h.bounded, ?_, ?_⟩, hfree, hdeleted,
    h.created _ (Or.inr (Or.inr (by omega)))⟩
  · intro c
    by_cases hc : c = v.chunk
    · subst hc
      exact Function.update_self _ _ _
    · simp only [hne c hc]
      rw [h.ref, List.countP_cons_of_neg (by simpa [maps] using Ne.symm hc)]
  · intro c
    by_cases hc : c = v.chunk
    · subst hc
      simp only [Function.update_self]
      omega
    · simp only [hne c hc]
      exact h.lt c
  · intro c hmem
    simp only [hne c fun hc => hfree (hc ▸ hmem)]
    exact h.free_ref c hmem
  · intro c hmem
    simp only [hne c fun hc => hdeleted (hc ▸ hmem)]
    exact h.deleted_ref c hmem
  · intro c hc
    by_cases heq : c = v.chunk
    · rw [heq]
      exact h.created _ (Or.inr (Or.inr (by omega)))
    · simp only [hne c heq] at hc
      exact h.created c hc

/-- A chunk without views goes back to the pool, or is deleted. -/
theorem Counts.release {s : ViewHeap} {objs : List (Option RefMemoryChunk)} (h : Counts s objs)
    {c : Nat} (hzero : s.ref c = 0) (hfree : c ∉ s.chunks) (hdeleted : c ∉ s.deleted)
    (hnext : c < s.next) : Counts (s.release c) objs := by
  unfold ViewHeap.release
  split
  · refine ⟨h.ref, h.lt, h.free_ref, h.free_once, ?_, h.bounded, ?_, ?_⟩
    · intro d hd hmem
      rcases List.mem_cons.mp hmem with rfl | hmem
      · exact hfree hd
      · exact h.free_alive d hd hmem
    · intro d hd
      rcases List.mem_cons.mp hd with rfl | hd
      · exact hzero
      · exact h.deleted_ref d hd
    · rintro d (hd | hd | hd)
      · exact h.created d (Or.inl hd)
      · rcases List.mem_cons.mp hd with rfl | hd
        · exact hnext
        · exact h.created d (Or.inr (Or.inl hd))
      · exact h.created d (Or.inr (Or.inr hd))
  · rename_i hroom
    refine ⟨h.ref, h.lt, ?_, ?_, ?_, ?_, h.deleted_ref, ?_⟩
    · intro d hd
      rcases List.mem_append.mp hd with hd | hd
      · exact h.free_ref d hd
      · rw [List.mem_singleton.mp hd]
        exact hzero
    · exact List.Nodup.append h.free_once (List.nodup_singleton _) (by simpa using hfree)
    · intro d hd
      rcases List.mem_append.mp hd with hd | hd
      · exact h.free_alive d hd
      · rw [List.mem_singleton.mp hd]
        exact hdeleted
    · rw [List.length_append, List.length_singleton]
      exact Nat.lt_of_not_le hroom
    · rintro d (hd | hd)
      · rcases List.mem_append.mp hd with hd | hd
        · exact h.created d (Or.inl hd)
        · rw [List.mem_singleton.mp hd]
          exact hnext
      · exact h.created d (Or.inr hd)

/-- A view is given up. -/
theorem Counts.releaseChunk {s : ViewHeap} {objs : List (Option RefMemoryChunk)}
    {a : Option RefMemoryChunk} (h : Counts s (a :: objs)) : Counts (s.releaseChunk a) objs := by
  cases a with
  | none =>
      refine ⟨fun c => ?_, h.lt, h.free_ref, h.free_once, h.free_alive, h.bounded, h.deleted_ref,
        h.created⟩
      rw [ViewHeap.releaseChunk, h.ref, List.countP_cons_of_neg (by simp [maps])]
  | some v =>
      obtain ⟨hdec, hfree, hdeleted, hnext⟩ := h.decRef
      unfold ViewHeap.releaseChunk
      simp only
      split
      · rename_i hzero
        exact hdec.release hzero hfree hdeleted hnext
      · exact hdec

/-! ### One step -/

/-- A live view's chunk is neither free nor deleted. -/
theorem Counts.mapped {s : ViewHeap} {objs : List (Option RefMemoryChunk)} (h : Counts s objs)
    {v : RefMemoryChunk} (hv : some v ∈ objs) :
    v.chunk ∉ s.chunks ∧ v.chunk ∉ s.deleted ∧ v.chunk < s.next := by
  have hpos : 0 < s.ref v.chunk := by
    rw [h.ref]
    exact List.countP_pos_iff.mpr ⟨some v, hv, by simp [maps]⟩
  refine ⟨fun hmem => ?_, fun hmem => ?_, h.created _ (Or.inr (Or.inr hpos))⟩
  · have := h.free_ref _ hmem
    omega
  · have := h.deleted_ref _ hmem
    omega

/-- Copying an object. -/
theorem Counts.copy {s : ViewHeap} {objs : List (Option RefMemoryChunk)} (h : Counts s objs)
    {a : Option RefMemoryChunk} (ha : a ∈ objs)
    (hlt : ∀ v, a = some v → objs.countP (maps v.chunk) + 1 < 2 ^ 32) :
    Counts (s.retainChunk a) (a :: objs) := by
  cases a with
  | none => exact h.null
  | some v =>
      obtain ⟨hfree, hdeleted, hnext⟩ := h.mapped ha
      refine h.retainChunk hfree hdeleted hnext ?_
      rw [h.ref]
      exact hlt v rfl

theorem Counts.aquireOne {s : ViewHeap} (h : Counts s s.objs) :
    Counts s.aquireOne s.aquireOne.objs := by
  unfold ViewHeap.aquireOne
  split
  · rename_i c cs hq
    have hmem : c ∈ s.chunks := by simp [hq]
    have hzero := h.free_ref c hmem
    have honce := h.free_once
    have hbounded := h.bounded
    rw [hq, List.nodup_cons] at honce
    rw [hq, List.length_cons] at hbounded
    have hsub : ∀ d ∈ cs, d ∈ s.chunks := fun d hd => by simp [hq, hd]
    have htaken : Counts { s with
        chunks := cs
        objs := some ⟨c, 0, 0, s.chunksize % 2 ^ 32⟩ :: s.objs } s.objs :=
      ⟨h.ref, h.lt, fun d hd => h.free_ref d (hsub d hd), honce.2,
        fun d hd => h.free_alive d (hsub d hd), Nat.le_of_succ_le hbounded, h.deleted_ref,
        fun d hd => h.created d (hd.imp_left (hsub d))⟩
    exact htaken.retainChunk honce.1 (h.free_alive c hmem) (h.created c (Or.inl hmem))
      (by simp only [hzero]; decide)
  · -- a new chunk
    rename_i hq
    have hnew : s.ref s.next = 0 := by
      by_contra hpos
      exact Nat.lt_irrefl _ (h.created s.next (Or.inr (Or.inr (Nat.pos_of_ne_zero hpos))))
    have hfresh : s.next ∉ s.deleted := fun hmem =>
      Nat.lt_irrefl _ (h.created s.next (Or.inr (Or.inl hmem)))
    have hgrown : Counts { s with
        next := s.next + 1
        objs := some ⟨s.next, 0, 0, s.chunksize % 2 ^ 32⟩ :: s.objs } s.objs :=
      ⟨h.ref, h.lt, h.free_ref, h.free_once, h.free_alive, h.bounded, h.deleted_ref,
        fun c hc => Nat.lt_succ_of_lt (h.created c hc)⟩
    refine hgrown.retainChunk (v := ⟨s.next, 0, 0, s.chunksize % 2 ^ 32⟩) ?_ hfresh
      (Nat.lt_succ_self _) (by simp only [hnew]; decide)
    simp only [hq]
    exact List.not_mem_nil

theorem perm_of_getElem? {l : List (Option RefMemoryChunk)} {i : Nat} {a : Option RefMemoryChunk}
    (h : l[i]? = some a) : l.Perm (a :: l.eraseIdx i) := by
  obtain ⟨hi, rfl⟩ := List.getElem?_eq_some_iff.mp h
  exact (List.getElem_cons_eraseIdx_perm hi).symm

theorem set_perm {l : List (Option RefMemoryChunk)} {i : Nat} {a : Option RefMemoryChunk}
    (h : l[i]? = some a) (b : Option RefMemoryChunk) : (l.set i b).Perm (b :: l.eraseIdx i) := by
  obtain ⟨hi, -⟩ := List.getElem?_eq_some_iff.mp h
  exact List.set_perm_cons_eraseIdx hi b

/-- Another object at position `j` is still there without the one at position `i`. -/
theorem mem_eraseIdx_of_ne {l : List (Option RefMemoryChunk)} {i j : Nat}
    {b : Option RefMemoryChunk} (h : l[j]? = some b) (hne : j ≠ i) : b ∈ l.eraseIdx i := by
  rw [List.mem_eraseIdx_iff_getElem?]
  exact ⟨j, hne, h⟩

theorem objs_releaseChunk (s : ViewHeap) (a : Option RefMemoryChunk) :
    (s.releaseChunk a).objs = s.objs ∧ (s.releaseChunk a).assigned = s.assigned := by
  cases a with
  | none => exact ⟨rfl, rfl⟩
  | some v =>
      simp only [ViewHeap.releaseChunk, ViewHeap.release]
      split
      · split
        · exact ⟨rfl, rfl⟩
        · exact ⟨rfl, rfl⟩
      · exact ⟨rfl, rfl⟩

/-- What an assignment leaves in its left-hand side, given that it is not a mapped view
    assigned to itself. -/
theorem rhs_eq {s : ViewHeap} {i j : Nat} {b : Option RefMemoryChunk} (hb : s.objs[j]? = some b)
    (hself : i = j → s.objs[i]? = none ∨ s.objs[i]? = some none) :
    ((s.objs.set i none)[j]?).getD none = b := by
  by_cases hij : i = j
  · subst hij
    rcases hself rfl with hnone | hnull
    · rw [hnone] at hb
      cases hb
    · rw [hnull] at hb
      cases hb
      rw [List.getElem?_set_self']
      simp [hnull]
  · rw [List.getElem?_set_ne hij, hb]
    rfl

/-- What one step keeps. -/
structure Kept (s : ViewHeap) : Prop where
  counts : Counts s s.objs
  assigned : ∀ e ∈ s.assigned, e.1 = e.2

theorem Kept.assign {s : ViewHeap} (h : Kept s) {i j : Nat} (ha : Proper s (.assign i j)) :
    Kept (s.assign i j) := by
  obtain ⟨hself, hlt⟩ := ha
  unfold ViewHeap.assign
  rcases hi : s.objs[i]? with _ | a
  · exact h
  · rcases hj : s.objs[j]? with _ | b
    · exact h
    · obtain ⟨hobjs, hassigned⟩ := objs_releaseChunk s a
      have hrhs := rhs_eq hj (by rw [hi]; rw [hi] at hself; exact hself)
      simp only [hobjs, hassigned, hrhs]
      have hreleased : Counts (s.releaseChunk a) (s.objs.eraseIdx i) :=
        (h.counts.perm (perm_of_getElem? hi)).releaseChunk
      have hretained : Counts ((s.releaseChunk a).retainChunk b) (b :: s.objs.eraseIdx i) := by
        by_cases hij : i = j
        · -- a null view assigned to itself
          subst hij
          rw [hj] at hself
          rcases hself rfl with hnone | hnull
          · cases hnone
          · cases hnull
            exact hreleased.null
        · refine hreleased.copy (mem_eraseIdx_of_ne hj fun hji => hij hji.symm) ?_
          rintro v rfl
          exact hlt v hj
      constructor
      · refine (hretained.perm ?_).of_eq rfl rfl rfl rfl rfl
        rw [List.set_set]
        exact (set_perm hi b).symm
      · intro e he
        rcases List.mem_append.mp he with he | he
        · exact h.assigned e he
        · rw [List.mem_singleton.mp he]

theorem Kept.narrow {s : ViewHeap} (h : Kept s) (i k : Nat) {f : RefMemoryChunk → RefMemoryChunk}
    (hf : ∀ v, (f v).chunk = v.chunk) : Kept (s.narrow i k f) := by
  unfold ViewHeap.narrow
  split
  · rename_i v hv
    split
    · refine ⟨?_, h.assigned⟩
      have hcounts := h.counts.perm (perm_of_getElem? hv)
      have hsame : Counts s (some (f v) :: s.objs.eraseIdx i) := by
        refine ⟨fun c => ?_, hcounts.lt, hcounts.free_ref, hcounts.free_once, hcounts.free_alive,
          hcounts.bounded, hcounts.deleted_ref, hcounts.created⟩
        rw [hcounts.ref c, List.countP_cons, List.countP_cons, maps_some, maps_some, hf]
      exact (hsame.perm (set_perm hv _).symm).of_eq rfl rfl rfl rfl rfl
    · exact h
  · exact h

theorem Kept.aquire {s : ViewHeap} (h : Kept s) : ∀ n, Kept (Nat.repeat aquireOne n s) := by
  intro n
  induction n with
  | zero => exact h
  | succ n ih =>
      refine ⟨ih.counts.aquireOne, ?_⟩
      show ∀ e ∈ (aquireOne (Nat.repeat aquireOne n s)).assigned, e.1 = e.2
      have hsame : (aquireOne (Nat.repeat aquireOne n s)).assigned =
          (Nat.repeat aquireOne n s).assigned := by
        unfold ViewHeap.aquireOne
        split <;> rfl
      rw [hsame]
      exact ih.assigned

theorem Kept.step {s : ViewHeap} {a : Action} (h : Kept s) (ha : Proper s a) : Kept (s.step a) := by
  cases a with
  | aquire n => exact h.aquire n
  | null => exact ⟨h.counts.null.of_eq rfl rfl rfl rfl rfl, h.assigned⟩
  | copy i =>
      simp only [ViewHeap.step]
      split
      · rename_i a hi
        have hmem : a ∈ s.objs := List.mem_of_getElem? hi
        have hcopy : Counts { s with objs := a :: s.objs } s.objs :=
          h.counts.of_eq rfl rfl rfl rfl rfl
        have hcounts : Counts (retainChunk { s with objs := a :: s.objs } a) (a :: s.objs) := by
          apply hcopy.copy hmem
          rintro v rfl
          exact ha v hi
        cases a with
        | none => exact ⟨hcounts, h.assigned⟩
        | some v => exact ⟨hcounts, h.assigned⟩
      · exact h
  | assign i j => exact h.assign ha
  | shrinkCount i k => exact h.narrow i k fun _ => rfl
  | forwardOffset i k => exact h.narrow i k fun _ => rfl
  | destroy i =>
      simp only [ViewHeap.step]
      split
      · rename_i a hi
        have hreleased := (h.counts.perm (perm_of_getElem? hi)).releaseChunk
        refine ⟨hreleased.of_eq rfl rfl rfl rfl rfl, ?_⟩
        rw [(objs_releaseChunk s a).2]
        exact h.assigned
      · exact h

theorem Kept.balanced {s : ViewHeap} (h : Kept s) : Balanced s where
  counted := h.counts.ref
  free_ref := h.counts.free_ref
  free_once := h.counts.free_once
  bounded := h.counts.bounded
  alive := fun c hpos => by
    have href : 0 < s.ref c := by
      rw [h.counts.ref]
      exact hpos
    refine ⟨fun hmem => ?_, fun hmem => ?_⟩
    · have := h.counts.free_ref c hmem
      omega
    · have := h.counts.deleted_ref c hmem
      omega
  assigned := h.assigned

theorem kept_fresh (chunksize poolsize : Nat) : Kept (fresh chunksize poolsize) := by
  refine ⟨⟨fun _ => rfl, fun _ => Nat.two_pow_pos 32, fun _ _ => rfl, List.nodup_range, ?_, ?_, ?_, ?_⟩, ?_⟩
  · exact fun _ _ => List.not_mem_nil
  · exact Nat.le_of_eq List.length_range
  · exact fun _ hmem => absurd hmem List.not_mem_nil
  · rintro c (hmem | hmem | hpos)
    · exact List.mem_range.mp hmem
    · exact absurd hmem List.not_mem_nil
    · exact absurd hpos (Nat.lt_irrefl 0)
  · exact fun _ hmem => absurd hmem List.not_mem_nil

/-- **The reference counts balance.**  In every state of a run without self-assignment of
    a mapped view, as long as `ref_` can count. -/
theorem run_balanced (chunksize poolsize : Nat) (as : List Action)
    (has : Along step Proper (fresh chunksize poolsize) as) :
    Balanced (run step (fresh chunksize poolsize) as) :=
  Kept.balanced
    (run_invariant (fun _ _ hs ha => Kept.step hs ha) (kept_fresh chunksize poolsize) has)

/-- Two chunks from a pool of one: the second view is overwritten by a copy of the first,
    so its chunk comes back, and then all views go. -/
theorem run_balanced_shared :
    Balanced (run step (fresh 64 1) [.aquire 2, .copy 0, .assign 2 0, .destroy 0, .destroy 0]) := by
  apply run_balanced
  refine ⟨trivial, ?_, ⟨fun h => absurd h (by decide), ?_⟩, trivial, trivial, trivial⟩
  · intro v hv
    cases hv
    decide
  · intro v hv
    cases hv
    decide

/-- The only view of a chunk, assigned to itself, is a null view afterwards. -/
theorem not_balanced_self :
    ¬ Balanced (run step (fresh 64 1) [.aquire 1, .assign 0 0]) ∧
      (run step (fresh 64 1) [.aquire 1]).objs = [some ⟨0, 0, 0, 64⟩] ∧
      (run step (fresh 64 1) [.aquire 1, .assign 0 0]).objs = [none] := by
  refine ⟨fun h => ?_, by decide, by decide⟩
  have hkept := h.assigned (none, some ⟨0, 0, 0, 64⟩) (by decide)
  cases hkept

/-! ### The discipline of the pool -/

/-- The pool, as the rest of the program sees it. -/
def pool (s : ViewHeap) (m : Bytes) : MemoryPool :=
  ⟨s.chunksize, s.poolsize, s.chunks, s.ref, s.next, m⟩

/-- The views that map something. -/
def live (s : ViewHeap) : List RefMemoryChunk := s.objs.filterMap id

/-- Every view lies inside its chunk. -/
def Shaped (s : ViewHeap) : Prop :=
  ∀ v, some v ∈ s.objs → v.data + v.count ≤ s.chunksize % 2 ^ 32

theorem count_live (s : ViewHeap) (c : Nat) : (s.live.map chunk).count c = s.viewsOf c := by
  have hall : ∀ objs : List (Option RefMemoryChunk),
      ((objs.filterMap id).map chunk).count c = objs.countP (maps c) := by
    intro objs
    induction objs with
    | nil => rfl
    | cons o objs ih =>
        cases o with
        | none =>
            rw [List.filterMap_cons_none rfl, List.countP_cons_of_neg (by simp [maps])]
            exact ih
        | some v =>
            have hcons : (some v :: objs).filterMap id = v :: objs.filterMap id := rfl
            rw [hcons, List.map_cons, List.count_cons, List.countP_cons, ih]
            rfl
  exact hall s.objs

/-- What is proved of the objects is what the code that holds them relies on. -/
theorem Kept.inv {s : ViewHeap} (h : Kept s) (hshaped : Shaped s) (m : Bytes) :
    (s.pool m).Inv s.live where
  free_nodup := h.counts.free_once
  free_ref := h.counts.free_ref
  free_lt := fun c hc => h.counts.created c (Or.inl hc)
  live_ref := fun c => by
    rw [count_live]
    exact Nat.le_of_eq (h.counts.ref c).symm
  live_lt := fun v hv => by
    obtain ⟨o, ho, rfl⟩ := List.mem_filterMap.mp hv
    exact (h.counts.mapped ho).2.2
  live_bound := fun v hv => by
    obtain ⟨o, ho, rfl⟩ := List.mem_filterMap.mp hv
    exact hshaped v ho

/-- Nothing but a new view of a whole chunk or a narrowed view is not there already. -/
theorem Shaped.of_objs {s r : ViewHeap} (h : Shaped s) (hsize : r.chunksize = s.chunksize)
    (hobjs : ∀ v, some v ∈ r.objs → some v ∈ s.objs ∨ v.data + v.count ≤ s.chunksize % 2 ^ 32) :
    Shaped r := by
  intro v hv
  rw [hsize]
  rcases hobjs v hv with hold | hnew
  · exact h v hold
  · exact hnew

theorem chunksize_releaseChunk (s : ViewHeap) (a : Option RefMemoryChunk) :
    (s.releaseChunk a).chunksize = s.chunksize := by
  cases a with
  | none => rfl
  | some v =>
      simp only [ViewHeap.releaseChunk, ViewHeap.release]
      split
      · split <;> rfl
      · rfl

theorem chunksize_retainChunk (s : ViewHeap) (a : Option RefMemoryChunk) :
    (s.retainChunk a).chunksize = s.chunksize ∧ (s.retainChunk a).objs = s.objs := by
  cases a with
  | none => exact ⟨rfl, rfl⟩
  | some v => exact ⟨rfl, rfl⟩

theorem Shaped.aquireOne {s : ViewHeap} (h : Shaped s) : Shaped s.aquireOne := by
  unfold ViewHeap.aquireOne
  split
  · refine h.of_objs rfl ?_
    rintro v hv
    rcases List.mem_cons.mp hv with hnew | hold
    · cases hnew
      exact Or.inr (Nat.le_of_eq (Nat.zero_add _))
    · exact Or.inl hold
  · refine h.of_objs rfl ?_
    rintro v hv
    rcases List.mem_cons.mp hv with hnew | hold
    · cases hnew
      exact Or.inr (Nat.le_of_eq (Nat.zero_add _))
    · exact Or.inl hold

theorem Shaped.narrow {s : ViewHeap} (h : Shaped s) (i k : Nat)
    {f : RefMemoryChunk → RefMemoryChunk}
    (hf : ∀ v, k ≤ v.count → (f v).data + (f v).count ≤ v.data + v.count) :
    Shaped (s.narrow i k f) := by
  unfold ViewHeap.narrow
  split
  · rename_i v hv
    split
    · rename_i hk
      refine h.of_objs rfl ?_
      intro w hw
      rcases List.mem_or_eq_of_mem_set hw with hold | hnew
      · exact Or.inl hold
      · cases hnew
        exact Or.inr (Nat.le_trans (hf v hk) (h v (List.mem_of_getElem? hv)))
    · exact h
  · exact h

theorem Shaped.step {s : ViewHeap} (h : Shaped s) (a : Action) : Shaped (s.step a) := by
  cases a with
  | aquire n =>
      induction n with
      | zero => exact h
      | succ n ih => exact ih.aquireOne
  | null =>
      refine h.of_objs rfl ?_
      intro v hv
      rcases List.mem_cons.mp hv with hnew | hold
      · cases hnew
      · exact Or.inl hold
  | copy i =>
      simp only [ViewHeap.step]
      split
      · rename_i a hi
        obtain ⟨hsize, hobjs⟩ := chunksize_retainChunk { s with objs := a :: s.objs } a
        refine h.of_objs hsize ?_
        intro v hv
        rw [hobjs] at hv
        rcases List.mem_cons.mp hv with hnew | hold
        · rw [← hnew] at hi
          exact Or.inl (List.mem_of_getElem? hi)
        · exact Or.inl hold
      · exact h
  | assign i j =>
      simp only [ViewHeap.step, ViewHeap.assign]
      split
      · rename_i a b hi hj
        obtain ⟨hobjs, -⟩ := objs_releaseChunk s a
        refine h.of_objs ((chunksize_retainChunk _ _).1.trans (chunksize_releaseChunk s a)) ?_
        intro v hv
        simp only [hobjs, List.set_set] at hv
        rcases List.mem_or_eq_of_mem_set hv with hold | hnew
        · exact Or.inl hold
        · -- the right-hand side is an object that was there, or the null view left by the release
          rcases hrhs : (s.objs.set i none)[j]? with _ | o
          · rw [hrhs] at hnew
            cases hnew
          · rw [hrhs] at hnew
            have hmem := List.mem_of_getElem? hrhs
            rw [← show some v = o from hnew] at hmem
            rcases List.mem_or_eq_of_mem_set hmem with hold | hnull
            · exact Or.inl hold
            · cases hnull
      · exact h
  | shrinkCount i k =>
      apply h.narrow
      intro v hk
      simp only [RefMemoryChunk.shrinkCount, reset]
      omega
  | forwardOffset i k =>
      apply h.narrow
      intro v hk
      simp only [RefMemoryChunk.forwardOffset, reset]
      omega
  | destroy i =>
      simp only [ViewHeap.step]
      split
      · rename_i a hi
        refine h.of_objs (chunksize_releaseChunk s a) ?_
        exact fun v hv => Or.inl (List.mem_of_mem_eraseIdx hv)
      · exact h

/-- The reference discipline assumed of the pool holds in every state of such a run. -/
theorem run_inv (chunksize poolsize : Nat) (as : List Action) (m : Bytes)
    (has : Along step Proper (fresh chunksize poolsize) as) :
    ((run step (fresh chunksize poolsize) as).pool m).Inv
      (run step (fresh chunksize poolsize) as).live := by
  have hkept := run_invariant (fun _ _ hs ha => Kept.step hs ha) (kept_fresh chunksize poolsize) has
  have hstart : Shaped (fresh chunksize poolsize) := fun v hv => absurd hv List.not_mem_nil
  exact hkept.inv (run_keeps (fun s a (hs : Shaped s) => hs.step a) hstart as) m

end ViewHeap

end Jengine.Memory
