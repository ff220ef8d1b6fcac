import Jengine.Lib.Runs
import Jengine.Net.Client

/-!
# What is received is not written to again

A chunk that was filled in part is mapped from three places: its front from
`recvq_` or from packets that were popped, its back from `recvp_`, where the
next `readv` writes.  This module follows the views of one client over whole
runs: passes of the read loop, the calls of `CopyReceive` and both
`PopReceive`, packets that live as long as they like, and other users of the
pool.  The views of `recvp_` never map a byte that any other view maps.

The ghost members say what that is for: `unpopped` are the bytes read and not
popped, and every view popped goes with the bytes it mapped then.
-/

namespace Jengine.Net

open Jengine.Lib Jengine.Memory RefMemoryChunk

/-- The loop of `PopReceive(char*, std::size_t)`: what is in `dst` then, and the views that
    are left.  Every view is copied to the start of `dst`. -/
def drain : MemoryPool → Nat → List RefMemoryChunk → List UInt8 →
    List UInt8 × List RefMemoryChunk × MemoryPool
  | p, _, [], dst => (dst, [], p)
  | p, count, v :: vs, dst =>
      if count = 0 then (dst, v :: vs, p)
      else if v.count ≤ count then
        let bs := (v.read p.mem v.count).1
        drain (p.releaseChunk v) (count - v.count) vs (bs ++ dst.drop bs.length)
      else
        let bs := (v.read p.mem count).1
        (bs ++ dst.drop bs.length, (v.read p.mem count).2.forwardOffset count :: vs, p)

/-- `PopReceive(char*, std::size_t)`. -/
def Client.popReceiveInto {δ : Type} (c : Client δ) (count : Nat) (dst : List UInt8) :
    List UInt8 × Client δ :=
  let (dst, r, q) := drain c.pool count c.recvq dst
  (dst, { c with pool := q, recvq := r, recvqCount := c.recvqCount - (total c.recvq - total r) })

/-- A client, the views popped into packets that are alive, and the bytes read and not
    popped. -/
structure Reception (δ : Type) where
  client : Client δ
  held : List (RefMemoryChunk × List UInt8)
  unpopped : List UInt8

namespace Reception

variable {δ : Type}

/-- The views of living packets. -/
def views (s : Reception δ) : List RefMemoryChunk := s.held.map Prod.fst

/-- What can happen to the views of a client. -/
inductive Action where
  /-- One pass of the loop of `OnEventIOReadable`, with what `readv` is ready to give. -/
  | read (bs : List UInt8)
  | again
  | fail
  | copy (count : Nat)
  | pop (count : Nat)
  | popInto (count : Nat) (dst : List UInt8)
  /-- A view of a living packet is copied. -/
  | share (e : RefMemoryChunk × List UInt8)
  /-- A view of a living packet is destroyed. -/
  | discard (e : RefMemoryChunk × List UInt8)
  /-- Other users of the pool have left it like this. -/
  | others (q : MemoryPool)

/-- A pass of the read loop starts by replenishing `recvp_`. -/
def replenished (s : Reception δ) : Reception δ := { s with client := s.client.replenish }

def step (s : Reception δ) : Action → Reception δ
  | .read bs =>
      if s.client.connect && !s.client.closed then
        let c := s.client.replenish
        let bs := bs.take (min (total c.recvp2IOVec) Client.maxRWCount)
        -- without room `readv` returns 0
        if bs = [] then { s with client := c.close }
        else { s with client := c.transfer bs, unpopped := s.unpopped ++ bs }
      else s
  | .again => if s.client.connect && !s.client.closed then s.replenished else s
  | .fail =>
      if s.client.connect && !s.client.closed then
        { s with client := s.client.replenish.close }
      else s
  | .copy count => { s with client := (s.client.copyReceive count).2 }
  | .pop count =>
      let (a, c) := s.client.popReceive count
      { client := c
        held := s.held ++ a.map fun v => (v, v.bytes s.client.pool.mem)
        unpopped := s.unpopped.drop count }
  | .popInto count dst =>
      { s with
        client := (s.client.popReceiveInto count dst).2
        unpopped := s.unpopped.drop count }
  | .share e =>
      if e ∈ s.held then
        { s with
          client := { s.client with pool := s.client.pool.retainChunk e.1 }
          held := e :: s.held }
      else s
  | .discard e =>
      if e ∈ s.held then
        { s with
          client := { s.client with pool := s.client.pool.releaseChunk e.1 }
          held := s.held.erase e }
      else s
  | .others q => { s with client := { s.client with pool := q } }

/-- All views of the client and of living packets. -/
def live (s : Reception δ) : List RefMemoryChunk := s.client.recvp ++ (s.client.recvq ++ s.views)

/-- Other users of the pool leave alone the views that are not theirs. -/
def Kept (s : Reception δ) : Action → Prop
  | .others q => MemoryPool.Keeps s.live s.client.pool q
  | _ => True

/-- The invariant: `recvp_` is apart from everything that can be read. -/
structure Clear (s : Reception δ) : Prop where
  inv : s.client.pool.Inv s.live
  pairwise : s.client.recvp.Pairwise Apart
  apart : ∀ v ∈ s.client.recvp, ∀ w ∈ s.client.recvq ++ s.views, Apart v w
  contents : ∀ e ∈ s.held, e.1.bytes s.client.pool.mem = e.2
  queue : bytesOf s.client.pool.mem s.client.recvq = s.unpopped

/-! ### Passes of the read loop -/

theorem replenish_views (c : Client δ) {vs : List RefMemoryChunk}
    (h : c.pool.Inv (c.recvp ++ (c.recvq ++ vs))) :
    ∃ new, c.replenish.recvp = c.recvp ++ new ∧ c.replenish.recvq = c.recvq ∧
      c.replenish.pool.mem = c.pool.mem ∧ (new.map chunk).Nodup ∧
      (∀ v ∈ new, ∀ w ∈ c.recvp ++ (c.recvq ++ vs), v.chunk ≠ w.chunk) ∧
      c.replenish.pool.Inv (new ++ (c.recvp ++ (c.recvq ++ vs))) := by
  unfold Client.replenish
  split
  · have haq := MemoryPool.aquire_spec (Client.recvpSize - c.recvp.length) h
    rcases hr : MemoryPool.aquire (Client.recvpSize - c.recvp.length) c.pool with ⟨new, q⟩
    rw [hr] at haq
    exact ⟨new, rfl, rfl, haq.mem, haq.distinct, haq.fresh, haq.inv⟩
  · exact ⟨[], (List.append_nil _).symm, rfl, rfl, List.nodup_nil,
      fun v hv => absurd hv List.not_mem_nil, h⟩

theorem Clear.replenished {s : Reception δ} (h : Clear s) : Clear s.replenished := by
  obtain ⟨new, hrecvp, hrecvq, hmem, hdistinct, hfresh, hinv⟩ := replenish_views s.client h.inv
  constructor
  · show s.client.replenish.pool.Inv (s.client.replenish.recvp ++ (s.client.replenish.recvq ++ s.views))
    rw [hrecvp, hrecvq]
    apply hinv.perm
    rw [← List.append_assoc]
    have hcomm : (new ++ s.client.recvp).Perm (s.client.recvp ++ new) := List.perm_append_comm
    exact hcomm.append_right _
  · show s.client.replenish.recvp.Pairwise Apart
    rw [hrecvp]
    refine List.pairwise_append.mpr ⟨h.pairwise, ?_, ?_⟩
    · rw [List.Nodup, List.pairwise_map] at hdistinct
      exact hdistinct.imp fun hne => Or.inl hne
    · exact fun v hv w hw => Or.inl (hfresh w hw v (List.mem_append_left _ hv)).symm
  · show ∀ v ∈ s.client.replenish.recvp, ∀ w ∈ s.client.replenish.recvq ++ s.views, Apart v w
    rw [hrecvp, hrecvq]
    intro v hv w hw
    rcases List.mem_append.mp hv with hv | hv
    · exact h.apart v hv w hw
    · exact Or.inl (hfresh v hv w (List.mem_append_right _ hw))
  · intro e he
    show e.1.bytes s.client.replenish.pool.mem = e.2
    rw [hmem]
    exact h.contents e he
  · show bytesOf s.client.replenish.pool.mem s.client.replenish.recvq = s.unpopped
    rw [hmem, hrecvq]
    exact h.queue

/-- `readv` writes to `recvp_` only, so nobody else sees it. -/
theorem scatter_clear {s : Reception δ} (h : Clear s) (bs : List UInt8) {w : RefMemoryChunk}
    (hw : w ∈ s.client.recvq ++ s.views) :
    w.bytes (scatter s.client.pool.mem s.client.recvp2IOVec bs) = w.bytes s.client.pool.mem :=
  scatter_apart _ _ _ fun v hv => h.apart v (List.mem_of_mem_take hv) w hw

/-- What was read is at the front of `recvp_`. -/
theorem take_scatter {c : Client δ} (h : c.recvp.Pairwise Apart) {bs : List UInt8}
    (hbs : bs.length ≤ total c.recvp2IOVec) :
    (bytesOf (scatter c.pool.mem c.recvp2IOVec bs) c.recvp).take bs.length = bs := by
  have hwindow : c.recvp2IOVec.Pairwise Apart := h.sublist (List.take_sublist _ _)
  have hfill := bytesOf_scatter c.recvp2IOVec c.pool.mem bs hwindow
  have hsplit : bytesOf (scatter c.pool.mem c.recvp2IOVec bs) c.recvp =
      bytesOf (scatter c.pool.mem c.recvp2IOVec bs) c.recvp2IOVec ++
        bytesOf (scatter c.pool.mem c.recvp2IOVec bs) (c.recvp.drop Client.recviovSize) := by
    rw [← bytesOf_append, Client.recvp2IOVec, List.take_append_drop]
  rw [hsplit, hfill, List.take_of_length_le hbs, List.append_assoc, List.take_left]

theorem Clear.transfer {s : Reception δ} (h : Clear s) {bs : List UInt8}
    (hbs : bs.length ≤ total s.client.recvp2IOVec) :
    Clear { s with client := s.client.transfer bs, unpopped := s.unpopped ++ bs } := by
  have hinv := inv_cut s.client.recvp _ bs.length (s.client.recvq ++ s.views)
    (h.inv.of_mem (scatter s.client.pool.mem s.client.recvp2IOVec bs))
  have hpairwise := pairwise_cut s.client.recvp
    { s.client.pool with mem := scatter s.client.pool.mem s.client.recvp2IOVec bs } bs.length
    h.pairwise
  have hmoved := (bytesOf_cut (scatter s.client.pool.mem s.client.recvp2IOVec bs) s.client.recvp
    { s.client.pool with mem := scatter s.client.pool.mem s.client.recvp2IOVec bs } bs.length).1
  have hmem := (pool_cut s.client.recvp
    { s.client.pool with mem := scatter s.client.pool.mem s.client.recvp2IOVec bs } bs.length).1
  have hout : ∀ w ∈ (cut { s.client.pool with
      mem := scatter s.client.pool.mem s.client.recvp2IOVec bs } bs.length s.client.recvp).1 ++
      (cut { s.client.pool with mem := scatter s.client.pool.mem s.client.recvp2IOVec bs }
        bs.length s.client.recvp).2.1, ∀ u ∈ s.client.recvq ++ s.views, Apart w u :=
    fun w hw u hu => apart_of_cut hw fun v hv => h.apart v hv u hu
  rw [take_scatter h.pairwise hbs] at hmoved
  rcases hr : cut { s.client.pool with mem := scatter s.client.pool.mem s.client.recvp2IOVec bs }
    bs.length s.client.recvp with ⟨a, r, q⟩
  rw [hr] at hinv hpairwise hmoved hmem hout
  have heq : s.client.transfer bs =
      { s.client with pool := q, recvq := s.client.recvq ++ a, recvp := r,
                      recvqCount := s.client.recvqCount + bs.length } := by
    simp only [Client.transfer, hr]
  rw [heq]
  obtain ⟨-, hrest, hcross⟩ := List.pairwise_append.mp hpairwise
  constructor
  · apply hinv.perm
    rw [List.perm_iff_count]
    intro u
    simp only [live, views, List.count_append]
    omega
  · exact hrest
  · intro v hv w hw
    simp only [views, List.append_assoc, List.mem_append] at hw
    rcases hw with hw | hw | hw
    · exact hout v (List.mem_append_right _ hv) w (List.mem_append_left _ hw)
    · exact (hcross w hw v hv).symm
    · exact hout v (List.mem_append_right _ hv) w (List.mem_append_right _ hw)
  · intro e he
    rw [hmem, scatter_clear h bs (List.mem_append_right _ (List.mem_map_of_mem he))]
    exact h.contents e he
  · rw [hmem, bytesOf_append, hmoved, ← h.queue]
    congr 1
    exact bytesOf_congr fun w hw => scatter_clear h bs (List.mem_append_left _ hw)

/-! ### Taking bytes off the queue -/

theorem Clear.pop {s : Reception δ} (h : Clear s) (count : Nat) : Clear (s.step (.pop count)) := by
  have hinv := inv_cut s.client.recvq s.client.pool count (s.views ++ s.client.recvp)
    (h.inv.perm (by
      rw [← List.append_assoc]
      exact List.perm_append_comm))
  have hkept := (bytesOf_cut s.client.pool.mem s.client.recvq s.client.pool count).2
  have hmem := (pool_cut s.client.recvq s.client.pool count).1
  have hout : ∀ w ∈ (cut s.client.pool count s.client.recvq).1 ++
      (cut s.client.pool count s.client.recvq).2.1, ∀ v ∈ s.client.recvp, Apart v w :=
    fun w hw v hv => (apart_of_cut hw fun u hu =>
      (h.apart v hv u (List.mem_append_left _ hu)).symm).symm
  rcases hr : cut s.client.pool count s.client.recvq with ⟨a, r, q⟩
  rw [hr] at hinv hkept hmem hout
  have heq : s.client.popReceive count =
      (a, { s.client with pool := q, recvq := r,
                          recvqCount := s.client.recvqCount - total a }) := by
    simp only [Client.popReceive, hr]
  have hviews : (s.held ++ a.map fun v => (v, v.bytes s.client.pool.mem)).map Prod.fst =
      s.views ++ a := by
    rw [List.map_append, List.map_map, views]
    congr 1
    exact List.map_id a
  simp only [step, heq]
  constructor
  · apply hinv.perm
    rw [List.perm_iff_count]
    intro u
    simp only [live, views, hviews, List.count_append]
    omega
  · exact h.pairwise
  · intro v hv w hw
    simp only [views, hviews, List.mem_append] at hw
    rcases hw with hw | hw | hw
    · exact hout w (List.mem_append_right _ hw) v hv
    · exact h.apart v hv w (List.mem_append_right _ hw)
    · exact hout w (List.mem_append_left _ hw) v hv
  · intro e he
    rw [hmem]
    rcases List.mem_append.mp he with he | he
    · exact h.contents e he
    · obtain ⟨v, -, rfl⟩ := List.mem_map.mp he
      rfl
  · rw [hmem, hkept, h.queue]

/-- `CopyReceive` moves cursors only. -/
theorem region_copyChunks (m : Bytes) : ∀ (vs : List RefMemoryChunk) (count : Nat),
    (Client.copyChunks m count vs).2.map region = vs.map region := by
  intro vs
  induction vs with
  | nil => intro count; rfl
  | cons v vs ih =>
      intro count
      simp only [Client.copyChunks]
      split
      · rfl
      · simp only [List.map_cons, ih]
        rfl

theorem left_cut_pool : ∀ (vs : List RefMemoryChunk) (p q : MemoryPool) (n : Nat),
    (cut p n vs).2.1 = (cut q n vs).2.1 := by
  intro vs
  induction vs with
  | nil => intro p q n; rfl
  | cons v vs ih =>
      intro p q n
      simp only [cut]
      split
      · rfl
      · split
        · exact ih _ _ _
        · rfl

/-- What `PopReceive(char*, std::size_t)` leaves is what the other `PopReceive` leaves, and
    the views it uses up are destroyed. -/
theorem drain_spec : ∀ (vs : List RefMemoryChunk) (p : MemoryPool) (count : Nat)
    (dst : List UInt8) (other : List RefMemoryChunk), p.Inv (vs ++ other) →
    (drain p count vs dst).2.2.Inv ((drain p count vs dst).2.1 ++ other) ∧
      (drain p count vs dst).2.2.mem = p.mem ∧
      (drain p count vs dst).2.1 = (cut p count vs).2.1 := by
  intro vs
  induction vs with
  | nil => intro p count dst other h; exact ⟨h, rfl, rfl⟩
  | cons v vs ih =>
      intro p count dst other h
      by_cases hcount : count = 0
      · subst hcount
        simp only [drain, if_pos, cut_zero]
        exact ⟨h, trivial, trivial⟩
      · by_cases hle : v.count ≤ count
        · simp only [drain, if_neg hcount, if_pos hle]
          obtain ⟨hinv, hmem, hleft⟩ := ih (p.releaseChunk v) (count - v.count)
            ((v.read p.mem v.count).1 ++ dst.drop (v.read p.mem v.count).1.length) other
            h.releaseChunk
          refine ⟨hinv, hmem.trans (MemoryPool.mem_releaseChunk p v), ?_⟩
          rw [cut_cons_whole p vs hcount hle, hleft]
          exact left_cut_pool vs _ _ _
        · have hsame : (v.read p.mem count).2.forwardOffset count = v.forwardOffset count := rfl
          simp only [drain, if_neg hcount, if_neg hle, hsame]
          rw [cut_cons_split p vs hcount hle]
          have hbound := h.live_bound v List.mem_cons_self
          have hforward := within_forwardOffset (show count ≤ v.count by omega)
          exact ⟨h.remap hforward.1 (Nat.le_trans hforward.2.2 hbound), trivial, rfl⟩

theorem Clear.popInto {s : Reception δ} (h : Clear s) (count : Nat) (dst : List UInt8) :
    Clear (s.step (.popInto count dst)) := by
  obtain ⟨hinv, hmem, hleft⟩ := drain_spec s.client.recvq s.client.pool count dst
    (s.views ++ s.client.recvp) (h.inv.perm (by
      rw [← List.append_assoc]
      exact List.perm_append_comm))
  have hkept := (bytesOf_cut s.client.pool.mem s.client.recvq s.client.pool count).2
  have hout : ∀ w ∈ (cut s.client.pool count s.client.recvq).2.1, ∀ v ∈ s.client.recvp, Apart v w :=
    fun w hw v hv => (apart_of_cut (List.mem_append_right _ hw) fun u hu =>
      (h.apart v hv u (List.mem_append_left _ hu)).symm).symm
  rw [← hleft] at hkept hout
  rcases hr : drain s.client.pool count s.client.recvq dst with ⟨d, r, q⟩
  rw [hr] at hinv hmem hkept hout
  have heq : (s.client.popReceiveInto count dst).2 =
      { s.client with pool := q, recvq := r,
                      recvqCount := s.client.recvqCount - (total s.client.recvq - total r) } := by
    simp only [Client.popReceiveInto, hr]
  simp only [step, heq]
  constructor
  · apply hinv.perm
    rw [List.perm_iff_count]
    intro u
    simp only [live, views, List.count_append]
    omega
  · exact h.pairwise
  · intro v hv w hw
    rcases List.mem_append.mp hw with hw | hw
    · exact hout w hw v hv
    · exact h.apart v hv w (List.mem_append_right _ hw)
  · intro e he
    rw [hmem]
    exact h.contents e he
  · rw [hmem, hkept, h.queue]

theorem Clear.copy {s : Reception δ} (h : Clear s) (count : Nat) :
    Clear (s.step (.copy count)) := by
  have hregion := region_copyChunks s.client.pool.mem s.client.recvq count
  have hmem : ∀ w ∈ (Client.copyChunks s.client.pool.mem count s.client.recvq).2,
      ∃ u ∈ s.client.recvq, u.region = w.region := by
    intro w hw
    have hin : w.region ∈ s.client.recvq.map region := hregion ▸ List.mem_map_of_mem hw
    exact List.mem_map.mp hin
  constructor
  · refine MemoryPool.Inv.of_region_eq ?_ h.inv
    show (s.client.recvp ++ ((Client.copyChunks s.client.pool.mem count s.client.recvq).2 ++
      s.views)).map region = s.live.map region
    simp only [live, List.map_append, hregion]
  · exact h.pairwise
  · intro v hv w hw
    rcases List.mem_append.mp hw with hw | hw
    · obtain ⟨u, hu, hsame⟩ := hmem w hw
      have hapart := h.apart v hv u (List.mem_append_left _ hu)
      simp only [region, Prod.mk.injEq] at hsame
      unfold Apart at hapart ⊢
      rw [← hsame.1, ← hsame.2.1, ← hsame.2.2]
      exact hapart
    · exact h.apart v hv w (List.mem_append_right _ hw)
  · exact h.contents
  · show bytesOf s.client.pool.mem (Client.copyChunks s.client.pool.mem count s.client.recvq).2 =
      s.unpopped
    rw [bytesOf_of_region_eq _ hregion, h.queue]

/-! ### Packets and other users of the pool -/

theorem Clear.share {s : Reception δ} (h : Clear s) {e : RefMemoryChunk × List UInt8}
    (he : e ∈ s.held) :
    Clear { s with
      client := { s.client with pool := s.client.pool.retainChunk e.1 }
      held := e :: s.held } := by
  have hview : e.1 ∈ s.views := List.mem_map_of_mem he
  have hlive : e.1 ∈ s.live := List.mem_append_right _ (List.mem_append_right _ hview)
  constructor
  · apply (h.inv.retainChunk hlive).perm
    rw [List.perm_iff_count]
    intro u
    simp only [live, views, List.count_append, List.map_cons, List.count_cons]
    omega
  · exact h.pairwise
  · intro v hv w hw
    rcases List.mem_append.mp hw with hw | hw
    · exact h.apart v hv w (List.mem_append_left _ hw)
    · rcases List.mem_cons.mp hw with rfl | hw
      · exact h.apart v hv _ (List.mem_append_right _ hview)
      · exact h.apart v hv w (List.mem_append_right _ hw)
  · intro d hd
    rcases List.mem_cons.mp hd with rfl | hd
    · exact h.contents _ he
    · exact h.contents d hd
  · exact h.queue

theorem Clear.discard {s : Reception δ} (h : Clear s) {e : RefMemoryChunk × List UInt8}
    (he : e ∈ s.held) :
    Clear { s with
      client := { s.client with pool := s.client.pool.releaseChunk e.1 }
      held := s.held.erase e } := by
  have hperm : s.live.Perm (e.1 :: (s.client.recvp ++ (s.client.recvq ++
      (s.held.erase e).map Prod.fst))) := by
    have hviews := (List.perm_cons_erase he).map Prod.fst
    rw [List.perm_iff_count] at hviews ⊢
    intro u
    have hcount := hviews u
    simp only [List.map_cons, List.count_cons] at hcount
    simp only [live, views, List.count_append, List.count_cons]
    omega
  constructor
  · exact (h.inv.perm hperm).releaseChunk
  · exact h.pairwise
  · intro v hv w hw
    rcases List.mem_append.mp hw with hw | hw
    · exact h.apart v hv w (List.mem_append_left _ hw)
    · obtain ⟨d, hd, rfl⟩ := List.mem_map.mp hw
      exact h.apart v hv _ (List.mem_append_right _ (List.mem_map_of_mem (List.mem_of_mem_erase hd)))
  · intro d hd
    rw [MemoryPool.mem_releaseChunk]
    exact h.contents d (List.mem_of_mem_erase hd)
  · rw [MemoryPool.mem_releaseChunk]
    exact h.queue

theorem Clear.others {s : Reception δ} (h : Clear s) {q : MemoryPool}
    (hq : MemoryPool.Keeps s.live s.client.pool q) :
    Clear { s with client := { s.client with pool := q } } := by
  constructor
  · exact hq.inv h.inv
  · exact h.pairwise
  · exact h.apart
  · intro e he
    rw [hq.bytes e.1 (List.mem_append_right _ (List.mem_append_right _ (List.mem_map_of_mem he)))]
    exact h.contents e he
  · rw [← h.queue]
    exact bytesOf_congr fun v hv =>
      hq.bytes v (List.mem_append_right _ (List.mem_append_left _ hv))

theorem Clear.close {s : Reception δ} (h : Clear s) : Clear { s with client := s.client.close } :=
  ⟨h.inv, h.pairwise, h.apart, h.contents, h.queue⟩

theorem Clear.step {s : Reception δ} {a : Action} (h : Clear s) (ha : Kept s a) :
    Clear (s.step a) := by
  cases a with
  | read bs =>
      simp only [Reception.step]
      split
      · split
        · exact h.replenished.close
        · apply h.replenished.transfer
          rw [List.length_take]
          exact Nat.le_trans (Nat.min_le_left _ _) (Nat.min_le_left _ _)
      · exact h
  | again =>
      simp only [Reception.step]
      split
      · exact h.replenished
      · exact h
  | fail =>
      simp only [Reception.step]
      split
      · exact h.replenished.close
      · exact h
  | copy count => exact h.copy count
  | pop count => exact h.pop count
  | popInto count dst => exact h.popInto count dst
  | share e =>
      simp only [Reception.step]
      split
      · rename_i he
        exact h.share he
      · exact h
  | discard e =>
      simp only [Reception.step]
      split
      · rename_i he
        exact h.discard he
      · exact h
  | others q => exact h.others ha

/-- A connected client that has not read anything. -/
def started (mempool : MemoryPool) (d : δ) : Reception δ :=
  ⟨⟨mempool, true, false, [], 0, [], d⟩, [], []⟩

/-- **Bytes once received are not overwritten.**  After any run, whatever `readv` returned
    and whoever holds on to packets, the views the next `readv` writes to map no byte
    of the queue or of a living packet; and the queue and the packets still hold what
    they held when the bytes were read and the packets popped. -/
theorem run_clear (mempool : MemoryPool) (hpool : mempool.Inv []) (d : δ) (as : List Action)
    (has : Along Reception.step Kept (started mempool d) as) :
    (∀ v ∈ (run Reception.step (started mempool d) as).client.recvp,
      ∀ w ∈ (run Reception.step (started mempool d) as).client.recvq ++
        (run Reception.step (started mempool d) as).views, Apart v w) ∧
    (∀ e ∈ (run Reception.step (started mempool d) as).held,
      e.1.bytes (run Reception.step (started mempool d) as).client.pool.mem = e.2) ∧
    bytesOf (run Reception.step (started mempool d) as).client.pool.mem
        (run Reception.step (started mempool d) as).client.recvq =
      (run Reception.step (started mempool d) as).unpopped := by
  have hstart : Clear (started mempool d) := by
    refine ⟨hpool, List.Pairwise.nil, ?_, ?_, rfl⟩
    · exact fun v hv => absurd hv List.not_mem_nil
    · exact fun e he => absurd he List.not_mem_nil
  have hrun := run_invariant (fun s a (hs : Clear s) ha => hs.step ha) hstart has
  exact ⟨hrun.apart, hrun.contents, hrun.queue⟩

/-- Chunks of four bytes: a packet that ends inside a chunk is kept while the rest of the
    chunk is read into. -/
def split : List Action := [.read [1, 2, 3, 4, 5, 6], .pop 5, .read [7, 8, 9], .again]

theorem run_clear_split :
    (∀ v ∈ (run Reception.step (started (MemoryPool.emptyPool 4) ()) split).client.recvp,
      ∀ w ∈ (run Reception.step (started (MemoryPool.emptyPool 4) ()) split).client.recvq ++
        (run Reception.step (started (MemoryPool.emptyPool 4) ()) split).views, Apart v w) ∧
    (∀ e ∈ (run Reception.step (started (MemoryPool.emptyPool 4) ()) split).held,
      e.1.bytes (run Reception.step (started (MemoryPool.emptyPool 4) ()) split).client.pool.mem =
        e.2) ∧
    bytesOf (run Reception.step (started (MemoryPool.emptyPool 4) ()) split).client.pool.mem
        (run Reception.step (started (MemoryPool.emptyPool 4) ()) split).client.recvq =
      (run Reception.step (started (MemoryPool.emptyPool 4) ()) split).unpopped :=
  run_clear _ (MemoryPool.emptyPool_inv 4) () split ⟨trivial, trivial, trivial, trivial, trivial⟩

end Reception

end Jengine.Net
