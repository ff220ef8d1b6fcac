import Jengine.Lib.Runs
import Jengine.Net.Client

/-!
# The read loop pass by pass

`OnEventIOReadable` reads until `EAGAIN`, and calls `OnReceive` after every read.  What
holds after each of these calls is a statement about the passes of its loop, so here a
run of a client is a sequence of passes; `Close` may be called between two of them.
Every run of readable events is such a sequence.
-/

namespace Jengine.Net

open Jengine.Lib Jengine.Memory RefMemoryChunk

/-- What happens to a client that is being read from. -/
inductive Pass where
  /-- `readv` returned these bytes. -/
  | bytes (bs : List UInt8)
  | again
  | eof
  | error
  /-- Other code calls `Close`. -/
  | close

/-- The bytes that a sequence of passes was given. -/
def Pass.given : Pass → List UInt8
  | .bytes bs => bs
  | _ => []

namespace Client

variable {δ : Type}

/-- The room that `readv` has. -/
def room (c : Client δ) : Nat := min (total c.recvp2IOVec) maxRWCount

/-- One pass of the loop of `OnEventIOReadable`.  `readv` cannot return more bytes than there
    is room for. -/
def pass (onReceive : Nat → Client δ → Client δ) (c : Client δ) (a : Pass) : Client δ :=
  match a with
  | .close => c.close
  | _ =>
      if c.connect && !c.closed then
        let c := c.replenish
        if c.recvp2IOVec = [] ∨ c.room = 0 then c.close
        else
          match a with
          | .again => c
          | .bytes bs =>
              if bs = [] ∨ c.room < bs.length then c
              else
                let c := c.transfer bs
                onReceive c.recvqCount c
          | _ => c.close
      else c

section

variable (onReceive : Nat → Client δ → Client δ) {c : Client δ}

theorem pass_open (hopen : (c.connect && !c.closed) = true)
    (hroom : ¬ (c.replenish.recvp2IOVec = [] ∨ c.replenish.room = 0)) :
    pass onReceive c .again = c.replenish ∧ pass onReceive c .eof = c.replenish.close ∧
      pass onReceive c .error = c.replenish.close ∧
      ∀ bs, bs ≠ [] → bs.length ≤ c.replenish.room →
        pass onReceive c (.bytes bs) =
          onReceive (c.replenish.transfer bs).recvqCount (c.replenish.transfer bs) := by
  simp only [pass, if_pos hopen, if_neg hroom, true_and]
  intro bs hne hfits
  rw [if_neg (by rintro (hnil | hlt); exacts [hne hnil, Nat.not_lt.mpr hfits hlt])]

theorem pass_full (hopen : (c.connect && !c.closed) = true)
    (hfull : c.replenish.recvp2IOVec = [] ∨ c.replenish.room = 0) :
    pass onReceive c .again = c.replenish.close := by
  simp only [pass, if_pos hopen, if_pos hfull]

/-- `OnReceive` is called in the pass, with these bytes at the end of the queue. -/
def Receives (c : Client δ) (bs : List UInt8) : Prop :=
  (c.connect && !c.closed) = true ∧ ¬ (c.replenish.recvp2IOVec = [] ∨ c.replenish.room = 0) ∧
    bs ≠ [] ∧ bs.length ≤ c.replenish.room

/-- The pieces in which views with room for so many bytes each take what is read. -/
def piecesOf : List Nat → List UInt8 → List (List UInt8)
  | [], _ => []
  | n :: ns, bs => if bs = [] then [] else bs.take n :: piecesOf ns (bs.drop n)

/-- The pieces of a read: the views of the receive pool take it in their order. -/
def pieces (c : Client δ) (bs : List UInt8) : List (List UInt8) :=
  piecesOf (c.replenish.recvp.map RefMemoryChunk.count) bs

/-- **A readable event is a sequence of passes**, which are given the bytes it takes; each
    of those that are given any calls `OnReceive`. -/
theorem onEventIOReadable_passes (answers : List Ready) (c : Client δ) (pending : List UInt8) :
    ∃ as : List Pass,
      (onEventIOReadable onReceive answers c pending).1 = run (pass onReceive) c as ∧
        pending = as.flatMap Pass.given ++ (onEventIOReadable onReceive answers c pending).2 ∧
        Along (pass onReceive) (fun c a => ∀ bs, a = .bytes bs → c.Receives bs) c as := by
  induction answers generalizing c pending with
  | nil =>
      unfold onEventIOReadable
      by_cases hopen : (c.connect && !c.closed) = true
      · rw [if_pos hopen]
        dsimp only
        by_cases hfull : c.replenish.recvp2IOVec = [] ∨
            min (total c.replenish.recvp2IOVec) maxRWCount = 0
        · rw [if_pos hfull]
          exact ⟨[.again], (pass_full onReceive hopen hfull).symm, rfl, fun _ h => Pass.noConfusion h, trivial⟩
        · rw [if_neg hfull]
          exact ⟨[.again], (pass_open onReceive hopen hfull).1.symm, rfl, fun _ h => Pass.noConfusion h, trivial⟩
      · rw [if_neg hopen]
        exact ⟨[], rfl, rfl, trivial⟩
  | cons answer answers ih =>
      unfold onEventIOReadable
      by_cases hopen : (c.connect && !c.closed) = true
      · rw [if_pos hopen]
        dsimp only
        by_cases hroom : c.replenish.recvp2IOVec = [] ∨
            min (total c.replenish.recvp2IOVec) maxRWCount = 0
        · rw [if_pos hroom]
          exact ⟨[.again], (pass_full onReceive hopen hroom).symm, rfl, fun _ h => Pass.noConfusion h, trivial⟩
        · rw [if_neg hroom]
          obtain ⟨hagain, heof, herror, hbytes⟩ := pass_open onReceive hopen hroom
          cases answer with
          | eof => exact ⟨[.eof], heof.symm, rfl, fun _ h => Pass.noConfusion h, trivial⟩
          | error => exact ⟨[.error], herror.symm, rfl, fun _ h => Pass.noConfusion h, trivial⟩
          | bytes n =>
            dsimp only
            have hle : min (min (n : Nat) (min (total c.replenish.recvp2IOVec) maxRWCount))
                pending.length ≤ c.replenish.room :=
              Nat.le_trans (Nat.min_le_left _ _) (Nat.min_le_right _ _)
            have hlen := List.length_take_of_le (l := pending)
              (Nat.min_le_right (min (n : Nat) (min (total c.replenish.recvp2IOVec) maxRWCount))
                pending.length)
            generalize min (min (n : Nat) (min (total c.replenish.recvp2IOVec) maxRWCount))
              pending.length = rc at hle hlen ⊢
            split
            · exact ⟨[.again], hagain.symm, rfl, fun _ h => Pass.noConfusion h, trivial⟩
            · rename_i hrc
              obtain ⟨as, hrun, hgiven, hreceives⟩ := ih
                (onReceive (c.replenish.transfer (pending.take rc)).recvqCount
                  (c.replenish.transfer (pending.take rc))) (pending.drop rc)
              have hne : pending.take rc ≠ [] := by
                intro hnil
                rw [hnil] at hlen
                exact hrc hlen.symm
              have hfits : (pending.take rc).length ≤ c.replenish.room := by
                rw [hlen]
                exact hle
              refine ⟨.bytes (pending.take rc) :: as, ?_, ?_, ?_, ?_⟩
              · rw [run_cons, hbytes _ hne hfits]
                exact hrun
              · rw [List.flatMap_cons, List.append_assoc, ← hgiven]
                exact (List.take_append_drop _ _).symm
              · rintro bs heq
                cases heq
                exact ⟨hopen, hroom, hne, hfits⟩
              · rw [hbytes _ hne hfits]
                exact hreceives
      · rw [if_neg hopen]
        exact ⟨[], rfl, rfl, trivial⟩

/-! ### What a pass does -/

/-- Nothing is received; the client may be closed. -/
structure Rests (c r : Client δ) : Prop where
  inv : r.Inv
  received : r.received = c.received
  connect : r.connect = c.connect
  closed : c.closed = true → r.closed = true
  derived : r.derived = c.derived

theorem Rests.refl (h : c.Inv) : Rests c c := ⟨h, rfl, rfl, id, rfl⟩

theorem Rests.close {r : Client δ} (h : Rests c r) : Rests c r.close :=
  ⟨⟨h.inv.sound, h.inv.filled, h.inv.recvp_le, h.inv.count, h.inv.chunk_pos⟩, h.received, h.connect,
    fun _ => rfl, h.derived⟩

theorem rests_replenish (h : c.Inv) : Rests c c.replenish := by
  obtain ⟨hinv, hreceived, -, hclosed, hconnect, hderived⟩ := replenish_spec h
  exact ⟨hinv, hreceived, hconnect, fun hc => hclosed.trans hc, hderived⟩

theorem pass_cases (h : c.Inv) (a : Pass) :
    (∃ bs, a = .bytes bs ∧ c.Receives bs ∧ pass onReceive c a =
        onReceive (c.replenish.transfer bs).recvqCount (c.replenish.transfer bs)) ∨
      (∀ bs, a = .bytes bs → ¬ c.Receives bs) ∧ Rests c (pass onReceive c a) := by
  have hreplenish := rests_replenish h
  cases a with
  | close => exact .inr ⟨nofun, (Rests.refl h).close⟩
  | again | eof | error =>
      refine .inr ⟨nofun, ?_⟩
      simp only [pass]
      split
      · split
        · exact hreplenish.close
        · first | exact hreplenish | exact hreplenish.close
      · exact .refl h
  | bytes bs =>
      by_cases hreceives : c.Receives bs
      · obtain ⟨hopen, hroom, hne, hfits⟩ := id hreceives
        exact .inl ⟨bs, rfl, hreceives, (pass_open onReceive hopen hroom).2.2.2 bs hne hfits⟩
      · refine .inr ⟨?_, ?_⟩
        · rintro bs' heq
          cases heq
          exact hreceives
        · simp only [pass]
          split
          · rename_i hopen
            split
            · exact hreplenish.close
            · rename_i hroom
              split
              · exact hreplenish
              · rename_i hfits
                rw [not_or, Nat.not_lt] at hfits
                exact absurd ⟨hopen, hroom, hfits.1, hfits.2⟩ hreceives
          · exact .refl h

theorem Receives.closed {bs : List UInt8} (h : c.Receives bs) : c.closed = false := by
  obtain ⟨hopen, -⟩ := h
  rw [Bool.and_eq_true, Bool.not_eq_true'] at hopen
  exact hopen.2

/-- What `OnReceive` finds. -/
theorem Receives.spec (h : c.Inv) {bs : List UInt8} (hreceives : c.Receives bs) :
    (c.replenish.transfer bs).Inv ∧ (c.replenish.transfer bs).received = c.received ++ bs ∧
      (c.replenish.transfer bs).recvqCount = (c.received ++ bs).length ∧
      (c.replenish.transfer bs).closed = false ∧ (c.replenish.transfer bs).connect = true ∧
      (c.replenish.transfer bs).derived = c.derived := by
  obtain ⟨hopen, -, -, hfits⟩ := hreceives
  rw [Bool.and_eq_true, Bool.not_eq_true'] at hopen
  obtain ⟨hinv, hreceived, -, hclosed, hconnect, hderived⟩ := replenish_spec h
  have hroom : bs.length ≤ total c.replenish.recvp := by
    rw [room, recvp2IOVec_eq hinv] at hfits
    exact Nat.le_trans hfits (Nat.min_le_left _ _)
  obtain ⟨hinv', hreceived', hclosed', hconnect', hderived'⟩ := transfer_spec hinv hroom
  rw [hreceived] at hreceived'
  refine ⟨hinv', hreceived', ?_, hclosed'.trans (hclosed.trans hopen.2),
    hconnect'.trans (hconnect.trans hopen.1), hderived'.trans hderived⟩
  rw [hinv'.count_eq, hreceived']

theorem recvq_replenish (c : Client δ) : c.replenish.recvq = c.recvq := by
  unfold replenish
  split
  · rfl
  · rfl

/-- A pass without `OnReceive` leaves the queue. -/
theorem recvq_pass {a : Pass} (h : ∀ bs, a = .bytes bs → ¬ c.Receives bs) :
    (pass onReceive c a).recvq = c.recvq := by
  have hreplenish := recvq_replenish c
  cases a with
  | close => rfl
  | again | eof | error =>
      simp only [pass]
      split
      · split
        · exact hreplenish
        · exact hreplenish
      · rfl
  | bytes bs =>
      simp only [pass]
      split
      · rename_i hopen
        split
        · exact hreplenish
        · rename_i hroom
          split
          · exact hreplenish
          · rename_i hfits
            rw [not_or, Nat.not_lt] at hfits
            exact absurd ⟨hopen, hroom, hfits.1, hfits.2⟩ (h bs rfl)
      · rfl

end

/-- No view that is moved is empty. -/
theorem filled_cut {vs : List RefMemoryChunk} (h : ∀ v ∈ vs, 0 < v.count) (p : MemoryPool)
    (n : Nat) : ∀ v ∈ (cut p n vs).1, 0 < v.count := by
  induction vs generalizing p n with
  | nil => exact fun v hv => absurd hv List.not_mem_nil
  | cons w ws ih =>
      obtain ⟨hw, hws⟩ := List.forall_mem_cons.mp h
      by_cases hzero : n = 0
      · rw [hzero, cut_zero]
        exact fun v hv => absurd hv List.not_mem_nil
      · by_cases hle : w.count ≤ n
        · rw [cut_cons_whole p ws hzero hle]
          exact List.forall_mem_cons.mpr ⟨hw, ih hws _ _⟩
        · rw [cut_cons_split p ws hzero hle]
          refine List.forall_mem_singleton.mpr ?_
          show 0 < w.count - (w.count - n)
          omega

section

variable {c : Client δ}

/-- Where the queue is emptied in every pass, `OnReceive` finds the bytes of this pass in views
    none of which is empty. -/
theorem filled_transfer (h : c.Inv) (hqueue : c.recvq = []) (bs : List UInt8) :
    ∀ v ∈ (c.replenish.transfer bs).recvq, 0 < v.count := by
  intro v hv
  simp only [transfer, recvq_replenish, hqueue, List.nil_append] at hv
  exact filled_cut (replenish_spec h).1.filled _ _ v hv

/-- `PopReceive` of all there is. -/
theorem popReceive_all (h : c.Inv) (hfilled : ∀ v ∈ c.recvq, 0 < v.count) :
    (∀ v ∈ (c.popReceive c.recvqCount).1, 0 < v.count) ∧
      (c.popReceive c.recvqCount).2.recvq = [] := by
  refine ⟨filled_cut hfilled _ _, ?_⟩
  have hreceived := (popReceive_spec h (Nat.le_of_eq h.count_eq)).2.1
  have hkept : ∀ v ∈ (c.popReceive c.recvqCount).2.recvq, 0 < v.count :=
    (cut_spec c.recvq c.pool c.recvqCount c.recvp h.sound).filled hfilled
  by_contra hne
  have hpos := total_pos_of_filled hkept hne
  rw [← length_bytesOf (c.popReceive c.recvqCount).2.pool.mem] at hpos
  have hnone : c.received.drop c.recvqCount = [] := by rw [h.count_eq, List.drop_length]
  rw [received, hnone] at hreceived
  rw [hreceived] at hpos
  exact absurd hpos (Nat.lt_irrefl 0)

theorem piecesOf_nil (ns : List Nat) : piecesOf ns [] = [] := by
  cases ns with
  | nil => rfl
  | cons n ns => exact if_pos rfl

/-- The bytes that are moved, view by view. -/
theorem pieces_cut (m : Bytes) {vs : List RefMemoryChunk} (h : ∀ v ∈ vs, 0 < v.count)
    (p : MemoryPool) (n : Nat) :
    (cut p n vs).1.map (bytes m) =
      piecesOf (vs.map RefMemoryChunk.count) ((bytesOf m vs).take n) := by
  induction vs generalizing p n with
  | nil => rfl
  | cons v vs ih =>
      obtain ⟨hv, hvs⟩ := List.forall_mem_cons.mp h
      have hlen := length_bytes m v
      by_cases hzero : n = 0
      · rw [hzero, cut_zero, List.take_zero, piecesOf_nil]
        rfl
      · have hne : (bytesOf m (v :: vs)).take n ≠ [] := by
          rw [bytesOf_cons, Ne, ← List.length_eq_zero_iff, List.length_take, List.length_append]
          omega
        rw [List.map_cons, piecesOf, if_neg hne, bytesOf_cons]
        by_cases hle : v.count ≤ n
        · have hall : (v.bytes m).take n = v.bytes m := List.take_of_length_le (by omega)
          rw [cut_cons_whole p vs hzero hle, List.map_cons, ih hvs, List.take_append, hall, hlen,
            List.take_left' hlen, List.drop_left' hlen]
        · have hfirst : (v.bytes m ++ bytesOf m vs).take n = (v.bytes m).take n :=
            List.take_append_of_le_length (by omega)
          have hshort : ((v.bytes m).take n).length ≤ v.count := by
            rw [List.length_take]
            omega
          rw [cut_cons_split p vs hzero hle, List.map_singleton, bytes_shrinkCount m v (by omega),
            hfirst, List.take_of_length_le hshort, List.drop_of_length_le hshort, piecesOf_nil]

/-- All the views are moved as they are. -/
theorem cut_total {vs : List RefMemoryChunk} (h : ∀ v ∈ vs, 0 < v.count) (p : MemoryPool) :
    (cut p (total vs) vs).1 = vs := by
  induction vs generalizing p with
  | nil => rfl
  | cons v vs ih =>
      obtain ⟨hv, hvs⟩ := List.forall_mem_cons.mp h
      rw [total_cons, cut_cons_whole p vs (by omega) (by omega), Nat.add_sub_cancel_left, ih hvs]

/-- `OnReceive` finds the pieces of the read. -/
theorem popReceive_pieces (h : c.Inv) (hqueue : c.recvq = []) {bs : List UInt8}
    (hreceives : c.Receives bs) :
    ((c.replenish.transfer bs).popReceive (c.replenish.transfer bs).recvqCount).1.map
      (bytes (c.replenish.transfer bs).pool.mem) = c.pieces bs := by
  obtain ⟨hinv, -⟩ := hreceives.spec h
  obtain ⟨hinv0, -⟩ := replenish_spec h
  have hall : ((c.replenish.transfer bs).popReceive (c.replenish.transfer bs).recvqCount).1 =
      (c.replenish.transfer bs).recvq := by
    show (cut _ _ _).1 = _
    rw [hinv.count, cut_total (filled_transfer h hqueue bs)]
  have hroom : bs.length ≤ total c.replenish.recvp := by
    have hfits := hreceives.2.2.2
    rw [room, recvp2IOVec_eq hinv0] at hfits
    exact Nat.le_trans hfits (Nat.min_le_left _ _)
  have hfill := bytesOf_scatter c.replenish.recvp c.replenish.pool.mem bs
    (List.pairwise_append.mp hinv0.sound.apart).2.1
  rw [List.take_of_length_le hroom] at hfill
  have hmem : (c.replenish.transfer bs).pool.mem =
      scatter c.replenish.pool.mem c.replenish.recvp bs := by
    simp only [transfer, recvp2IOVec_eq hinv0, (pool_cut _ _ _).1]
  have hqueue1 : (c.replenish.transfer bs).recvq =
      (cut { c.replenish.pool with mem := scatter c.replenish.pool.mem c.replenish.recvp bs }
        bs.length c.replenish.recvp).1 := by
    simp only [transfer, recvp2IOVec_eq hinv0, recvq_replenish, hqueue, List.nil_append]
  rw [hall, hmem, hqueue1, pieces_cut _ hinv0.filled, hfill, List.take_left]
  rfl

/-- The popped views are destroyed. -/
theorem Inv.releaseAll (h : c.Inv) {data : List RefMemoryChunk}
    (hsound : Sound c.pool (data ++ (c.recvq ++ c.recvp))) :
    Inv { c with pool := c.pool.releaseAll data } := by
  obtain ⟨hinv, -, hsize⟩ := MemoryPool.Inv.releaseAll data hsound.inv
  refine ⟨⟨hinv, h.sound.apart, h.sound.fresh⟩, h.filled, h.recvp_le, h.count, ?_⟩
  show 0 < (c.pool.releaseAll data).chunkLength
  rw [MemoryPool.chunkLength, hsize]
  exact h.chunk_pos

end

end Client

end Jengine.Net
