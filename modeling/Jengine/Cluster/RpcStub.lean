import Jengine.Lib.Runs
import Mathlib.Data.List.Nodup
import Mathlib.Logic.Function.Basic

/-!
# Remote calls and their replies

`RpcStub` (`base/cluster/rpcstub.h`, `rpcstub.cpp`) sends a request with a fresh
session id and keeps the callback in `calls_` under that id; a message that
comes in with the id runs the callback and removes it.  The id is a wrapping
16-bit counter that skips 0, and `calls_.insert` keeps the entry that is there.

Requests are numbered in the order they are made, so that a callback can be
told from another one with the same session id.  A reply is the answer to one
request and carries the session id that went out with it; the environment
delivers at most one reply to each request, in any order, or none.
-/

namespace Jengine.Cluster

open Jengine.Lib

/-- `RpcCall`: the callback is the number of its request; a call made with `Call`
    has a linker, which belongs to the request. -/
structure RpcCall where
  request : Nat
  linker : Bool
deriving DecidableEq, Repr

/-- `GenSessionID`: the id, and `session_cur_` afterwards. -/
def genSessionID (cur : UInt16) : UInt16 × UInt16 :=
  if cur = 0 then (cur + 1, cur + 1 + 1) else (cur, cur + 1)

/-- An `RpcStub` and what has become of its requests. -/
structure RpcStub where
  sessionCur : UInt16
  calls : UInt16 → Option RpcCall
  /-- Requests made so far. -/
  requests : Nat
  /-- The session id sent with a request. -/
  session : Nat → UInt16
  /-- References to the linker of a request that are held outside `calls_`. -/
  retained : Nat → Nat
  /-- Requests whose reply has been delivered. -/
  answered : List Nat
  /-- Callbacks run so far: the request of the callback, and the request whose reply
      it was given. -/
  invoked : List (Nat × Nat)

namespace RpcStub

def init : RpcStub := ⟨0, fun _ => none, 0, fun _ => 0, fun _ => 0, [], []⟩

/-- `calls_.insert`: an entry that is there stays. -/
def insert (calls : UInt16 → Option RpcCall) (sid : UInt16) (c : RpcCall) :
    UInt16 → Option RpcCall :=
  if calls sid = none then Function.update calls sid (some c) else calls

/-- `Call` (with a linker) and `CallWithoutLinker`. -/
def call (s : RpcStub) (linker : Bool) : RpcStub :=
  let (sid, cur) := genSessionID s.sessionCur
  { s with
    sessionCur := cur
    calls := insert s.calls sid ⟨s.requests, linker⟩
    requests := s.requests + 1
    session := Function.update s.session s.requests sid }

/-- Whether `OnMessageReceive` runs the callback: the reference in `calls_` and one
    outside it. -/
def linked (s : RpcStub) (c : RpcCall) : Bool := !c.linker || 1 + s.retained c.request == 2

/-- `OnMessageReceive` with the reply to request `j`.  The callback may make calls of
    its own, given by their kinds, before the entry is erased. -/
def onMessageReceive (s : RpcStub) (j : Nat) (nested : List Bool) : RpcStub :=
  match s.calls (s.session j) with
  | none => { s with answered := j :: s.answered }
  | some c =>
      let s' :=
        if s.linked c then run call { s with invoked := s.invoked ++ [(c.request, j)] } nested
        else s
      { s' with
        calls := Function.update s'.calls (s.session j) none
        answered := j :: s'.answered }

inductive Action where
  | call (linker : Bool)
  | retain (i : Nat)
  | release (i : Nat)
  | reply (j : Nat) (nested : List Bool)

/-- One event.  Only a request that was made and not answered yet has a reply. -/
def step (s : RpcStub) : Action → RpcStub
  | .call linker => s.call linker
  | .retain i => { s with retained := Function.update s.retained i (s.retained i + 1) }
  | .release i => { s with retained := Function.update s.retained i (s.retained i - 1) }
  | .reply j nested =>
      if j < s.requests ∧ j ∉ s.answered then s.onMessageReceive j nested else s

/-- A callback gets the reply to its own request, at most once, and every request
    without a reply is in `calls_` under the id sent with it. -/
structure Matched (s : RpcStub) : Prop where
  own : ∀ p ∈ s.invoked, p.1 = p.2
  once : (s.invoked.map Prod.fst).Nodup
  present : ∀ i < s.requests, i ∉ s.answered →
    ∃ linker, s.calls (s.session i) = some ⟨i, linker⟩

/-- The id that `GenSessionID` returns next is not in use. -/
def Fresh (s : RpcStub) : Prop := s.calls (genSessionID s.sessionCur).1 = none

/-- Every call of the step finds its id unused. -/
def Clear (s : RpcStub) : Action → Prop
  | .call _ => s.Fresh
  | .reply j nested =>
      j < s.requests → j ∉ s.answered → ∀ c, s.calls (s.session j) = some c → s.linked c →
        Along call (fun s _ => Fresh s) { s with invoked := s.invoked ++ [(c.request, j)] } nested
  | .retain _ => True
  | .release _ => True

/-! ### Calls -/

/-- The entries of `calls_` are the open requests, each under its own id. -/
structure Open (s : RpcStub) : Prop where
  entry : ∀ k c, s.calls k = some c → c.request < s.requests ∧ c.request ∉ s.answered ∧
    s.session c.request = k
  present : ∀ i < s.requests, i ∉ s.answered →
    ∃ linker, s.calls (s.session i) = some ⟨i, linker⟩
  answered_lt : ∀ i ∈ s.answered, i < s.requests

/-- What a call leaves alone. -/
structure SameReplies (s s' : RpcStub) : Prop where
  answered : s'.answered = s.answered
  invoked : s'.invoked = s.invoked
  session : ∀ i < s.requests, s'.session i = s.session i
  requests_le : s.requests ≤ s'.requests

theorem call_sameReplies (s : RpcStub) (linker : Bool) : SameReplies s (s.call linker) where
  answered := rfl
  invoked := rfl
  session := fun _ hi => Function.update_of_ne (Nat.ne_of_lt hi) _ _
  requests_le := Nat.le_succ _

theorem SameReplies.trans {s s' s'' : RpcStub} (h : SameReplies s s') (h' : SameReplies s' s'') :
    SameReplies s s'' where
  answered := h'.answered.trans h.answered
  invoked := h'.invoked.trans h.invoked
  session := fun i hi =>
    (h'.session i (Nat.lt_of_lt_of_le hi h.requests_le)).trans (h.session i hi)
  requests_le := Nat.le_trans h.requests_le h'.requests_le

theorem Open.call {s : RpcStub} (h : Open s) (hfresh : s.Fresh) (linker : Bool) :
    Open (s.call linker) := by
  have hcalls : (s.call linker).calls =
      Function.update s.calls (genSessionID s.sessionCur).1 (some ⟨s.requests, linker⟩) :=
    if_pos hfresh
  have hsession : (s.call linker).session =
      Function.update s.session s.requests (genSessionID s.sessionCur).1 := rfl
  constructor
  · intro k c hc
    rw [hcalls] at hc
    rw [hsession]
    by_cases hk : k = (genSessionID s.sessionCur).1
    · subst hk
      rw [Function.update_self, Option.some.injEq] at hc
      subst hc
      refine ⟨Nat.lt_succ_self _, ?_, Function.update_self ..⟩
      intro hmem
      exact Nat.lt_irrefl _ (h.answered_lt _ hmem)
    · rw [Function.update_of_ne hk] at hc
      obtain ⟨hlt, hopen, hsid⟩ := h.entry k c hc
      exact ⟨Nat.lt_succ_of_lt hlt, hopen,
        (Function.update_of_ne (Nat.ne_of_lt hlt) _ _).trans hsid⟩
  · intro i hi hopen
    rw [hcalls, hsession]
    by_cases hnew : i = s.requests
    · subst hnew
      rw [Function.update_self, Function.update_self]
      exact ⟨linker, rfl⟩
    · have hlt : i < s.requests := Nat.lt_of_le_of_ne (Nat.le_of_lt_succ hi) hnew
      obtain ⟨l, hl⟩ := h.present i hlt hopen
      refine ⟨l, ?_⟩
      -- the id of an open request is in use, so it is not the new one
      have hne : s.session i ≠ (genSessionID s.sessionCur).1 := by
        intro heq
        rw [heq, show s.calls (genSessionID s.sessionCur).1 = none from hfresh] at hl
        exact absurd hl (by simp)
      rw [Function.update_of_ne hnew, Function.update_of_ne hne, hl]
  · exact fun i hi => Nat.lt_succ_of_lt (h.answered_lt i hi)

theorem Open.calls : ∀ (nested : List Bool) {s : RpcStub}, Open s →
    Along RpcStub.call (fun s _ => Fresh s) s nested →
    Open (run RpcStub.call s nested) ∧ SameReplies s (run RpcStub.call s nested) := by
  intro nested
  induction nested with
  | nil => exact fun h _ => ⟨h, rfl, rfl, fun _ _ => rfl, Nat.le_refl _⟩
  | cons linker nested ih =>
      intro s h hfresh
      obtain ⟨hopen, hsame⟩ := ih (h.call hfresh.1 linker) hfresh.2
      exact ⟨hopen, (call_sameReplies s linker).trans hsame⟩

/-! ### Steps and runs -/

/-- The invariant: the open requests are in `calls_`, and every callback that has run
    was given the reply to its own, now answered, request. -/
structure Inv (s : RpcStub) : Prop where
  isOpen : Open s
  own : ∀ p ∈ s.invoked, p.1 = p.2 ∧ p.1 ∈ s.answered
  once : (s.invoked.map Prod.fst).Nodup

theorem Inv.matched {s : RpcStub} (h : Inv s) : Matched s :=
  ⟨fun p hp => (h.own p hp).1, h.once, h.isOpen.present⟩

/-- An answered request leaves `calls_`. -/
theorem Open.erase {s : RpcStub} (h : Open s) {j : Nat} (hj : j < s.requests)
    (hopen : j ∉ s.answered) :
    Open { s with calls := Function.update s.calls (s.session j) none,
                  answered := j :: s.answered } := by
  obtain ⟨l, hl⟩ := h.present j hj hopen
  constructor
  · intro k c hc
    simp only at hc
    by_cases hk : k = s.session j
    · rw [hk, Function.update_self] at hc
      cases hc
    · rw [Function.update_of_ne hk] at hc
      obtain ⟨hlt, hother, hsid⟩ := h.entry k c hc
      refine ⟨hlt, ?_, hsid⟩
      intro hmem
      rcases List.mem_cons.mp hmem with heq | hmem
      · exact hk (by rw [← heq, hsid])
      · exact hother hmem
  · intro i hi hother
    simp only [List.mem_cons, not_or] at hother
    obtain ⟨l', hl'⟩ := h.present i hi hother.2
    have hne : s.session i ≠ s.session j := by
      intro heq
      rw [heq, hl, Option.some.injEq, RpcCall.mk.injEq] at hl'
      exact hother.1 hl'.1.symm
    exact ⟨l', (Function.update_of_ne hne _ _).trans hl'⟩
  · intro i hi
    rcases List.mem_cons.mp hi with rfl | hi
    · exact hj
    · exact h.answered_lt i hi

theorem Inv.onMessageReceive {s : RpcStub} (h : Inv s) {j : Nat} (hj : j < s.requests)
    (hopen : j ∉ s.answered) {nested : List Bool} (hclear : Clear s (.reply j nested)) :
    Inv (s.onMessageReceive j nested) := by
  obtain ⟨linker, hentry⟩ := h.isOpen.present j hj hopen
  rcases hlinked : s.linked ⟨j, linker⟩ with _ | _
  · have heq : s.onMessageReceive j nested =
        { s with calls := Function.update s.calls (s.session j) none,
                 answered := j :: s.answered } := by
      simp only [RpcStub.onMessageReceive, hentry, hlinked, Bool.false_eq_true, if_false]
    rw [heq]
    refine ⟨h.isOpen.erase hj hopen, ?_, h.once⟩
    exact fun p hp => ⟨(h.own p hp).1, List.mem_cons_of_mem j (h.own p hp).2⟩
  · -- the callback runs, with the entry still in `calls_`
    have hopen1 : Open { s with invoked := s.invoked ++ [(j, j)] } :=
      ⟨h.isOpen.entry, h.isOpen.present, h.isOpen.answered_lt⟩
    obtain ⟨hopen2, hsame⟩ := hopen1.calls nested (hclear hj hopen _ hentry hlinked)
    have heq : s.onMessageReceive j nested =
        { run RpcStub.call { s with invoked := s.invoked ++ [(j, j)] } nested with
          calls := Function.update
            (run RpcStub.call { s with invoked := s.invoked ++ [(j, j)] } nested).calls
            (s.session j) none
          answered := j ::
            (run RpcStub.call { s with invoked := s.invoked ++ [(j, j)] } nested).answered } := by
      simp only [RpcStub.onMessageReceive, hentry, hlinked, if_true]
    rw [heq]
    generalize run RpcStub.call { s with invoked := s.invoked ++ [(j, j)] } nested = s2 at *
    have hsession : s2.session j = s.session j := hsame.session j hj
    have hanswered : s2.answered = s.answered := hsame.answered
    have hinvoked : s2.invoked = s.invoked ++ [(j, j)] := hsame.invoked
    have herase := hopen2.erase (Nat.lt_of_lt_of_le hj hsame.requests_le)
      (by rw [hanswered]; exact hopen)
    rw [hsession] at herase
    refine ⟨herase, ?_, ?_⟩
    · intro p hp
      simp only [hinvoked, List.mem_append, List.mem_singleton] at hp
      simp only [hanswered]
      rcases hp with hp | rfl
      · exact ⟨(h.own p hp).1, List.mem_cons_of_mem j (h.own p hp).2⟩
      · exact ⟨rfl, List.mem_cons_self⟩
    · simp only [hinvoked, List.map_append, List.map_cons, List.map_nil]
      apply List.Nodup.append h.once (List.nodup_singleton j)
      intro i hi hmem
      obtain ⟨p, hp, rfl⟩ := List.mem_map.mp hi
      rw [List.mem_singleton] at hmem
      exact hopen (hmem ▸ (h.own p hp).2)

theorem Inv.step {s : RpcStub} (h : Inv s) {a : Action} (hclear : Clear s a) : Inv (s.step a) := by
  cases a with
  | call linker =>
      exact ⟨h.isOpen.call hclear linker, h.own, h.once⟩
  | retain i => exact ⟨⟨h.isOpen.entry, h.isOpen.present, h.isOpen.answered_lt⟩, h.own, h.once⟩
  | release i => exact ⟨⟨h.isOpen.entry, h.isOpen.present, h.isOpen.answered_lt⟩, h.own, h.once⟩
  | reply j nested =>
      by_cases hj : j < s.requests ∧ j ∉ s.answered
      · rw [RpcStub.step, if_pos hj]
        exact h.onMessageReceive hj.1 hj.2 hclear
      · rw [RpcStub.step, if_neg hj]
        exact h

theorem inv_init : Inv init where
  isOpen := ⟨fun _ _ h => absurd h (by simp [init]), fun _ h => absurd h (Nat.not_lt_zero _),
    fun _ h => absurd h List.not_mem_nil⟩
  own := fun _ h => absurd h List.not_mem_nil
  once := List.nodup_nil

/-- **Replies are not crossed while ids are unused when they are drawn.** -/
theorem run_matched (as : List Action) (h : Along step Clear init as) :
    Matched (run step init as) :=
  (run_invariant (I := Inv) (fun _ _ hs ha => hs.step ha) inv_init h).matched

/-- Two calls, answered in the opposite order, the second one from a callback. -/
theorem run_matched_reversed :
    Matched (run step init [.call false, .call false, .reply 1 [false], .reply 0 [], .reply 2 []]) := by
  apply run_matched
  refine ⟨rfl, rfl, ?_, ?_, ?_, trivial⟩
  · exact fun _ _ c _ _ => ⟨rfl, trivial⟩
  · exact fun _ _ c _ _ => trivial
  · exact fun _ _ c _ _ => trivial

/-! ### After 65535 calls -/

/-- The stub after `n + 1` calls that nobody answers: the ids go round from 1 to 65535,
    and the first call keeps its entry. -/
theorem calls_unanswered (n : Nat) :
    (run step init (List.replicate (n + 1) (.call false))).requests = n + 1 ∧
      (run step init (List.replicate (n + 1) (.call false))).sessionCur =
        UInt16.ofNat (n % 65535 + 2) ∧
      (run step init (List.replicate (n + 1) (.call false))).session n =
        UInt16.ofNat (n % 65535 + 1) ∧
      (run step init (List.replicate (n + 1) (.call false))).calls 1 = some ⟨0, false⟩ ∧
      (run step init (List.replicate (n + 1) (.call false))).answered = [] ∧
      (run step init (List.replicate (n + 1) (.call false))).invoked = [] := by
  induction n with
  | zero => exact ⟨rfl, rfl, rfl, rfl, rfl, rfl⟩
  | succ n ih =>
      rw [List.replicate_succ', run_append]
      generalize run step init (List.replicate (n + 1) (.call false)) = s at ih
      obtain ⟨hreq, hcur, -, hfirst, hans, hinv⟩ := ih
      -- the counter has just passed 0 when the round is over
      have hgen : genSessionID s.sessionCur =
          (UInt16.ofNat ((n + 1) % 65535 + 1), UInt16.ofNat ((n + 1) % 65535 + 2)) := by
        rw [hcur, genSessionID]
        by_cases hlast : n % 65535 = 65534
        · have hzero : (n + 1) % 65535 = 0 := by omega
          rw [hlast, hzero]
          rfl
        · have hnext : (n + 1) % 65535 = n % 65535 + 1 := by omega
          have hlt : n % 65535 < 65535 := Nat.mod_lt _ (by decide)
          have hne : UInt16.ofNat (n % 65535 + 2) ≠ 0 := by
            intro heq
            have := congrArg UInt16.toNat heq
            rw [UInt16.toNat_ofNat_of_lt' (by show n % 65535 + 2 < 2 ^ 16; omega)] at this
            exact absurd this (by simp)
          rw [if_neg hne, hnext]
          exact Prod.ext rfl (UInt16.ofNat_add (n % 65535 + 2) 1).symm
      have hcall : run step s [.call false] = s.call false := rfl
      refine ⟨?_, ?_, ?_, ?_, hans, hinv⟩
      · simp only [hcall, call, hreq]
      · simp only [hcall, call, hgen]
      · simp only [hcall, call, hgen, hreq, Function.update_self]
      · simp only [hcall, call, insert]
        split
        · rename_i hnone
          have hne : (1 : UInt16) ≠ (genSessionID s.sessionCur).1 := by
            intro heq
            rw [← heq, hfirst] at hnone
            cases hnone
          rw [Function.update_of_ne hne, hfirst]
        · exact hfirst

/-- When the ids have gone round with the first call unanswered, the last call is not
    in `calls_`, and the reply to it goes to the first one's callback. -/
theorem crossed_of_round {n : Nat} (hn : n ≠ 0) (hround : n % 65535 = 0) :
    ¬ Matched (run step init (List.replicate (n + 1) (.call false))) ∧
      (run step init (List.replicate (n + 1) (.call false) ++ [.reply n []])).invoked =
        [(0, n)] := by
  obtain ⟨hreq, -, hsid, hfirst, hans, hinv⟩ := calls_unanswered n
  rw [run_append]
  generalize run step init (List.replicate (n + 1) (.call false)) = s at *
  have hone : s.session n = 1 := by rw [hsid, hround]; rfl
  constructor
  · intro h
    obtain ⟨linker, hl⟩ := h.present n (by omega) (by simp [hans])
    rw [hone, hfirst, Option.some.injEq, RpcCall.mk.injEq] at hl
    exact hn hl.1.symm
  · have hj : n < s.requests ∧ n ∉ s.answered := ⟨by omega, by simp [hans]⟩
    have hreply : run step s [.reply n []] = s.onMessageReceive n [] := if_pos hj
    rw [hreply, onMessageReceive, hone, hfirst]
    simp [linked, hinv]

theorem run_crossed :
    ¬ Matched (run step init (List.replicate 65536 (.call false))) ∧
      (run step init (List.replicate 65536 (.call false) ++ [.reply 65535 []])).invoked =
        [(0, 65535)] :=
  crossed_of_round (by decide) rfl

end RpcStub

end Jengine.Cluster
