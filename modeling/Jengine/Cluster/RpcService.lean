import Jengine.Cluster.MailboxID
import Jengine.Cluster.RpcStub
import Mathlib.Data.List.Perm.Basic

/-!
# Stubs and their service

`RpcService` (`base/cluster/rpcservice.h`, `rpcservice.cpp`) with the `RpcStub`s that call it.  A
message with a session id is a call, and the service replies to it when it likes, and once at
most, with a message to the mailbox and with the session id that the call came from.  A message
without a session id is a cast, and there is no reply.

Messages are delivered in any order or are lost, and none is delivered twice.  What a stub relies
on is a theorem here: a reply that comes in is the first one to a request that was made.

The calls of a stub are numbered.  The number is in the messages so that it can be said which
call they belong to; nothing reads it.  A callback may make calls with its own stub; calls with
other stubs are steps of their own, before or after.
-/

namespace Jengine.Cluster

open Jengine.Lib

/-- A message to the service: `from`, `session` and what it carries. -/
structure Request (α : Type) where
  sender : MailboxID
  session : UInt16
  body : α
  number : Nat

/-- A message to a stub: `to`, `session` and what it carries. -/
structure Reply (ρ : Type) where
  receiver : MailboxID
  session : UInt16
  body : ρ
  number : Nat

/-- Which call a message belongs to. -/
abbrev CallID := MailboxID × Nat

/-- `session() != 0`. -/
def Request.isCall {α : Type} (q : Request α) : Bool := q.session != 0

def Request.key {α : Type} (q : Request α) : CallID := (q.sender, q.number)

def Reply.key {ρ : Type} (r : Reply ρ) : CallID := (r.receiver, r.number)

/-- A call that is made: what it asks, and whether with a linker. -/
structure Asked (α : Type) where
  body : α
  linker : Bool

/-- The stubs by their mailboxes, the service, and the messages between them. -/
structure RpcService (α ρ : Type) where
  stubs : MailboxID → RpcStub
  requests : List (Request α)
  replies : List (Reply ρ)
  /-- `OnCall` has been called and there is no reply yet. -/
  pending : List (Request α)
  /-- A message has been lost. -/
  lost : Bool
  /-- The calls that a stub has made, by their numbers. -/
  asked : MailboxID → List (Asked α)
  /-- What `OnCall` has been called with. -/
  called : List (Request α)
  /-- What `OnCast` has been called with. -/
  casted : List (MailboxID × α)
  replied : List (Reply ρ)
  /-- The callbacks that a stub has run: whose call it was, and what it was given. -/
  results : MailboxID → List (Nat × ρ)

namespace RpcService

variable {α ρ : Type}

def start : RpcService α ρ where
  stubs _ := RpcStub.init
  requests := []
  replies := []
  pending := []
  lost := false
  asked _ := []
  called := []
  casted := []
  replied := []
  results _ := []

/-- `RpcStub::Call` or `CallWithoutLinker`. -/
def call (m : MailboxID) (s : RpcService α ρ) (a : Asked α) : RpcService α ρ :=
  { s with
    stubs := Function.update s.stubs m ((s.stubs m).call a.linker)
    requests := s.requests ++
      [⟨m, (genSessionID (s.stubs m).sessionCur).1, a.body, (s.stubs m).requests⟩]
    asked := Function.update s.asked m (s.asked m ++ [a]) }

/-- `RpcService::OnMessageReceive`. -/
def onMessageReceive (s : RpcService α ρ) (q : Request α) : RpcService α ρ :=
  if q.isCall then { s with pending := s.pending ++ [q], called := s.called ++ [q] }
  else { s with casted := s.casted ++ [(q.sender, q.body)] }

/-- `RpcService::Reply`. -/
def reply (s : RpcService α ρ) (q : Request α) (body : ρ) : RpcService α ρ :=
  let r := ⟨q.sender, q.session, body, q.number⟩
  { s with replies := s.replies ++ [r], replied := s.replied ++ [r] }

/-- `(*it).second.fun(msgin)`. -/
def callback (s : RpcService α ρ) (c : RpcCall) (r : Reply ρ) : RpcService α ρ :=
  { s with
    stubs := Function.update s.stubs r.receiver { s.stubs r.receiver with
      invoked := (s.stubs r.receiver).invoked ++ [(c.request, r.number)] }
    results := Function.update s.results r.receiver
      (s.results r.receiver ++ [(c.request, r.body)]) }

/-- `calls_.erase(it)`. -/
def eraseCall (s : RpcService α ρ) (r : Reply ρ) : RpcService α ρ :=
  { s with
    stubs := Function.update s.stubs r.receiver { s.stubs r.receiver with
      calls := Function.update (s.stubs r.receiver).calls r.session none
      answered := r.number :: (s.stubs r.receiver).answered } }

/-- `RpcStub::OnMessageReceive`.  The callback may make calls, before its entry is erased. -/
def onReply (s : RpcService α ρ) (r : Reply ρ) (nested : List (Asked α)) : RpcService α ρ :=
  let stub := s.stubs r.receiver
  match stub.calls r.session with
  | none =>
      { s with
        stubs := Function.update s.stubs r.receiver
          { stub with answered := r.number :: stub.answered } }
  | some c =>
      let s' := if stub.linked c then run (call r.receiver) (s.callback c r) nested else s
      s'.eraseCall r

inductive Action (α ρ : Type) where
  | call (m : MailboxID) (a : Asked α)
  /-- `RpcStub::Cast`. -/
  | cast (m : MailboxID) (body : α)
  | retain (m : MailboxID) (i : Nat)
  | release (m : MailboxID) (i : Nat)
  /-- The request in this place arrives. -/
  | request (i : Nat)
  /-- The service replies to the call in this place. -/
  | answer (i : Nat) (body : ρ)
  /-- The reply in this place arrives. -/
  | reply (i : Nat) (nested : List (Asked α))
  | loseRequest (i : Nat)
  | loseReply (i : Nat)

def step (s : RpcService α ρ) : Action α ρ → RpcService α ρ
  | .call m a => s.call m a
  | .cast m body => { s with requests := s.requests ++ [⟨m, 0, body, 0⟩] }
  | .retain m i => { s with stubs := Function.update s.stubs m ((s.stubs m).step (.retain i)) }
  | .release m i => { s with stubs := Function.update s.stubs m ((s.stubs m).step (.release i)) }
  | .request i =>
      match s.requests[i]? with
      | none => s
      | some q => { s with requests := s.requests.eraseIdx i }.onMessageReceive q
  | .answer i body =>
      match s.pending[i]? with
      | none => s
      | some q => { s with pending := s.pending.eraseIdx i }.reply q body
  | .reply i nested =>
      match s.replies[i]? with
      | none => s
      | some r => { s with replies := s.replies.eraseIdx i }.onReply r nested
  | .loseRequest i => { s with requests := s.requests.eraseIdx i, lost := true }
  | .loseReply i => { s with replies := s.replies.eraseIdx i, lost := true }

/-- Every call finds its session id unused. -/
def Clear (s : RpcService α ρ) : Action α ρ → Prop
  | .call m _ => (s.stubs m).Fresh
  | .reply i nested => ∀ r, s.replies[i]? = some r →
      (s.stubs r.receiver).Clear (.reply r.number (nested.map Asked.linker))
  | _ => True

/-! ### The messages -/

theorem genSessionID_ne_zero (cur : UInt16) : (genSessionID cur).1 ≠ 0 := by
  rw [genSessionID]
  split
  next h => rw [h]; decide
  next h => exact h

/-- The calls that are on their way to the service. -/
def requestKeys (s : RpcService α ρ) : List CallID :=
  (s.requests.filter Request.isCall).map Request.key

/-- The call is on its way to the service, with the service, or its reply is on its way. -/
def UnderWay (s : RpcService α ρ) (k : CallID) : Prop :=
  k ∈ s.requestKeys ∨ k ∈ s.pending.map Request.key ∨ k ∈ s.replies.map Reply.key

/-- A request is the one that was made. -/
def Right (s : RpcService α ρ) (q : Request α) : Prop :=
  q.session = (s.stubs q.sender).session q.number ∧
    ∃ a, (s.asked q.sender)[q.number]? = some a ∧ a.body = q.body

/-- What is on its way, what is with the service and what is done.  With a call `x`, it is the
    one whose callback is being run. -/
structure Inv (x : Option CallID) (s : RpcService α ρ) : Prop where
  asked : ∀ m, (s.asked m).length = (s.stubs m).requests
  requests : ∀ q ∈ s.requests, q.isCall = true → s.Right q
  called : ∀ q ∈ s.called, s.Right q
  called_once : (s.requestKeys ++ s.called.map Request.key).Nodup
  pending : ∀ q ∈ s.pending, q ∈ s.called
  replied : ∀ r ∈ s.replied, ∃ q ∈ s.called, q.key = r.key ∧ q.session = r.session
  replied_once : (s.pending.map Request.key ++ s.replied.map Reply.key).Nodup
  replies : ∀ r ∈ s.replies, r ∈ s.replied
  replies_once : (s.replies.map Reply.key).Nodup
  answered : ∀ m, ∀ i ∈ (s.stubs m).answered,
    (m, i) ∈ s.replied.map Reply.key ∧ (m, i) ∉ s.replies.map Reply.key
  whole : s.lost = false → ∀ m, ∀ i < (s.stubs m).requests,
    s.UnderWay (m, i) ∨ i ∈ (s.stubs m).answered ∨ x = some (m, i)
  entries : ∀ m k c, (s.stubs m).calls k = some c →
    ∃ a, (s.asked m)[c.request]? = some a ∧ a.linker = c.linker
  invoked : ∀ m, (s.results m).map Prod.fst = (s.stubs m).invoked.map Prod.fst
  results : ∀ m, ∀ e ∈ s.results m, ∃ r ∈ s.replied, r.key = (m, e.1) ∧ r.body = e.2
  ran : ∀ m, ∀ i ∈ (s.stubs m).answered, ∀ a, (s.asked m)[i]? = some a → a.linker = false →
    i ∈ (s.results m).map Prod.fst

variable {s : RpcService α ρ} {x : Option CallID}

theorem perm_of_getElem? {γ : Type} {l : List γ} {i : Nat} {a : γ} (h : l[i]? = some a) :
    l.Perm (a :: l.eraseIdx i) := by
  obtain ⟨hi, rfl⟩ := List.getElem?_eq_some_iff.mp h
  exact (List.getElem_cons_eraseIdx_perm hi).symm

theorem inv_start : Inv none (start : RpcService α ρ) where
  asked := fun _ => rfl
  requests := fun _ h => absurd h List.not_mem_nil
  called := fun _ h => absurd h List.not_mem_nil
  called_once := List.nodup_nil
  pending := fun _ h => absurd h List.not_mem_nil
  replied := fun _ h => absurd h List.not_mem_nil
  replied_once := List.nodup_nil
  replies := fun _ h => absurd h List.not_mem_nil
  replies_once := List.nodup_nil
  answered := fun _ _ h => absurd h List.not_mem_nil
  whole := fun _ _ _ h => absurd h (Nat.not_lt_zero _)
  entries := fun _ _ _ h => absurd h (by simp [start, RpcStub.init])
  invoked := fun _ => rfl
  results := fun _ _ h => absurd h List.not_mem_nil
  ran := fun _ _ h => absurd h List.not_mem_nil

theorem mem_requestKeys {k : CallID} :
    k ∈ s.requestKeys ↔ ∃ q ∈ s.requests, q.isCall = true ∧ q.key = k := by
  simp only [requestKeys, List.mem_map, List.mem_filter, and_assoc]

/-- A call that was made has a number below the number of the calls. -/
theorem Inv.lt (h : Inv x s) {q : Request α} (hq : s.Right q) :
    q.number < (s.stubs q.sender).requests := by
  obtain ⟨-, a, ha, -⟩ := hq
  rw [← h.asked]
  exact (List.getElem?_eq_some_iff.mp ha).1

theorem asked_call (s : RpcService α ρ) (m : MailboxID) (a : Asked α) {m' : MailboxID} {i : Nat}
    {b : Asked α} (hb : (s.asked m')[i]? = some b) : ((s.call m a).asked m')[i]? = some b := by
  by_cases hm : m' = m
  · subst hm
    have happend : (s.call m' a).asked m' = s.asked m' ++ [a] := Function.update_self ..
    rw [happend, List.getElem?_append_left (List.getElem?_eq_some_iff.mp hb).1]
    exact hb
  · have hsame : (s.call m a).asked m' = s.asked m' := Function.update_of_ne hm _ _
    rw [hsame]
    exact hb

theorem stubs_call_of_ne (s : RpcService α ρ) {m m' : MailboxID} (hm : m' ≠ m) (a : Asked α) :
    (s.call m a).stubs m' = s.stubs m' := Function.update_of_ne hm _ _

theorem stubs_call_self (s : RpcService α ρ) (m : MailboxID) (a : Asked α) :
    (s.call m a).stubs m = (s.stubs m).call a.linker := Function.update_self ..

theorem session_call (stub : RpcStub) (linker : Bool) : (stub.call linker).session =
    Function.update stub.session stub.requests (genSessionID stub.sessionCur).1 := rfl

/-- A call leaves the calls before it alone. -/
theorem Inv.right_call (h : Inv x s) (m : MailboxID) (a : Asked α) {q : Request α}
    (hq : s.Right q) : (s.call m a).Right q := by
  have hlt := h.lt hq
  obtain ⟨hsession, b, hb, hbody⟩ := hq
  refine ⟨?_, b, asked_call s m a hb, hbody⟩
  by_cases hm : q.sender = m
  · rw [hm, stubs_call_self]
    rw [hm] at hsession hlt
    rw [session_call, Function.update_of_ne (Nat.ne_of_lt hlt)]
    exact hsession
  · rw [stubs_call_of_ne s hm]
    exact hsession

theorem requestKeys_call (s : RpcService α ρ) (m : MailboxID) (a : Asked α) :
    (s.call m a).requestKeys = s.requestKeys ++ [(m, (s.stubs m).requests)] := by
  have hcall : Request.isCall (⟨m, (genSessionID (s.stubs m).sessionCur).1, a.body,
      (s.stubs m).requests⟩ : Request α) = true := bne_iff_ne.mpr (genSessionID_ne_zero _)
  rw [requestKeys, call, List.filter_append, List.map_append, List.filter_cons_of_pos hcall]
  rfl

theorem Inv.call (h : Inv x s) (m : MailboxID) (a : Asked α) : Inv x (s.call m a) := by
  have hanswered : ∀ m', ((s.call m a).stubs m').answered = (s.stubs m').answered := by
    intro m'
    by_cases hm : m' = m
    · rw [hm, stubs_call_self]
      rfl
    · rw [stubs_call_of_ne s hm]
  -- the new call is not known yet
  have hfresh : ∀ q : Request α, s.Right q → q.key ≠ (m, (s.stubs m).requests) := by
    intro q hq heq
    have hlt := h.lt hq
    rw [show q.sender = m from congrArg Prod.fst heq,
      show q.number = (s.stubs m).requests from congrArg Prod.snd heq] at hlt
    exact Nat.lt_irrefl _ hlt
  have hnew : (m, (s.stubs m).requests) ∉ s.requestKeys ++ s.called.map Request.key := by
    intro hmem
    rcases List.mem_append.mp hmem with hmem | hmem
    · obtain ⟨q, hq, hsession, hkey⟩ := mem_requestKeys.mp hmem
      exact hfresh q (h.requests q hq hsession) hkey
    · obtain ⟨q, hq, hkey⟩ := List.mem_map.mp hmem
      exact hfresh q (h.called q hq) hkey
  constructor
  · intro m'
    by_cases hm : m' = m
    · subst hm
      have happend : (s.call m' a).asked m' = s.asked m' ++ [a] := Function.update_self ..
      rw [happend, stubs_call_self, List.length_append, h.asked]
      rfl
    · have hsame : (s.call m a).asked m' = s.asked m' := Function.update_of_ne hm _ _
      rw [hsame, stubs_call_of_ne s hm]
      exact h.asked m'
  · intro q hq hsession
    rcases List.mem_append.mp hq with hq | hq
    · exact h.right_call m a (h.requests q hq hsession)
    · rw [List.mem_singleton.mp hq]
      refine ⟨?_, a, ?_, rfl⟩
      · rw [stubs_call_self, session_call, Function.update_self]
      · have happend : (s.call m a).asked m = s.asked m ++ [a] := Function.update_self ..
        show ((s.call m a).asked m)[(s.stubs m).requests]? = some a
        rw [happend, ← h.asked]
        exact List.getElem?_concat_length
  · exact fun q hq => h.right_call m a (h.called q hq)
  · rw [requestKeys_call, List.append_assoc]
    refine (List.perm_append_comm_assoc _ _ _).nodup_iff.mpr ?_
    exact List.nodup_cons.mpr ⟨hnew, h.called_once⟩
  · exact h.pending
  · exact h.replied
  · exact h.replied_once
  · exact h.replies
  · exact h.replies_once
  · intro m' i hi
    rw [hanswered] at hi
    exact h.answered m' i hi
  · intro hlost m' i hi
    rw [hanswered, UnderWay, requestKeys_call]
    have hold : s.UnderWay (m', i) → (m', i) ∈ s.requestKeys ++ [(m, (s.stubs m).requests)] ∨
        (m', i) ∈ s.pending.map Request.key ∨ (m', i) ∈ s.replies.map Reply.key :=
      Or.imp_left (List.mem_append_left _)
    by_cases hm : m' = m
    · subst hm
      rw [stubs_call_self] at hi
      rcases Nat.lt_succ_iff_lt_or_eq.mp hi with hi | rfl
      · exact (h.whole hlost m' i hi).imp_left hold
      · exact Or.inl (Or.inl (List.mem_append_right _ (List.mem_singleton_self _)))
    · rw [stubs_call_of_ne s hm] at hi
      exact (h.whole hlost m' i hi).imp_left hold
  · intro m' k c hc
    by_cases hm : m' = m
    · subst hm
      rw [stubs_call_self] at hc
      simp only [RpcStub.call, RpcStub.insert] at hc
      split at hc
      · by_cases hk : k = (genSessionID (s.stubs m').sessionCur).1
        · rw [hk, Function.update_self, Option.some.injEq] at hc
          subst hc
          have happend : (s.call m' a).asked m' = s.asked m' ++ [a] := Function.update_self ..
          refine ⟨a, ?_, rfl⟩
          rw [happend, ← h.asked]
          exact List.getElem?_concat_length
        · rw [Function.update_of_ne hk] at hc
          obtain ⟨b, hb, hlinker⟩ := h.entries m' k c hc
          exact ⟨b, asked_call s m' a hb, hlinker⟩
      · obtain ⟨b, hb, hlinker⟩ := h.entries m' k c hc
        exact ⟨b, asked_call s m' a hb, hlinker⟩
    · rw [stubs_call_of_ne s hm] at hc
      obtain ⟨b, hb, hlinker⟩ := h.entries m' k c hc
      exact ⟨b, asked_call s m a hb, hlinker⟩
  · intro m'
    by_cases hm : m' = m
    · rw [hm, stubs_call_self]
      exact h.invoked m
    · rw [stubs_call_of_ne s hm]
      exact h.invoked m'
  · exact h.results
  · intro m' i hi b hb hlinker
    rw [hanswered] at hi
    have hlt : i < (s.asked m').length := by
      obtain ⟨r, hr, hkey⟩ := List.mem_map.mp (h.answered m' i hi).1
      obtain ⟨q, hq, hqr, -⟩ := h.replied r hr
      have hlt := h.lt (h.called q hq)
      have hid : q.key = (m', i) := hqr.trans hkey
      rw [show q.sender = m' from congrArg Prod.fst hid,
        show q.number = i from congrArg Prod.snd hid, ← h.asked] at hlt
      exact hlt
    have hold := asked_call s m a (List.getElem?_eq_getElem hlt)
    rw [hold, Option.some.injEq] at hb
    exact h.ran m' i hi b (by rw [List.getElem?_eq_getElem hlt, hb]) hlinker

/-- A request that arrives is with the service. -/
theorem Inv.request (h : Inv none s) {i : Nat} {q : Request α} (hq : s.requests[i]? = some q) :
    Inv none ({ s with requests := s.requests.eraseIdx i }.onMessageReceive q) := by
  have hperm := perm_of_getElem? hq
  have hmem : q ∈ s.requests := hperm.mem_iff.mpr List.mem_cons_self
  have hrest : ∀ p ∈ s.requests.eraseIdx i, p ∈ s.requests :=
    fun p hp => hperm.mem_iff.mpr (List.mem_cons_of_mem q hp)
  have hkeys := (hperm.filter Request.isCall).map Request.key
  by_cases hcall : q.isCall = true
  · -- the call leaves the network, and `OnCall` is called
    rw [onMessageReceive, if_pos hcall]
    rw [List.filter_cons_of_pos hcall, List.map_cons] at hkeys
    have hkey : q.key ∉ s.called.map Request.key := by
      have hdisjoint := (List.nodup_append'.mp h.called_once).2.2
      exact hdisjoint (hkeys.mem_iff.mpr List.mem_cons_self)
    constructor
    · exact h.asked
    · exact fun p hp => h.requests p (hrest p hp)
    · intro p hp
      rcases List.mem_append.mp hp with hp | hp
      · exact h.called p hp
      · exact List.mem_singleton.mp hp ▸ h.requests q hmem hcall
    · rw [List.map_append, ← List.append_assoc]
      refine List.perm_append_comm.nodup_iff.mpr ?_
      refine ((hkeys.append_right _).nodup_iff.mp h.called_once)
    · intro p hp
      rcases List.mem_append.mp hp with hp | hp
      · exact List.mem_append_left _ (h.pending p hp)
      · exact List.mem_append_right _ hp
    · intro r hr
      obtain ⟨p, hp, hpr⟩ := h.replied r hr
      exact ⟨p, List.mem_append_left _ hp, hpr⟩
    · show ((s.pending ++ [q]).map Request.key ++ s.replied.map Reply.key).Nodup
      rw [List.map_append, List.append_assoc]
      refine (List.perm_append_comm_assoc _ [q.key] _).nodup_iff.mpr ?_
      show (q.key :: (s.pending.map Request.key ++ s.replied.map Reply.key)).Nodup
      refine List.nodup_cons.mpr ⟨fun hold => ?_, h.replied_once⟩
      rcases List.mem_append.mp hold with hold | hold
      · obtain ⟨p, hp, hpq⟩ := List.mem_map.mp hold
        exact hkey (List.mem_map.mpr ⟨p, h.pending p hp, hpq⟩)
      · obtain ⟨r, hr, hrq⟩ := List.mem_map.mp hold
        obtain ⟨p, hp, hpr, -⟩ := h.replied r hr
        exact hkey (List.mem_map.mpr ⟨p, hp, hpr.trans hrq⟩)
    · exact h.replies
    · exact h.replies_once
    · exact h.answered
    · intro hlost m j hj
      refine (h.whole hlost m j hj).imp_left ?_
      rintro (hold | hold | hold)
      · rcases List.mem_cons.mp (hkeys.mem_iff.mp hold) with heq | hold
        · refine Or.inr (Or.inl ?_)
          rw [List.map_append, heq]
          exact List.mem_append_right _ (List.mem_singleton_self _)
        · exact Or.inl hold
      · refine Or.inr (Or.inl ?_)
        rw [List.map_append]
        exact List.mem_append_left _ hold
      · exact Or.inr (Or.inr hold)
    · exact h.entries
    · exact h.invoked
    · exact h.results
    · exact h.ran
  · rw [onMessageReceive, if_neg hcall]
    rw [List.filter_cons_of_neg hcall] at hkeys
    constructor
    · exact h.asked
    · exact fun p hp => h.requests p (hrest p hp)
    · exact h.called
    · exact (hkeys.append_right _).nodup_iff.mp h.called_once
    · exact h.pending
    · exact h.replied
    · exact h.replied_once
    · exact h.replies
    · exact h.replies_once
    · exact h.answered
    · intro hlost m j hj
      exact (h.whole hlost m j hj).imp_left (Or.imp_left hkeys.mem_iff.mp)
    · exact h.entries
    · exact h.invoked
    · exact h.results
    · exact h.ran

/-- A call that is replied to is done for the service. -/
theorem Inv.reply (h : Inv none s) {i : Nat} {q : Request α} (hq : s.pending[i]? = some q)
    (body : ρ) : Inv none ({ s with pending := s.pending.eraseIdx i }.reply q body) := by
  have hperm := perm_of_getElem? hq
  have hmem : q ∈ s.pending := hperm.mem_iff.mpr List.mem_cons_self
  have hkeys := hperm.map Request.key
  have hnew : q.key ∉ s.replied.map Reply.key := by
    have hdisjoint := (List.nodup_append'.mp h.replied_once).2.2
    exact hdisjoint (List.mem_map_of_mem hmem)
  constructor
  · exact h.asked
  · exact h.requests
  · exact h.called
  · exact h.called_once
  · exact fun p hp => h.pending p (hperm.mem_iff.mpr (List.mem_cons_of_mem q hp))
  · intro r hr
    rcases List.mem_append.mp hr with hr | hr
    · exact h.replied r hr
    · rw [List.mem_singleton.mp hr]
      exact ⟨q, h.pending q hmem, rfl, rfl⟩
  · show (_ ++ (s.replied ++ [_]).map Reply.key).Nodup
    rw [List.map_append, ← List.append_assoc]
    refine List.perm_append_comm.nodup_iff.mpr ?_
    exact (hkeys.append_right _).nodup_iff.mp h.replied_once
  · intro r hr
    rcases List.mem_append.mp hr with hr | hr
    · exact List.mem_append_left _ (h.replies r hr)
    · exact List.mem_append_right _ hr
  · show ((s.replies ++ [_]).map Reply.key).Nodup
    rw [List.map_append]
    refine List.perm_append_comm.nodup_iff.mpr ?_
    refine List.nodup_cons.mpr ⟨fun hold => ?_, h.replies_once⟩
    obtain ⟨r, hr, hrq⟩ := List.mem_map.mp hold
    exact hnew (List.mem_map.mpr ⟨r, h.replies r hr, hrq⟩)
  · intro m j hj
    obtain ⟨hdone, hnot⟩ := h.answered m j hj
    show _ ∈ (s.replied ++ [_]).map Reply.key ∧ _ ∉ (s.replies ++ [_]).map Reply.key
    rw [List.map_append, List.map_append]
    refine ⟨List.mem_append_left _ hdone, fun hold => ?_⟩
    rcases List.mem_append.mp hold with hold | hold
    · exact hnot hold
    · have heq : (m, j) = q.key := List.mem_singleton.mp hold
      exact hnew (heq ▸ hdone)
  · intro hlost m j hj
    refine (h.whole hlost m j hj).imp_left ?_
    rintro (hold | hold | hold)
    · exact Or.inl hold
    · rcases List.mem_cons.mp (hkeys.mem_iff.mp hold) with heq | hold
      · refine Or.inr (Or.inr ?_)
        show _ ∈ (s.replies ++ [_]).map Reply.key
        rw [List.map_append, heq]
        exact List.mem_append_right _ (List.mem_singleton_self _)
      · exact Or.inr (Or.inl hold)
    · refine Or.inr (Or.inr ?_)
      show _ ∈ (s.replies ++ [_]).map Reply.key
      rw [List.map_append]
      exact List.mem_append_left _ hold
  · exact h.entries
  · exact h.invoked
  · intro m e he
    obtain ⟨r, hr, hkey⟩ := h.results m e he
    exact ⟨r, List.mem_append_left _ hr, hkey⟩
  · exact h.ran

theorem Inv.loseRequest (h : Inv none s) (i : Nat) :
    Inv none { s with requests := s.requests.eraseIdx i, lost := true } := by
  have hsub := List.eraseIdx_sublist s.requests i
  have hkeys := ((hsub.filter Request.isCall).map Request.key).append_right
    (s.called.map Request.key)
  exact { h with
    requests := fun q hq => h.requests q (hsub.mem hq)
    called_once := hkeys.nodup h.called_once
    whole := fun hlost => Bool.noConfusion hlost }

theorem Inv.loseReply (h : Inv none s) (i : Nat) :
    Inv none { s with replies := s.replies.eraseIdx i, lost := true } := by
  have hsub := List.eraseIdx_sublist s.replies i
  have hkeys := hsub.map Reply.key
  exact { h with
    replies := fun r hr => h.replies r (hsub.mem hr)
    replies_once := hkeys.nodup h.replies_once
    answered := fun m j hj =>
      ⟨(h.answered m j hj).1, fun hr => (h.answered m j hj).2 (hkeys.mem hr)⟩
    whole := fun hlost => Bool.noConfusion hlost }

theorem Inv.cast (h : Inv none s) (m : MailboxID) (body : α) :
    Inv none { s with requests := s.requests ++ [⟨m, 0, body, 0⟩] } := by
  have hkeys : ({ s with requests := s.requests ++ [⟨m, 0, body, 0⟩] } :
      RpcService α ρ).requestKeys = s.requestKeys := by
    have hcast : ¬ Request.isCall (⟨m, 0, body, 0⟩ : Request α) = true := Bool.false_ne_true
    rw [requestKeys, requestKeys, List.filter_append, List.filter_cons_of_neg hcast,
      List.filter_nil, List.append_nil]
  refine { h with requests := ?_, called_once := ?_, whole := ?_ }
  · intro q hq hcall
    rcases List.mem_append.mp hq with hq | hq
    · exact h.requests q hq hcall
    · rw [List.mem_singleton.mp hq] at hcall
      exact Bool.noConfusion hcall
  · rw [hkeys]
    exact h.called_once
  · intro hlost m' j hj
    rw [UnderWay, hkeys]
    exact h.whole hlost m' j hj

/-- A property of all stubs, where one stub has changed. -/
theorem forall_update (P : MailboxID → RpcStub → Prop) {stubs : MailboxID → RpcStub}
    {m : MailboxID} {stub : RpcStub} (hnew : P m stub) (hold : ∀ m', P m' (stubs m')) :
    ∀ m', P m' (Function.update stubs m stub m') := by
  intro m'
  by_cases hm : m' = m
  · subst hm
    rw [Function.update_self]
    exact hnew
  · rw [Function.update_of_ne hm]
    exact hold m'

/-- What was sent does not depend on what else has changed. -/
theorem Right.update {q : Request α} (hq : s.Right q) {s' : RpcService α ρ}
    (hsession : ∀ m, (s'.stubs m).session = (s.stubs m).session) (hasked : s'.asked = s.asked) :
    s'.Right q := by
  refine ⟨?_, ?_⟩
  · rw [hsession]
    exact hq.1
  · rw [hasked]
    exact hq.2

/-- Nothing but references to linkers has changed. -/
theorem Inv.linkers (h : Inv x s) (m : MailboxID) (retained : Nat → Nat) :
    Inv x { s with
      stubs := Function.update s.stubs m { s.stubs m with retained := retained } } := by
  refine { h with
    asked := ?_, requests := ?_, called := ?_, answered := ?_, whole := ?_, entries := ?_,
    invoked := ?_, ran := ?_ }
  · exact forall_update (fun m' stub => (s.asked m').length = stub.requests) (h.asked m) h.asked
  · intro q hq hcall
    refine (h.requests q hq hcall).update ?_ rfl
    exact forall_update (fun m' stub => stub.session = (s.stubs m').session) rfl fun _ => rfl
  · intro q hq
    refine (h.called q hq).update ?_ rfl
    exact forall_update (fun m' stub => stub.session = (s.stubs m').session) rfl fun _ => rfl
  · exact forall_update (fun m' stub => ∀ i ∈ stub.answered,
      (m', i) ∈ s.replied.map Reply.key ∧ (m', i) ∉ s.replies.map Reply.key) (h.answered m)
      h.answered
  · exact fun hlost => forall_update
      (fun m' stub => ∀ i < stub.requests,
        s.UnderWay (m', i) ∨ i ∈ stub.answered ∨ x = some (m', i))
      (h.whole hlost m) (h.whole hlost)
  · exact forall_update (fun m' stub => ∀ k c, stub.calls k = some c →
      ∃ a, (s.asked m')[c.request]? = some a ∧ a.linker = c.linker) (h.entries m) h.entries
  · exact forall_update (fun m' stub =>
      (s.results m').map Prod.fst = stub.invoked.map Prod.fst) (h.invoked m) h.invoked
  · exact forall_update (fun m' stub => ∀ i ∈ stub.answered, ∀ a, (s.asked m')[i]? = some a →
      a.linker = false → i ∈ (s.results m').map Prod.fst) (h.ran m) h.ran

/-! ### A reply arrives -/

/-- The reply leaves the network. -/
theorem Inv.takeReply (h : Inv none s) {i : Nat} {r : Reply ρ} (hr : s.replies[i]? = some r) :
    Inv (some r.key) { s with replies := s.replies.eraseIdx i } ∧
      r ∈ s.replied ∧ r.number ∉ (s.stubs r.receiver).answered ∧
        r.key ∉ (s.replies.eraseIdx i).map Reply.key := by
  have hperm := perm_of_getElem? hr
  have hmem : r ∈ s.replies := hperm.mem_iff.mpr List.mem_cons_self
  have hkeys := hperm.map Reply.key
  have honce := hkeys.nodup_iff.mp h.replies_once
  refine ⟨{ h with replies := ?_, replies_once := ?_, answered := ?_, whole := ?_ },
    h.replies r hmem, fun hold => ?_, (List.nodup_cons.mp honce).1⟩
  · exact fun p hp => h.replies p (hperm.mem_iff.mpr (List.mem_cons_of_mem r hp))
  · exact (List.nodup_cons.mp honce).2
  · intro m j hj
    obtain ⟨hdone, hnot⟩ := h.answered m j hj
    exact ⟨hdone, fun hold => hnot (hkeys.mem_iff.mpr (List.mem_cons_of_mem _ hold))⟩
  · intro hlost m j hj
    rcases h.whole hlost m j hj with (hold | hold | hold) | hold | hold
    · exact Or.inl (Or.inl hold)
    · exact Or.inl (Or.inr (Or.inl hold))
    · rcases List.mem_cons.mp (hkeys.mem_iff.mp hold) with heq | hold
      · exact Or.inr (Or.inr (congrArg some heq.symm))
      · exact Or.inl (Or.inr (Or.inr hold))
    · exact Or.inr (Or.inl hold)
    · exact absurd hold.symm (Option.some_ne_none _)
  · exact (h.answered r.receiver r.number hold).2 (List.mem_map_of_mem hmem)

/-- The callback of the call that a reply belongs to is run. -/
theorem Inv.callback (h : Inv x s) {r : Reply ρ} (hr : r ∈ s.replied) (linker : Bool) :
    Inv x (s.callback ⟨r.number, linker⟩ r) := by
  have hmap : ∀ m', ((Function.update s.results r.receiver
      (s.results r.receiver ++ [(r.number, r.body)])) m').map Prod.fst =
      (s.results m').map Prod.fst ++ if m' = r.receiver then [r.number] else [] := by
    intro m'
    by_cases hm : m' = r.receiver
    · subst hm
      rw [Function.update_self, List.map_append, if_pos rfl]
      rfl
    · rw [Function.update_of_ne hm, if_neg hm, List.append_nil]
  refine { h with
    asked := ?_, requests := ?_, called := ?_, answered := ?_, whole := ?_, entries := ?_,
    invoked := ?_, results := ?_, ran := ?_ }
  · exact forall_update (fun m' stub => (s.asked m').length = stub.requests) (h.asked _) h.asked
  · intro q hq hcall
    refine (h.requests q hq hcall).update ?_ rfl
    exact forall_update (fun m' stub => stub.session = (s.stubs m').session) rfl fun _ => rfl
  · intro q hq
    refine (h.called q hq).update ?_ rfl
    exact forall_update (fun m' stub => stub.session = (s.stubs m').session) rfl fun _ => rfl
  · exact forall_update (fun m' stub => ∀ i ∈ stub.answered,
      (m', i) ∈ s.replied.map Reply.key ∧ (m', i) ∉ s.replies.map Reply.key) (h.answered _)
      h.answered
  · exact fun hlost => forall_update
      (fun m' stub => ∀ i < stub.requests,
        s.UnderWay (m', i) ∨ i ∈ stub.answered ∨ x = some (m', i))
      (h.whole hlost _) (h.whole hlost)
  · exact forall_update (fun m' stub => ∀ k c, stub.calls k = some c →
      ∃ a, (s.asked m')[c.request]? = some a ∧ a.linker = c.linker) (h.entries _) h.entries
  · intro m'
    show (Function.update s.results r.receiver _ m').map Prod.fst = _
    rw [hmap]
    by_cases hm : m' = r.receiver
    · subst hm
      rw [if_pos rfl, h.invoked]
      simp only [RpcService.callback, Function.update_self, List.map_append, List.map_cons,
        List.map_nil]
    · rw [if_neg hm, List.append_nil, h.invoked]
      simp only [RpcService.callback, Function.update_of_ne hm]
  · intro m' e he
    by_cases hm : m' = r.receiver
    · subst hm
      have hmem : e ∈ s.results r.receiver ++ [(r.number, r.body)] := by
        simpa only [RpcService.callback, Function.update_self] using he
      rcases List.mem_append.mp hmem with hold | hnew
      · exact h.results _ e hold
      · rw [List.mem_singleton.mp hnew]
        exact ⟨r, hr, rfl, rfl⟩
    · exact h.results m' e (by simpa only [RpcService.callback, Function.update_of_ne hm] using he)
  · show ∀ m' i, i ∈ (Function.update s.stubs r.receiver _ m').answered → _
    refine forall_update (fun m' stub => ∀ i ∈ stub.answered, ∀ a, (s.asked m')[i]? = some a →
      a.linker = false → i ∈ ((Function.update s.results r.receiver
        (s.results r.receiver ++ [(r.number, r.body)])) m').map Prod.fst) ?_ ?_
    · intro i hi a ha hlinker
      rw [hmap]
      exact List.mem_append_left _ (h.ran _ i hi a ha hlinker)
    · intro m' i hi a ha hlinker
      rw [hmap]
      exact List.mem_append_left _ (h.ran m' i hi a ha hlinker)

/-- The reply is dealt with. -/
theorem Inv.eraseCall {r : Reply ρ} (h : Inv (some r.key) s) (hr : r ∈ s.replied)
    (hgone : r.key ∉ s.replies.map Reply.key)
    (hran : ∀ a, (s.asked r.receiver)[r.number]? = some a → a.linker = false →
      r.number ∈ (s.results r.receiver).map Prod.fst) : Inv none (s.eraseCall r) := by
  refine { h with
    asked := ?_, requests := ?_, called := ?_, answered := ?_, whole := ?_, entries := ?_,
    invoked := ?_, ran := ?_ }
  · exact forall_update (fun m' stub => (s.asked m').length = stub.requests) (h.asked _) h.asked
  · intro q hq hcall
    refine (h.requests q hq hcall).update ?_ rfl
    exact forall_update (fun m' stub => stub.session = (s.stubs m').session) rfl fun _ => rfl
  · intro q hq
    refine (h.called q hq).update ?_ rfl
    exact forall_update (fun m' stub => stub.session = (s.stubs m').session) rfl fun _ => rfl
  · refine forall_update (fun m' stub => ∀ i ∈ stub.answered,
      (m', i) ∈ s.replied.map Reply.key ∧ (m', i) ∉ s.replies.map Reply.key) ?_ h.answered
    intro i hi
    rcases List.mem_cons.mp hi with rfl | hi
    · exact ⟨List.mem_map_of_mem hr, hgone⟩
    · exact h.answered _ i hi
  · intro hlost m' i hi
    by_cases hm : m' = r.receiver
    · subst hm
      simp only [RpcService.eraseCall, Function.update_self] at hi ⊢
      rcases h.whole hlost _ i hi with hold | hold | hold
      · exact Or.inl hold
      · exact Or.inr (Or.inl (List.mem_cons_of_mem _ hold))
      · have hnumber : r.number = i := congrArg Prod.snd (Option.some.inj hold)
        exact Or.inr (Or.inl (hnumber ▸ List.mem_cons_self))
    · simp only [RpcService.eraseCall, Function.update_of_ne hm] at hi ⊢
      rcases h.whole hlost m' i hi with hold | hold | hold
      · exact Or.inl hold
      · exact Or.inr (Or.inl hold)
      · exact absurd (congrArg Prod.fst (Option.some.inj hold)).symm hm
  · refine forall_update (fun m' stub => ∀ k c, stub.calls k = some c →
      ∃ a, (s.asked m')[c.request]? = some a ∧ a.linker = c.linker) ?_ h.entries
    intro k' c hc
    by_cases hk : k' = r.session
    · subst hk
      simp only [Function.update_self] at hc
      cases hc
    · simp only [Function.update_of_ne hk] at hc
      exact h.entries _ k' c hc
  · exact forall_update (fun m' stub =>
      (s.results m').map Prod.fst = stub.invoked.map Prod.fst) (h.invoked _) h.invoked
  · refine forall_update (fun m' stub => ∀ i ∈ stub.answered, ∀ a, (s.asked m')[i]? = some a →
      a.linker = false → i ∈ (s.results m').map Prod.fst) ?_ h.ran
    intro i hi a ha hlinker
    rcases List.mem_cons.mp hi with rfl | hi
    · exact hran a ha hlinker
    · exact h.ran _ i hi a ha hlinker

/-- What the calls of a callback leave alone. -/
theorem run_call_same (m : MailboxID) (nested : List (Asked α)) (s : RpcService α ρ) :
    (run (call m) s nested).replies = s.replies ∧ (run (call m) s nested).replied = s.replied ∧
      (run (call m) s nested).results = s.results ∧
        (run (call m) s nested).called = s.called := by
  induction nested generalizing s with
  | nil => exact ⟨rfl, rfl, rfl, rfl⟩
  | cons a nested ih => exact ih (s.call m a)

theorem stubs_run_call (m : MailboxID) (nested : List (Asked α)) (s : RpcService α ρ) :
    (run (call m) s nested).stubs =
      Function.update s.stubs m (run RpcStub.call (s.stubs m) (nested.map Asked.linker)) := by
  induction nested generalizing s with
  | nil => exact (Function.update_eq_self m s.stubs).symm
  | cons a nested ih =>
      rw [run_cons, ih, stubs_call_self, List.map_cons, run_cons]
      exact Function.update_idem ..

/-- A reply carries the session id that its call went out with. -/
theorem Inv.session (h : Inv x s) {r : Reply ρ} (hr : r ∈ s.replied) :
    r.session = (s.stubs r.receiver).session r.number ∧
      r.number < (s.stubs r.receiver).requests := by
  obtain ⟨q, hq, hkey, hsession⟩ := h.replied r hr
  have hright := h.called q hq
  have hlt := h.lt hright
  have hsid := hright.1
  rw [show q.sender = r.receiver from congrArg Prod.fst hkey,
    show q.number = r.number from congrArg Prod.snd hkey] at hsid hlt
  exact ⟨hsession.symm.trans hsid, hlt⟩

/-- A stub does with a reply what it does with the reply to that call. -/
theorem stubs_onReply (s : RpcService α ρ) {r : Reply ρ}
    (hsession : r.session = (s.stubs r.receiver).session r.number) (nested : List (Asked α)) :
    (s.onReply r nested).stubs = Function.update s.stubs r.receiver
      ((s.stubs r.receiver).onMessageReceive r.number (nested.map Asked.linker)) := by
  rw [onReply, RpcStub.onMessageReceive, ← hsession]
  cases (s.stubs r.receiver).calls r.session with
  | none => rfl
  | some c =>
      cases hlinked : (s.stubs r.receiver).linked c with
      | false => simp only [hlinked, Bool.false_eq_true, if_false, eraseCall]
      | true =>
          simp only [hlinked, if_true, eraseCall, stubs_run_call, callback, Function.update_self,
            Function.update_idem]

/-- **A reply runs the callback of its own call.** -/
theorem Inv.onReply (h : Inv none s) (hstubs : ∀ m, (s.stubs m).Inv) {i : Nat} {r : Reply ρ}
    (hr : s.replies[i]? = some r) (nested : List (Asked α)) :
    Inv none ({ s with replies := s.replies.eraseIdx i }.onReply r nested) := by
  obtain ⟨htaken, hdone, hopen, hgone⟩ := h.takeReply hr
  obtain ⟨hsession, hlt⟩ := h.session hdone
  obtain ⟨linker, hentry⟩ := (hstubs r.receiver).isOpen.present r.number hlt hopen
  rw [← hsession] at hentry
  generalize hs1 : ({ s with replies := s.replies.eraseIdx i } : RpcService α ρ) = s1 at *
  have hstubs1 : s1.stubs = s.stubs := by rw [← hs1]
  have hdone1 : r ∈ s1.replied := by rw [← hs1]; exact hdone
  have hgone1 : r.key ∉ s1.replies.map Reply.key := by rw [← hs1]; exact hgone
  rw [← hstubs1] at hentry
  rcases hlinked : (s1.stubs r.receiver).linked ⟨r.number, linker⟩ with _ | _
  · have heq : s1.onReply r nested = s1.eraseCall r := by
      simp only [RpcService.onReply, hentry, hlinked, Bool.false_eq_true, if_false]
    rw [heq]
    -- the callback of a call without a linker is always run
    refine htaken.eraseCall hdone1 hgone1 fun a ha hlinker => ?_
    obtain ⟨b, hb, hsame⟩ := htaken.entries _ _ _ hentry
    have hab : some a = some b := ha.symm.trans hb
    cases hab
    rw [show linker = false from hsame.symm.trans hlinker] at hlinked
    exact absurd hlinked.symm Bool.false_ne_true
  · have heq : s1.onReply r nested = (run (RpcService.call r.receiver)
        (s1.callback ⟨r.number, linker⟩ r) nested).eraseCall r := by
      simp only [RpcService.onReply, hentry, hlinked, if_true]
    have hcalled : Inv (some r.key)
        (run (RpcService.call r.receiver) (s1.callback ⟨r.number, linker⟩ r) nested) :=
      run_keeps (fun _ a hs => hs.call r.receiver a) (htaken.callback hdone1 linker) nested
    obtain ⟨hreplies, hreplied, hresults, -⟩ :=
      run_call_same r.receiver nested (s1.callback ⟨r.number, linker⟩ r)
    rw [heq]
    refine hcalled.eraseCall ?_ ?_ ?_
    · rw [hreplied]
      exact hdone1
    · rw [hreplies]
      exact hgone1
    · intro a _ _
      have hmine : (s1.callback ⟨r.number, linker⟩ r).results r.receiver =
          s1.results r.receiver ++ [(r.number, r.body)] := Function.update_self ..
      rw [hresults, hmine, List.map_append]
      exact List.mem_append_right _ (List.mem_singleton_self _)

/-! ### Steps and runs -/

structure Good (s : RpcService α ρ) : Prop where
  messages : Inv none s
  stubs : ∀ m, (s.stubs m).Inv

theorem Good.step (h : Good s) {a : Action α ρ} (hclear : s.Clear a) : Good (s.step a) := by
  cases a with
  | call m a =>
      have hstub : ((s.stubs m).call a.linker).Inv := (h.stubs m).step (a := .call a.linker) hclear
      exact ⟨h.messages.call m a, forall_update (fun _ stub => stub.Inv) hstub h.stubs⟩
  | cast m body => exact ⟨h.messages.cast m body, h.stubs⟩
  | retain m i =>
      have hstub := (h.stubs m).step (a := .retain i) trivial
      exact ⟨h.messages.linkers m _, forall_update (fun _ stub => stub.Inv) hstub h.stubs⟩
  | release m i =>
      have hstub := (h.stubs m).step (a := .release i) trivial
      exact ⟨h.messages.linkers m _, forall_update (fun _ stub => stub.Inv) hstub h.stubs⟩
  | request i =>
      cases hq : s.requests[i]? with
      | none => simpa only [RpcService.step, hq] using h
      | some q =>
          simp only [RpcService.step, hq]
          refine ⟨h.messages.request hq, ?_⟩
          rw [onMessageReceive]
          split <;> exact h.stubs
  | answer i body =>
      cases hq : s.pending[i]? with
      | none => simpa only [RpcService.step, hq] using h
      | some q =>
          simp only [RpcService.step, hq]
          exact ⟨h.messages.reply hq body, h.stubs⟩
  | reply i nested =>
      cases hr : s.replies[i]? with
      | none => simpa only [RpcService.step, hr] using h
      | some r =>
          obtain ⟨-, hdone, hopen, -⟩ := h.messages.takeReply hr
          obtain ⟨hsession, hlt⟩ := h.messages.session hdone
          have hstub := (h.stubs r.receiver).onMessageReceive hlt hopen (hclear r hr)
          simp only [RpcService.step, hr]
          refine ⟨h.messages.onReply h.stubs hr nested, ?_⟩
          rw [stubs_onReply { s with replies := s.replies.eraseIdx i } hsession nested]
          exact forall_update (fun _ stub => stub.Inv) hstub h.stubs
  | loseRequest i => exact ⟨h.messages.loseRequest i, h.stubs⟩
  | loseReply i => exact ⟨h.messages.loseReply i, h.stubs⟩

theorem run_good (as : List (Action α ρ)) (h : Along step Clear start as) :
    Good (run step start as) :=
  run_invariant (I := Good) (fun _ _ hs ha => hs.step ha) ⟨inv_start, fun _ => RpcStub.inv_init⟩ h

/-- What a stub may rely on. -/
structure Replied (s : RpcService α ρ) : Prop where
  /-- No callback is run twice. -/
  once : ∀ m, ((s.results m).map Prod.fst).Nodup
  /-- A callback is given what the service has replied to the request of its own call. -/
  own : ∀ m, ∀ e ∈ s.results m, ∃ a, (s.asked m)[e.1]? = some a ∧
    (∃ q ∈ s.called, q.key = (m, e.1) ∧ q.body = a.body) ∧
      ∃ r ∈ s.replied, r.key = (m, e.1) ∧ r.body = e.2
  /-- `OnCall` is not called twice for a call. -/
  called_once : (s.called.map Request.key).Nodup
  /-- There is no second reply to a call. -/
  replied_once : (s.replied.map Reply.key).Nodup

theorem Good.replied (h : Good s) : Replied s where
  once := fun m => by
    rw [h.messages.invoked]
    exact (h.stubs m).once
  own := fun m e he => by
    obtain ⟨r, hr, hkey, hbody⟩ := h.messages.results m e he
    obtain ⟨q, hq, hqr, -⟩ := h.messages.replied r hr
    have hid : q.key = (m, e.1) := hqr.trans hkey
    obtain ⟨-, a, ha, hasked⟩ := h.messages.called q hq
    rw [show q.sender = m from congrArg Prod.fst hid,
      show q.number = e.1 from congrArg Prod.snd hid] at ha
    exact ⟨a, ha, ⟨q, hq, hid, hasked.symm⟩, r, hr, hkey, hbody⟩
  called_once := (List.nodup_append'.mp h.messages.called_once).2.1
  replied_once := (List.nodup_append'.mp h.messages.replied_once).2.1

/-- **A callback is given the reply to its own call**, once, however the messages travel. -/
theorem run_replied (as : List (Action α ρ)) (h : Along step Clear start as) :
    Replied (run step start as) := (run_good as h).replied

/-! ### What the service computes -/

/-- What the service replies is related by `F` to what it is asked. -/
def Serves (F : α → ρ → Prop) (s : RpcService α ρ) : Action α ρ → Prop
  | .answer i body => ∀ q, s.pending[i]? = some q → F q.body body
  | _ => True

def Computed (F : α → ρ → Prop) (s : RpcService α ρ) : Prop :=
  ∀ r ∈ s.replied, ∃ q ∈ s.called, q.key = r.key ∧ F q.body r.body

/-- The messages that the service has got and sent stay the same when a reply arrives. -/
theorem onReply_same (s : RpcService α ρ) (r : Reply ρ) (nested : List (Asked α)) :
    (s.onReply r nested).replied = s.replied ∧ (s.onReply r nested).called = s.called := by
  rw [onReply]
  split
  · exact ⟨rfl, rfl⟩
  next c _ =>
    dsimp only
    split
    · obtain ⟨-, hreplied, -, hcalled⟩ := run_call_same r.receiver nested (s.callback c r)
      exact ⟨hreplied, hcalled⟩
    · exact ⟨rfl, rfl⟩

theorem Computed.step {F : α → ρ → Prop} (h : Computed F s) (hinv : Inv none s)
    {a : Action α ρ} (ha : s.Serves F a) : Computed F (s.step a) := by
  cases a with
  | request i =>
      cases hq : s.requests[i]? with
      | none => simpa only [RpcService.step, hq] using h
      | some q =>
          simp only [RpcService.step, hq, onMessageReceive]
          split
          · intro r hr
            obtain ⟨p, hp, hkey⟩ := h r hr
            exact ⟨p, List.mem_append_left _ hp, hkey⟩
          · exact h
  | answer i body =>
      cases hq : s.pending[i]? with
      | none => simpa only [RpcService.step, hq] using h
      | some q =>
          simp only [RpcService.step, hq]
          intro r hr
          rcases List.mem_append.mp hr with hr | hr
          · exact h r hr
          · rw [List.mem_singleton.mp hr]
            exact ⟨q, hinv.pending q (List.mem_of_getElem? hq), rfl, ha q hq⟩
  | reply i nested =>
      cases hr : s.replies[i]? with
      | none => simpa only [RpcService.step, hr] using h
      | some r =>
          obtain ⟨hreplied, hcalled⟩ :=
            onReply_same { s with replies := s.replies.eraseIdx i } r nested
          simp only [RpcService.step, hr]
          rw [Computed, hreplied, hcalled]
          exact h
  | call m a => exact h
  | cast m body => exact h
  | retain m i => exact h
  | release m i => exact h
  | loseRequest i => exact h
  | loseReply i => exact h

/-- **A remote call computes what the service computes**, of what the call asked. -/
theorem run_computed (F : α → ρ → Prop) (as : List (Action α ρ))
    (h : Along step Clear start as) (hserves : Along step (Serves F) start as) {m : MailboxID}
    {e : Nat × ρ} (he : e ∈ (run step start as).results m) :
    ∃ a, ((run step start as).asked m)[e.1]? = some a ∧ F a.body e.2 := by
  have hboth := run_invariant (I := fun s : RpcService α ρ => Good s ∧ Computed F s)
    (fun s a hs ha => ⟨hs.1.step ha.1, hs.2.step hs.1.messages ha.2⟩)
    ⟨⟨inv_start, fun _ => RpcStub.inv_init⟩, fun _ hr => absurd hr List.not_mem_nil⟩
    (along_and.mpr ⟨h, hserves⟩)
  obtain ⟨hgood, hcomputed⟩ := hboth
  obtain ⟨a, ha, ⟨q, hq, hid, hasked⟩, r, hr, hkey, hbody⟩ := hgood.replied.own m e he
  obtain ⟨p, hp, hpr, hF⟩ := hcomputed r hr
  -- there is one request with this number
  have hsame : p = q := List.inj_on_of_nodup_map hgood.replied.called_once hp hq
    ((hpr.trans hkey).trans hid.symm)
  rw [hsame, hasked, hbody] at hF
  exact ⟨a, ha, hF⟩

/-! ### When nothing is on its way -/

/-- No message is on its way or has been lost, and the service has replied to all calls. -/
structure Quiet (s : RpcService α ρ) : Prop where
  lost : s.lost = false
  requests : s.requests = []
  pending : s.pending = []
  replies : s.replies = []

/-- **No call without a linker is forgotten.** -/
theorem run_complete (as : List (Action α ρ)) (h : Along step Clear start as)
    (hquiet : Quiet (run step start as)) {m : MailboxID} {i : Nat} {a : Asked α}
    (ha : ((run step start as).asked m)[i]? = some a) (hlinker : a.linker = false) :
    i ∈ ((run step start as).results m).map Prod.fst := by
  have hgood := (run_good as h).messages
  generalize run step start as = s at *
  have hlt : i < (s.stubs m).requests := by
    rw [← hgood.asked]
    exact (List.getElem?_eq_some_iff.mp ha).1
  rcases hgood.whole hquiet.lost m i hlt with (hold | hold | hold) | hold | hold
  · obtain ⟨q, hq, -⟩ := mem_requestKeys.mp hold
    rw [hquiet.requests] at hq
    exact absurd hq List.not_mem_nil
  · rw [hquiet.pending] at hold
    exact absurd hold List.not_mem_nil
  · rw [hquiet.replies] at hold
    exact absurd hold List.not_mem_nil
  · exact hgood.ran m i hold a ha hlinker
  · exact absurd hold.symm (Option.some_ne_none _)

/-- Two calls and a third one from a callback; the second request overtakes the first. -/
def overtaken : List (Action Nat Nat) :=
  [.call ⟨1, 1⟩ ⟨10, false⟩, .call ⟨1, 1⟩ ⟨20, false⟩, .request 1, .answer 0 21, .request 0,
    .reply 0 [⟨30, false⟩], .answer 0 11, .reply 0 [], .request 0, .answer 0 31, .reply 0 []]

theorem along_overtaken : Along step Clear start overtaken := by
  refine ⟨rfl, rfl, trivial, trivial, trivial, ?_, trivial, ?_, trivial, trivial, ?_, trivial⟩
  · exact fun r hr _ _ c _ _ => by cases hr; exact ⟨rfl, trivial⟩
  · exact fun r hr _ _ c _ _ => trivial
  · exact fun r hr _ _ c _ _ => trivial

theorem run_replied_overtaken : Replied (run step start overtaken) :=
  run_replied overtaken along_overtaken

theorem run_complete_overtaken :
    2 ∈ ((run step start overtaken).results ⟨1, 1⟩).map Prod.fst :=
  run_complete overtaken along_overtaken ⟨rfl, rfl, rfl, rfl⟩ (a := ⟨30, false⟩) rfl rfl

end RpcService

end Jengine.Cluster
