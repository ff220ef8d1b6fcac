import Jengine.Cluster.ProcessName
import Jengine.Lib.Iterators
import Jengine.Lib.Runs
import Jengine.Lib.Tables
import Mathlib.Logic.Function.Basic

/-!
# Mailboxes that are waited for

`NodeMonitor::FetchNamedMailbox` and `FetchNamedMailboxWithLinker`
(`base/cluster/nodemonitor.cpp`) call back with the id of a mailbox whose name matches: at
once if there is one, else when one comes up.  Until then the callback is in `async_fetch_`.
`CheckAsyncFetchList` walks over that list whenever a name comes up, and deletes an entry
after its callback has returned.

A callback may fetch again, and create and destroy mailboxes, so that a walk may begin while
another one is inside a callback.  `contexts` are the calls that are going on, the innermost
first; code outside acts when none is, or inside a callback.  The name and the id of a walk
are those of a mailbox whose `Create` has not returned, or of a message, and stay what they
are.

Fetches are numbered, and a linker has the number of its fetch; whoever wants the linker
retains it when it is returned, and afterwards it is retained and released by those who hold
it.  The loop of `FetchNamedMailbox` goes over a hash map, and may come first to any name that
matches.
-/

namespace Jengine.Cluster

open Jengine.Lib

/-- `AsyncFetchNamedMailbox`; the number stands for the callback. -/
structure Fetch where
  id : Nat
  matcher : Name
  linked : Bool
deriving DecidableEq, Repr

/-- A callback that has been called: the name it was called for, the id it was given, and the id
    that `named_mailboxes_` had under the name then. -/
structure Fetch.Call where
  fetch : Nat
  matcher : Name
  name : Name
  mbid : MailboxID
  registered : Option MailboxID
deriving DecidableEq, Repr

/-- What is going on. -/
inductive Fetch.Context where
  /-- A callback called by `FetchNamedMailbox`. -/
  | direct
  /-- `CheckAsyncFetchList`, with its iterator. -/
  | walking (name : Name) (mbid : MailboxID) (it : Option Nat)
  /-- A callback called by `CheckAsyncFetchList`. -/
  | calling (name : Name) (mbid : MailboxID) (e : Fetch)
deriving DecidableEq

namespace Fetch.Context

/-- The name that has come up, with its id. -/
def announces : Context → Option (Name × MailboxID)
  | .direct => none
  | .walking name mbid _ => some (name, mbid)
  | .calling name mbid _ => some (name, mbid)

/-- The iterator; while a callback runs, it stays at its entry. -/
def iterator : Context → Option Nat
  | .direct => none
  | .walking _ _ it => it
  | .calling _ _ e => some e.id

/-- The entry whose callback is running. -/
def executes : Context → Option Nat
  | .calling _ _ e => some e.id
  | _ => none

end Fetch.Context

/-- What a node monitor has of named mailboxes and of those who wait for them. -/
structure Fetches where
  named : Table Name MailboxID
  asyncFetch : List Fetch
  /-- `reference_count()` of the linkers. -/
  linkers : Nat → Nat
  /-- The number of the next fetch. -/
  next : Nat
  contexts : List Fetch.Context
  /-- The fetches that have been put into `async_fetch_`. -/
  pushed : List Nat
  calls : List Fetch.Call
  /-- The entries that have been deleted. -/
  deleted : List Nat

namespace Fetches

open Fetch

def init : Fetches := ⟨∅, [], fun _ => 0, 0, [], [], [], []⟩

/-! ### Fetching -/

/-- `async_fetch_.push_back(new AsyncFetchNamedMailbox(..))`, with the references that those take
    to whom the linker is returned. -/
def push (s : Fetches) (matcher : Name) (linked : Bool) (keep : Nat) : Fetches :=
  { s with asyncFetch := s.asyncFetch ++ [⟨s.next, matcher, linked⟩]
           linkers := if linked then Function.update s.linkers s.next (1 + keep) else s.linkers
           next := s.next + 1
           pushed := s.pushed ++ [s.next] }

/-- `cb(it->second)`. -/
def direct (s : Fetches) (matcher name : Name) (mbid : MailboxID) : Fetches :=
  { s with next := s.next + 1
           contexts := .direct :: s.contexts
           calls := s.calls ++ [⟨s.next, matcher, name, mbid, s.named.lookup name⟩] }

/-- The two fetches: `pick` is the name that the loop comes to first, of those that match. -/
def fetch (s : Fetches) (matcher : Name) (linked : Bool) (keep : Nat) (pick : Name) : Fetches :=
  if s.named.keys.any fun name => isProcessNameMatch matcher name then
    match s.named.lookup pick with
    | none => s
    | some mbid => if isProcessNameMatch matcher pick then s.direct matcher pick mbid else s
  else s.push matcher linked keep

def fetchNamedMailbox (s : Fetches) (matcher pick : Name) : Fetches := s.fetch matcher false 0 pick

def fetchNamedMailboxWithLinker (s : Fetches) (matcher : Name) (keep : Nat) (pick : Name) :
    Fetches :=
  s.fetch matcher true keep pick

/-! ### Names that come up and go down -/

/-- The call of `CheckAsyncFetchList`. -/
def checkAsyncFetchList (s : Fetches) (name : Name) (mbid : MailboxID) : Fetches :=
  { s with contexts := .walking name mbid (start Fetch.id s.asyncFetch) :: s.contexts }

/-- `OnNamedMailboxUp`. -/
def onNamedMailboxUp (s : Fetches) (name : Name) (mbid : MailboxID) : Fetches :=
  checkAsyncFetchList { s with named := Table.emplace s.named name mbid } name mbid

/-- `UnRegister`. -/
def unRegister (s : Fetches) (name : Name) : Fetches :=
  if name = [] then s else { s with named := s.named.erase name }

/-- `Mailbox::Create`: a mailbox that cannot be registered is destroyed. -/
def create (s : Fetches) (name : Name) (mbid : MailboxID) : Fetches :=
  if name = [] then s
  else if (s.named.lookup name).isSome then s.unRegister name
  else s.onNamedMailboxUp name mbid

/-- `OnNodeDown`. -/
def onNodeDown (s : Fetches) (nodeid : UInt8) : Fetches :=
  { s with named := Table.keep s.named fun mbid => mbid.nodeid != nodeid }

/-! ### The walk -/

/-- The reference that an entry holds to its linker. -/
def owned (s : Fetches) (l : Nat) : Nat := if ∃ e ∈ s.asyncFetch, e.id = l then 1 else 0

def retain (s : Fetches) (l : Nat) : Fetches :=
  if s.owned l < s.linkers l then
    { s with linkers := Function.update s.linkers l (s.linkers l + 1) }
  else s

def release (s : Fetches) (l : Nat) : Fetches :=
  if s.owned l < s.linkers l then
    { s with linkers := Function.update s.linkers l (s.linkers l - 1) }
  else s

/-- `delete *it`. -/
def delete (s : Fetches) (e : Fetch) : Fetches :=
  { s with deleted := s.deleted ++ [e.id]
           linkers := if e.linked then Function.update s.linkers e.id (s.linkers e.id - 1)
             else s.linkers }

/-- `delete *it; it = async_fetch_.erase(it);` -/
def drop (s : Fetches) (name : Name) (mbid : MailboxID) (e : Fetch) (rest : List Context) :
    Fetches :=
  { s.delete e with
    asyncFetch := without Fetch.id s.asyncFetch e.id
    contexts := .walking name mbid (following Fetch.id s.asyncFetch e.id) :: rest }

/-- There is no linker, or somebody else holds it too. -/
def live (s : Fetches) (e : Fetch) : Bool := !e.linked || s.linkers e.id == 2

/-- One round of `CheckAsyncFetchList`, or its end. -/
def walk (s : Fetches) (name : Name) (mbid : MailboxID) (it : Option Nat) (rest : List Context) :
    Fetches :=
  match it.bind fun i => s.asyncFetch.find? fun e => e.id == i with
  | none => { s with contexts := rest }
  | some e =>
      if s.live e = false then s.drop name mbid e rest
      else if isProcessNameMatch e.matcher name then
        { s with calls := s.calls ++ [⟨e.id, e.matcher, name, mbid, s.named.lookup name⟩]
                 contexts := .calling name mbid e :: rest }
      else
        { s with contexts := .walking name mbid (following Fetch.id s.asyncFetch e.id) :: rest }

/-- `~NodeMonitor`. -/
def destroy (s : Fetches) : Fetches :=
  { s.asyncFetch.foldl delete s with asyncFetch := [] }

/-! ### The machine -/

inductive Action where
  | fetch (matcher pick : Name)
  | fetchWithLinker (matcher : Name) (keep : Nat) (pick : Name)
  | retain (linker : Nat)
  | release (linker : Nat)
  /-- `Mailbox::Create`, with the id that is generated. -/
  | create (name : Name) (mbid : MailboxID)
  /-- `~Mailbox`. -/
  | unRegister (name : Name)
  /-- A named mailbox of another node. -/
  | up (name : Name) (mbid : MailboxID)
  | down (name : Name)
  | nodeDown (nodeid : UInt8)
  | destroy
  /-- The innermost walk goes on. -/
  | walk
  /-- The innermost callback returns. -/
  | returned

/-- Code outside runs: nothing is going on, or a callback is. -/
def outside (s : Fetches) : Bool :=
  match s.contexts with
  | .walking _ _ _ :: _ => false
  | _ => true

/-- One step.  The event loop runs only when nothing is going on. -/
def step (s : Fetches) : Action → Fetches
  | .fetch matcher pick => if s.outside then s.fetchNamedMailbox matcher pick else s
  | .fetchWithLinker matcher keep pick =>
      if s.outside then s.fetchNamedMailboxWithLinker matcher keep pick else s
  | .retain l => if s.outside then s.retain l else s
  | .release l => if s.outside then s.release l else s
  | .create name mbid => if s.outside then s.create name mbid else s
  | .unRegister name => if s.outside then s.unRegister name else s
  | .up name mbid => if s.contexts = [] then s.onNamedMailboxUp name mbid else s
  | .down name => if s.contexts = [] then { s with named := s.named.erase name } else s
  | .nodeDown nodeid => if s.contexts = [] then s.onNodeDown nodeid else s
  | .destroy => if s.contexts = [] then s.destroy else s
  | .walk =>
      match s.contexts with
      | .walking name mbid it :: rest => s.walk name mbid it rest
      | _ => s
  | .returned =>
      match s.contexts with
      | .calling name mbid e :: rest => s.drop name mbid e rest
      | .direct :: rest => { s with contexts := rest }
      | _ => s

/-! ### What is right -/

/-- What the fetches are to do: nobody waits for a name that is there, a callback is called once,
    with what is registered under a name that matches, and an entry is deleted once. -/
structure Right (s : Fetches) : Prop where
  waiting : s.contexts = [] → ∀ e ∈ s.asyncFetch, s.live e = true → ∀ name ∈ s.named,
    isProcessNameMatch e.matcher name = false
  once : (s.calls.map Call.fetch).Nodup
  registered : ∀ c ∈ s.calls, isProcessNameMatch c.matcher c.name = true ∧
    c.registered = some c.mbid
  deleted : ∀ i, s.deleted.count i =
    if i ∈ s.pushed ∧ i ∉ s.asyncFetch.map Fetch.id then 1 else 0

/-- The entries whose callbacks are running. -/
def running (cs : List Context) : List Nat := cs.filterMap Context.executes

/-- The step does not disturb a walk: an entry whose callback is running is passed over, and so
    are the others when the name has gone down since the walk for it began. -/
def Undisturbed (s : Fetches) (a : Action) : Prop :=
  a = .walk → ∀ name mbid i rest, s.contexts = .walking name mbid (some i) :: rest →
    ∀ e ∈ s.asyncFetch, e.id = i →
      (i ∈ running rest → s.live e = true ∧ isProcessNameMatch e.matcher name = false) ∧
      (s.named.lookup name ≠ some mbid → s.live e = true →
        isProcessNameMatch e.matcher name = false)

/-! ### The invariant -/

/-- The lists: entries have numbers of their own, are called once and deleted once. -/
structure Listed (s : Fetches) : Prop where
  nodup : (s.asyncFetch.map Fetch.id).Nodup
  pushed : ∀ e ∈ s.asyncFetch, e.id ∈ s.pushed
  lt : ∀ i ∈ s.pushed, i < s.next
  called_lt : ∀ c ∈ s.calls, c.fetch < s.next
  once : (s.calls.map Call.fetch).Nodup
  registered : ∀ c ∈ s.calls, isProcessNameMatch c.matcher c.name = true ∧
    c.registered = some c.mbid
  deleted : ∀ i, s.deleted.count i =
    if i ∈ s.pushed ∧ i ∉ s.asyncFetch.map Fetch.id then 1 else 0

/-- What is going on: iterators are good, only the innermost walk moves, and the entries that have
    been called and are still there are those whose callbacks are running. -/
structure Stacked (s : Fetches) : Prop where
  good : ∀ c ∈ s.contexts, ∀ i, c.iterator = some i → i ∈ s.asyncFetch.map Fetch.id
  quiet : ∀ c ∈ s.contexts.tail, c.iterator = c.executes
  runs : ∀ name mbid e, Context.calling name mbid e ∈ s.contexts → e ∈ s.asyncFetch
  running_nodup : (running s.contexts).Nodup
  called : ∀ e ∈ s.asyncFetch, e.id ∈ s.calls.map Call.fetch → e.id ∈ running s.contexts
  executed : ∀ i ∈ running s.contexts, i ∈ s.calls.map Call.fetch

/-- An entry that matches a name that is registered is ahead of a walk for it. -/
def Awaited (s : Fetches) : Prop :=
  ∀ e ∈ s.asyncFetch, ∀ name mbid, s.named.lookup name = some mbid →
    isProcessNameMatch e.matcher name = true → ∃ c ∈ s.contexts,
      (∃ mbid', c.announces = some (name, mbid')) ∧
        e ∈ Lib.ahead Fetch.id s.asyncFetch c.iterator

structure Inv (s : Fetches) : Prop where
  listed : s.Listed
  stacked : s.Stacked
  awaited : s.Awaited

theorem inv_init : Inv init where
  listed := ⟨List.nodup_nil, fun _ h => absurd h List.not_mem_nil,
    fun _ h => absurd h List.not_mem_nil, fun _ h => absurd h List.not_mem_nil, List.nodup_nil,
    fun _ h => absurd h List.not_mem_nil, fun _ => rfl⟩
  stacked := ⟨fun _ h => absurd h List.not_mem_nil, fun _ h => absurd h List.not_mem_nil,
    fun _ _ _ h => absurd h List.not_mem_nil, List.nodup_nil,
    fun _ h => absurd h List.not_mem_nil, fun _ h => absurd h List.not_mem_nil⟩
  awaited := fun _ h => absurd h List.not_mem_nil

section

variable {s t : Fetches}

/-- The lists do not depend on names, linkers and walks. -/
theorem Listed.of_eq (h : s.Listed) (hlist : t.asyncFetch = s.asyncFetch)
    (hpushed : t.pushed = s.pushed) (hnext : t.next = s.next) (hcalls : t.calls = s.calls)
    (hdeleted : t.deleted = s.deleted) : t.Listed where
  nodup := by
    rw [hlist]
    exact h.nodup
  pushed := by
    rw [hlist, hpushed]
    exact h.pushed
  lt := by
    rw [hpushed, hnext]
    exact h.lt
  called_lt := by
    rw [hcalls, hnext]
    exact h.called_lt
  once := by
    rw [hcalls]
    exact h.once
  registered := by
    rw [hcalls]
    exact h.registered
  deleted := by
    rw [hdeleted, hpushed, hlist]
    exact h.deleted

/-- A callback is called, with what is registered. -/
theorem Listed.call (h : s.Listed) {c : Call} (hlist : t.asyncFetch = s.asyncFetch)
    (hpushed : t.pushed = s.pushed) (hnext : s.next ≤ t.next) (hcalls : t.calls = s.calls ++ [c])
    (hdeleted : t.deleted = s.deleted) (hlt : c.fetch < t.next)
    (hnew : c.fetch ∉ s.calls.map Call.fetch)
    (hright : isProcessNameMatch c.matcher c.name = true ∧ c.registered = some c.mbid) :
    t.Listed where
  nodup := by
    rw [hlist]
    exact h.nodup
  pushed := by
    rw [hlist, hpushed]
    exact h.pushed
  lt := by
    rw [hpushed]
    exact fun i hi => Nat.lt_of_lt_of_le (h.lt i hi) hnext
  called_lt := by
    intro d hd
    rw [hcalls] at hd
    rcases List.mem_append.mp hd with hd | hd
    · exact Nat.lt_of_lt_of_le (h.called_lt d hd) hnext
    · rw [List.mem_singleton.mp hd]
      exact hlt
  once := by
    rw [hcalls, List.map_append, List.nodup_append]
    refine ⟨h.once, List.nodup_singleton _, ?_⟩
    rintro i hi j hj rfl
    rw [List.map_singleton, List.mem_singleton] at hj
    exact hnew (hj ▸ hi)
  registered := by
    intro d hd
    rw [hcalls] at hd
    rcases List.mem_append.mp hd with hd | hd
    · exact h.registered d hd
    · rw [List.mem_singleton.mp hd]
      exact hright
  deleted := by
    rw [hdeleted, hpushed, hlist]
    exact h.deleted

/-- An entry is deleted and erased. -/
theorem Listed.erase (h : s.Listed) {e : Fetch} (he : e ∈ s.asyncFetch)
    (hlist : t.asyncFetch = without Fetch.id s.asyncFetch e.id) (hpushed : t.pushed = s.pushed)
    (hnext : t.next = s.next) (hcalls : t.calls = s.calls)
    (hdeleted : t.deleted = s.deleted ++ [e.id]) : t.Listed where
  nodup := by
    rw [hlist]
    exact nodup_without h.nodup e.id
  pushed := by
    rw [hlist, hpushed]
    exact fun f hf => h.pushed f (mem_without.mp hf).1
  lt := by
    rw [hpushed, hnext]
    exact h.lt
  called_lt := by
    rw [hcalls, hnext]
    exact h.called_lt
  once := by
    rw [hcalls]
    exact h.once
  registered := by
    rw [hcalls]
    exact h.registered
  deleted := by
    intro i
    rw [hdeleted, hpushed, hlist, List.count_append, List.count_singleton]
    by_cases hi : i = e.id
    · subst hi
      have hbefore : s.deleted.count e.id = 0 := by
        rw [h.deleted, if_neg fun hgone => hgone.2 (List.mem_map_of_mem he)]
      have hgone : e.id ∈ s.pushed ∧
          e.id ∉ (without Fetch.id s.asyncFetch e.id).map Fetch.id :=
        ⟨h.pushed e he, fun hin => (mem_keys_without.mp hin).2 rfl⟩
      rw [hbefore, if_pos hgone]
      simp
    · have hsame : i ∉ (without Fetch.id s.asyncFetch e.id).map Fetch.id ↔
          i ∉ s.asyncFetch.map Fetch.id := by
        rw [mem_keys_without, and_iff_left hi]
      rw [if_neg (by simpa using Ne.symm hi), Nat.add_zero, h.deleted i]
      exact if_congr (and_congr_right fun _ => hsame.symm) rfl rfl

theorem Inv.right (h : s.Inv) : s.Right where
  waiting := by
    intro hidle e he _ name hname
    obtain ⟨mbid, hlookup⟩ := Option.isSome_iff_exists.mp (AList.lookup_isSome.mpr hname)
    refine Bool.eq_false_iff.mpr fun hmatch => ?_
    obtain ⟨c, hc, -⟩ := h.awaited e he name mbid hlookup hmatch
    rw [hidle] at hc
    exact List.not_mem_nil hc
  once := h.listed.once
  registered := h.listed.registered
  deleted := h.listed.deleted

/-- The counts of linkers do not matter. -/
theorem Inv.recount (h : s.Inv) (linkers : Nat → Nat) : Inv { s with linkers := linkers } where
  listed := h.listed.of_eq rfl rfl rfl rfl rfl
  stacked := ⟨h.stacked.good, h.stacked.quiet, h.stacked.runs, h.stacked.running_nodup,
    h.stacked.called, h.stacked.executed⟩
  awaited := h.awaited

/-- When code outside runs, no walk moves. -/
theorem Inv.all_quiet (h : s.Inv) (hout : s.outside = true) :
    ∀ c ∈ s.contexts, c.iterator = c.executes := by
  have hquiet := h.stacked.quiet
  unfold outside at hout
  cases hcs : s.contexts with
  | nil => exact fun c hc => absurd hc List.not_mem_nil
  | cons c rest =>
      rw [hcs] at hout hquiet
      intro d hd
      rcases List.mem_cons.mp hd with rfl | hd
      · cases d with
        | direct => rfl
        | calling name mbid e => rfl
        | walking name mbid it => exact absurd hout Bool.false_ne_true
      · exact hquiet d hd

/-- An entry is put into the list. -/
theorem Listed.push (h : s.Listed) (matcher : Name) (linked : Bool) (keep : Nat) :
    (s.push matcher linked keep).Listed := by
  have hnew : s.next ∉ s.pushed := fun hmem => Nat.lt_irrefl _ (h.lt _ hmem)
  refine ⟨?_, ?_, ?_, fun c hc => Nat.lt_succ_of_lt (h.called_lt c hc), h.once, h.registered, ?_⟩
  · show ((s.asyncFetch ++ [_]).map Fetch.id).Nodup
    rw [List.map_append, List.nodup_append]
    refine ⟨h.nodup, List.nodup_singleton _, ?_⟩
    rintro i hi j hj rfl
    rw [List.map_singleton, List.mem_singleton] at hj
    obtain ⟨f, hf, rfl⟩ := List.mem_map.mp hi
    have hpushed := h.pushed f hf
    rw [hj] at hpushed
    exact hnew hpushed
  · intro f hf
    rcases List.mem_append.mp hf with hf | hf
    · exact List.mem_append_left _ (h.pushed f hf)
    · rw [List.mem_singleton.mp hf]
      exact List.mem_append_right _ List.mem_cons_self
  · intro i hi
    rcases List.mem_append.mp hi with hi | hi
    · exact Nat.lt_succ_of_lt (h.lt i hi)
    · rw [List.mem_singleton.mp hi]
      exact Nat.lt_succ_self _
  · intro i
    show s.deleted.count i = if i ∈ s.pushed ++ [s.next] ∧
      i ∉ (s.asyncFetch ++ [_]).map Fetch.id then 1 else 0
    rw [h.deleted i, List.map_append]
    refine if_congr ?_ rfl rfl
    simp only [List.mem_append, List.map_singleton, List.mem_singleton]
    constructor
    · rintro ⟨hi, hnot⟩
      refine ⟨Or.inl hi, ?_⟩
      rintro (hi' | rfl)
      · exact hnot hi'
      · exact hnew hi
    · rintro ⟨hi, hnot⟩
      exact ⟨hi.resolve_right fun heq => hnot (Or.inr heq), fun hi' => hnot (Or.inl hi')⟩

/-- Somebody waits for a name that nobody has. -/
theorem Inv.push (h : s.Inv) {matcher : Name} (linked : Bool) (keep : Nat)
    (hnone : ∀ name mbid, s.named.lookup name = some mbid → isProcessNameMatch matcher name = false) :
    (s.push matcher linked keep).Inv := by
  let e : Fetch := ⟨s.next, matcher, linked⟩
  have hmem : ∀ f, f ∈ s.asyncFetch ++ [e] ↔ f ∈ s.asyncFetch ∨ f = e := by
    intro f
    rw [List.mem_append, List.mem_singleton]
  refine ⟨h.listed.push matcher linked keep,
    ⟨?_, h.stacked.quiet, ?_, h.stacked.running_nodup, ?_, h.stacked.executed⟩, ?_⟩
  · intro c hc i hi
    show i ∈ (s.asyncFetch ++ [e]).map Fetch.id
    rw [List.map_append]
    exact List.mem_append_left _ (h.stacked.good c hc i hi)
  · exact fun name mbid f hf => (hmem f).mpr (Or.inl (h.stacked.runs name mbid f hf))
  · intro f hf hcall
    rcases (hmem f).mp hf with hf | rfl
    · exact h.stacked.called f hf hcall
    · obtain ⟨c, hc, hid⟩ := List.mem_map.mp hcall
      exact absurd (h.listed.called_lt c hc) (by rw [hid]; exact Nat.lt_irrefl _)
  · intro f hf name mbid hlookup hmatch
    rcases (hmem f).mp hf with hf | rfl
    · obtain ⟨c, hc, hann, hahead⟩ := h.awaited f hf name mbid hlookup hmatch
      exact ⟨c, hc, hann, mem_ahead_append [e] hahead⟩
    · exact absurd hmatch (by rw [hnone name mbid hlookup]; exact Bool.false_ne_true)

/-- A callback is called at once. -/
theorem Inv.direct (h : s.Inv) (hout : s.outside = true) {matcher name : Name} {mbid : MailboxID}
    (hlookup : s.named.lookup name = some mbid) (hmatch : isProcessNameMatch matcher name = true) :
    (s.direct matcher name mbid).Inv := by
  have hquiet := h.all_quiet hout
  have hcalls : (s.calls ++ [(⟨s.next, matcher, name, mbid, s.named.lookup name⟩ : Call)]).map
      Call.fetch = s.calls.map Call.fetch ++ [s.next] := by
    rw [List.map_append]
    rfl
  have hnew : s.next ∉ s.calls.map Call.fetch := by
    intro hmem
    obtain ⟨c, hc, hid⟩ := List.mem_map.mp hmem
    exact Nat.lt_irrefl _ (hid ▸ h.listed.called_lt c hc)
  refine ⟨h.listed.call rfl rfl (Nat.le_succ _) rfl rfl (Nat.lt_succ_self _) hnew ⟨hmatch, hlookup⟩,
    ⟨?_, hquiet, ?_, h.stacked.running_nodup, ?_, ?_⟩, ?_⟩
  · intro c hc i hi
    rcases List.mem_cons.mp hc with rfl | hc
    · exact absurd hi (Option.some_ne_none i).symm
    · exact h.stacked.good c hc i hi
  · intro n m e hc
    exact h.stacked.runs n m e ((List.mem_cons.mp hc).resolve_left (by simp))
  · intro e he hcall
    have hcall' : e.id ∈ (s.calls ++ [_]).map Call.fetch := hcall
    rw [hcalls, List.mem_append, List.mem_singleton] at hcall'
    rcases hcall' with hcall | hid
    · exact h.stacked.called e he hcall
    · exact absurd (h.listed.lt _ (h.listed.pushed e he)) (by rw [hid]; exact Nat.lt_irrefl _)
  · intro i hi
    show i ∈ (s.calls ++ [_]).map Call.fetch
    rw [hcalls]
    exact List.mem_append_left _ (h.stacked.executed i hi)
  · intro e he n m hlookup hmatch
    obtain ⟨c, hc, hann, hahead⟩ := h.awaited e he n m hlookup hmatch
    exact ⟨c, List.mem_cons_of_mem _ hc, hann, hahead⟩

theorem Inv.fetch (h : s.Inv) (hout : s.outside = true) (matcher : Name) (linked : Bool)
    (keep : Nat) (pick : Name) : (s.fetch matcher linked keep pick).Inv := by
  unfold Fetches.fetch
  split
  · split
    · exact h
    · rename_i mbid hlookup
      split
      · rename_i hmatch
        exact h.direct hout hlookup hmatch
      · exact h
  · rename_i hany
    refine h.push linked keep fun name mbid hlookup => ?_
    refine Bool.eq_false_iff.mpr fun hmatch => hany (List.any_eq_true.mpr ⟨name, ?_, hmatch⟩)
    exact AList.mem_keys.mp (AList.lookup_isSome.mp (by rw [hlookup]; rfl))

/-- A name comes up, and the walk for it begins. -/
theorem Inv.up (h : s.Inv) (hout : s.outside = true) (name : Name) (mbid : MailboxID) :
    (s.onNamedMailboxUp name mbid).Inv := by
  have hquiet := h.all_quiet hout
  have hlookup : ∀ n, (Table.emplace s.named name mbid).lookup n =
      if n = name then some ((s.named.lookup name).getD mbid) else s.named.lookup n :=
    Table.lookup_emplace s.named name mbid
  refine ⟨h.listed.of_eq rfl rfl rfl rfl rfl, ⟨?_, hquiet, ?_, h.stacked.running_nodup,
    h.stacked.called, h.stacked.executed⟩, ?_⟩
  · intro c hc i hi
    rcases List.mem_cons.mp hc with rfl | hc
    · obtain ⟨e, he, rfl⟩ := mem_of_start hi
      exact List.mem_map_of_mem he
    · exact h.stacked.good c hc i hi
  · intro n m e hc
    exact h.stacked.runs n m e ((List.mem_cons.mp hc).resolve_left (by simp))
  · intro e he n m hm hmatch
    have hm' : (Table.emplace s.named name mbid).lookup n = some m := hm
    rw [hlookup] at hm'
    by_cases heq : n = name
    · subst heq
      refine ⟨_, List.mem_cons_self, ⟨mbid, rfl⟩, ?_⟩
      show e ∈ Lib.ahead Fetch.id s.asyncFetch (start Fetch.id s.asyncFetch)
      rw [ahead_start]
      exact he
    · rw [if_neg heq] at hm'
      obtain ⟨c, hc, hann, hahead⟩ := h.awaited e he n m hm' hmatch
      exact ⟨c, List.mem_cons_of_mem _ hc, hann, hahead⟩

/-- Names go down. -/
theorem Inv.lower (h : s.Inv) {named : Table Name MailboxID}
    (hsub : ∀ n m, named.lookup n = some m → s.named.lookup n = some m) :
    Inv { s with named := named } where
  listed := h.listed.of_eq rfl rfl rfl rfl rfl
  stacked := ⟨h.stacked.good, h.stacked.quiet, h.stacked.runs, h.stacked.running_nodup,
    h.stacked.called, h.stacked.executed⟩
  awaited := fun e he n m hm hmatch => h.awaited e he n m (hsub n m hm) hmatch

theorem Inv.erase (h : s.Inv) (name : Name) : Inv { s with named := s.named.erase name } := by
  refine h.lower fun n m hm => ?_
  rw [Table.lookup_erase_eq] at hm
  split at hm
  · exact absurd hm (Option.some_ne_none m).symm
  · exact hm

theorem Inv.unRegister (h : s.Inv) (name : Name) : (s.unRegister name).Inv := by
  unfold Fetches.unRegister
  split
  · exact h
  · exact h.erase name

/-- A walk ends, or a callback returns to `FetchNamedMailbox`. -/
theorem Inv.pop (h : s.Inv) {c : Context} {rest : List Context} (hcs : s.contexts = c :: rest)
    (hit : c.iterator = none) (hexec : c.executes = none) : Inv { s with contexts := rest } := by
  obtain ⟨hgood, hquiet, hruns, hnodup, hcalled, hexecuted⟩ := h.stacked
  have hahead := h.awaited
  unfold Awaited at hahead
  rw [hcs] at hgood hquiet hruns hnodup hcalled hexecuted hahead
  have hrunning : running (c :: rest) = running rest := List.filterMap_cons_none hexec
  rw [hrunning] at hnodup hcalled hexecuted
  refine ⟨h.listed.of_eq rfl rfl rfl rfl rfl, ⟨?_, ?_, ?_, hnodup, hcalled, hexecuted⟩, ?_⟩
  · exact fun d hd => hgood d (List.mem_cons_of_mem c hd)
  · exact fun d hd => hquiet d (List.mem_of_mem_tail hd)
  · exact fun n m e hd => hruns n m e (List.mem_cons_of_mem c hd)
  · intro e he n m hm hmatch
    obtain ⟨d, hd, hann, hin⟩ := hahead e he n m hm hmatch
    rcases List.mem_cons.mp hd with rfl | hd
    · rw [hit] at hin
      exact absurd hin List.not_mem_nil
    · exact ⟨d, hd, hann, hin⟩

section

variable {name : Name} {mbid : MailboxID} {e : Fetch} {rest : List Context}

/-- An entry is passed over. -/
theorem Inv.pass (h : s.Inv) (hcs : s.contexts = .walking name mbid (some e.id) :: rest)
    (he : e ∈ s.asyncFetch) (hmatch : isProcessNameMatch e.matcher name = false) :
    Inv { s with contexts := .walking name mbid (following Fetch.id s.asyncFetch e.id) :: rest } := by
  obtain ⟨hgood, hquiet, hruns, hnodup, hcalled, hexecuted⟩ := h.stacked
  have hahead := h.awaited
  unfold Awaited at hahead
  rw [hcs] at hgood hquiet hruns hnodup hcalled hexecuted hahead
  refine ⟨h.listed.of_eq rfl rfl rfl rfl rfl, ⟨?_, hquiet, ?_, hnodup, hcalled, hexecuted⟩, ?_⟩
  · intro d hd i hi
    rcases List.mem_cons.mp hd with rfl | hd
    · obtain ⟨f, hf, rfl⟩ := mem_of_following h.listed.nodup he hi
      exact List.mem_map_of_mem (mem_without.mp hf).1
    · exact hgood d (List.mem_cons_of_mem _ hd) i hi
  · intro n m f hd
    exact hruns n m f (List.mem_cons_of_mem _ ((List.mem_cons.mp hd).resolve_left (by simp)))
  · intro f hf n m hm hmatch'
    obtain ⟨d, hd, hann, hin⟩ := hahead f hf n m hm hmatch'
    rcases List.mem_cons.mp hd with rfl | hd
    · rcases mem_ahead_following h.listed.nodup he hin with rfl | hin
      · obtain ⟨m', hann⟩ := hann
        obtain ⟨rfl, -⟩ := Prod.mk.inj (Option.some.inj hann)
        rw [hmatch] at hmatch'
        exact absurd hmatch' Bool.false_ne_true
      · exact ⟨_, List.mem_cons_self, hann, hin⟩
    · exact ⟨d, List.mem_cons_of_mem _ hd, hann, hin⟩

/-- The callback of an entry is called. -/
theorem Inv.call (h : s.Inv) (hcs : s.contexts = .walking name mbid (some e.id) :: rest)
    (he : e ∈ s.asyncFetch) (hrest : e.id ∉ running rest)
    (hmatch : isProcessNameMatch e.matcher name = true)
    (hlookup : s.named.lookup name = some mbid) :
    Inv { s with calls := s.calls ++ [⟨e.id, e.matcher, name, mbid, s.named.lookup name⟩]
                 contexts := .calling name mbid e :: rest } := by
  obtain ⟨hgood, hquiet, hruns, hnodup, hcalled, hexecuted⟩ := h.stacked
  have hahead := h.awaited
  unfold Awaited at hahead
  rw [hcs] at hgood hquiet hruns hnodup hcalled hexecuted hahead
  have hcalls : (s.calls ++ [(⟨e.id, e.matcher, name, mbid, s.named.lookup name⟩ : Call)]).map
      Call.fetch = s.calls.map Call.fetch ++ [e.id] := by
    rw [List.map_append]
    rfl
  have hnew : e.id ∉ s.calls.map Call.fetch := fun hcall => hrest (hcalled e he hcall)
  refine ⟨h.listed.call rfl rfl le_rfl rfl rfl (h.listed.lt _ (h.listed.pushed e he)) hnew
    ⟨hmatch, hlookup⟩, ⟨?_, hquiet, ?_, List.nodup_cons.mpr ⟨hrest, hnodup⟩, ?_, ?_⟩, ?_⟩
  · intro d hd i hi
    rcases List.mem_cons.mp hd with rfl | hd
    · rw [← Option.some.inj hi]
      exact List.mem_map_of_mem he
    · exact hgood d (List.mem_cons_of_mem _ hd) i hi
  · intro n m f hd
    rcases List.mem_cons.mp hd with heq | hd
    · obtain ⟨-, -, rfl⟩ := Context.calling.inj heq
      exact he
    · exact hruns n m f (List.mem_cons_of_mem _ hd)
  · intro f hf hcall
    have hcall' : f.id ∈ (s.calls ++ [_]).map Call.fetch := hcall
    rw [hcalls, List.mem_append, List.mem_singleton] at hcall'
    show f.id ∈ e.id :: running rest
    rcases hcall' with hcall | hid
    · exact List.mem_cons_of_mem _ (hcalled f hf hcall)
    · rw [hid]
      exact List.mem_cons_self
  · intro i hi
    show i ∈ (s.calls ++ [_]).map Call.fetch
    rw [hcalls]
    rcases List.mem_cons.mp hi with rfl | hi
    · exact List.mem_append_right _ List.mem_cons_self
    · exact List.mem_append_left _ (hexecuted i hi)
  · intro f hf n m hm hmatch'
    obtain ⟨d, hd, hann, hin⟩ := hahead f hf n m hm hmatch'
    rcases List.mem_cons.mp hd with rfl | hd
    · exact ⟨_, List.mem_cons_self, hann, hin⟩
    · exact ⟨d, List.mem_cons_of_mem _ hd, hann, hin⟩

/-- An entry is deleted and erased, by the only walk that is at it. -/
theorem Inv.drop (h : s.Inv) {c : Context} (hcs : s.contexts = c :: rest)
    (hann : c.announces = some (name, mbid)) (hit : c.iterator = some e.id)
    (hexec : ∀ i, c.executes = some i → i = e.id) (he : e ∈ s.asyncFetch)
    (hrest : e.id ∉ running rest) : (s.drop name mbid e rest).Inv := by
  obtain ⟨hgood, hquiet, hruns, hnodup, hcalled, hexecuted⟩ := h.stacked
  have hahead := h.awaited
  unfold Awaited at hahead
  rw [hcs] at hgood hquiet hruns hnodup hcalled hexecuted hahead
  have hrunning : ∀ i, i ∈ running (c :: rest) → i = e.id ∨ i ∈ running rest := by
    intro i hi
    obtain ⟨d, hd, hdi⟩ := List.mem_filterMap.mp hi
    rcases List.mem_cons.mp hd with rfl | hd
    · exact Or.inl (hexec i hdi)
    · exact Or.inr (List.mem_filterMap.mpr ⟨d, hd, hdi⟩)
  have hother : ∀ d ∈ rest, ∀ i, d.iterator = some i → i ≠ e.id := by
    rintro d hd i hi rfl
    rw [hquiet d hd] at hi
    exact hrest (List.mem_filterMap.mpr ⟨d, hd, hi⟩)
  refine ⟨h.listed.erase he rfl rfl rfl rfl rfl, ⟨?_, hquiet, ?_, ?_, ?_, ?_⟩, ?_⟩
  · intro d hd i hi
    show i ∈ (without Fetch.id s.asyncFetch e.id).map Fetch.id
    rcases List.mem_cons.mp hd with rfl | hd
    · obtain ⟨f, hf, rfl⟩ := mem_of_following h.listed.nodup he hi
      exact List.mem_map_of_mem hf
    · exact mem_keys_without.mpr ⟨hgood d (List.mem_cons_of_mem c hd) i hi, hother d hd i hi⟩
  · intro n m f hd
    have hd' := (List.mem_cons.mp hd).resolve_left (by simp)
    exact mem_without.mpr ⟨hruns n m f (List.mem_cons_of_mem c hd'), hother _ hd' f.id rfl⟩
  · exact hnodup.sublist ((List.sublist_cons_self c rest).filterMap _)
  · intro f hf hcall
    obtain ⟨hf, hne⟩ := mem_without.mp hf
    exact (hrunning _ (hcalled f hf hcall)).resolve_left hne
  · intro i hi
    have hi' : i ∈ running rest := hi
    obtain ⟨d, hd, hdi⟩ := List.mem_filterMap.mp hi'
    exact hexecuted i (List.mem_filterMap.mpr ⟨d, List.mem_cons_of_mem c hd, hdi⟩)
  · intro f hf n m hm hmatch
    obtain ⟨hf, hne⟩ := mem_without.mp hf
    obtain ⟨d, hd, hann', hin⟩ := hahead f hf n m hm hmatch
    rcases List.mem_cons.mp hd with rfl | hd
    · rw [hit] at hin
      refine ⟨_, List.mem_cons_self, ?_,
        (mem_ahead_following_without h.listed.nodup he hin).resolve_left ?_⟩
      · rw [hann] at hann'
        exact hann'
      · rintro rfl
        exact hne rfl
    · refine ⟨d, List.mem_cons_of_mem _ hd, hann', ?_⟩
      cases hdi : d.iterator with
      | none =>
          rw [hdi] at hin
          exact absurd hin List.not_mem_nil
      | some i =>
          rw [hdi] at hin
          exact mem_ahead_without hin (hother d hd i hdi) hne

end

end

end Fetches

end Jengine.Cluster
