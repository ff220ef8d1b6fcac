import Jengine.Cluster.AsyncFetch

/-!
# Runs with mailboxes that are waited for

What a run of `CheckAsyncFetchList` and of all that comes between its rounds does.  It is right
as long as no walk is disturbed from inside a callback (`Undisturbed`).  When one is, an entry is
called or deleted again, or called with an id that is not registered, and that can be seen when
nothing is going on any more.
-/

namespace Jengine.Cluster

open Jengine.Lib

namespace Fetches

open Fetch

section

variable {s : Fetches}

theorem foldl_delete (s : Fetches) (es : List Fetch) :
    es.foldl delete s = { s with deleted := s.deleted ++ es.map Fetch.id
                                 linkers := (es.foldl delete s).linkers } := by
  induction es generalizing s with
  | nil => simp
  | cons e es ih =>
      rw [List.foldl_cons, ih]
      simp [delete]

/-- What is left is deleted in the end. -/
theorem Inv.destroy (h : s.Inv) (hidle : s.contexts = []) : s.destroy.Inv := by
  unfold Fetches.destroy
  rw [foldl_delete]
  have hnone : ∀ c, c ∉ s.contexts := fun c => by
    rw [hidle]
    exact List.not_mem_nil
  refine ⟨⟨List.nodup_nil, fun _ he => absurd he List.not_mem_nil, h.listed.lt, h.listed.called_lt,
    h.listed.once, h.listed.registered, ?_⟩, ⟨fun c hc => absurd hc (hnone c), ?_,
    fun _ _ _ hc => absurd hc (hnone _), h.stacked.running_nodup,
    fun _ he => absurd he List.not_mem_nil, h.stacked.executed⟩,
    fun _ he => absurd he List.not_mem_nil⟩
  · intro i
    show (s.deleted ++ s.asyncFetch.map Fetch.id).count i =
      if i ∈ s.pushed ∧ i ∉ ([] : List Fetch).map Fetch.id then 1 else 0
    rw [List.count_append, h.listed.deleted i]
    by_cases hin : i ∈ s.asyncFetch.map Fetch.id
    · obtain ⟨e, he, rfl⟩ := List.mem_map.mp hin
      rw [if_neg fun hgone => hgone.2 hin, List.count_eq_one_of_mem h.listed.nodup hin,
        if_pos ⟨h.listed.pushed e he, List.not_mem_nil⟩]
    · rw [List.count_eq_zero.mpr hin, Nat.add_zero]
      exact if_congr (and_congr_right fun _ => iff_of_true hin List.not_mem_nil) rfl rfl
  · intro c hc
    exact absurd (List.mem_of_mem_tail hc) (hnone c)

/-- One round of the innermost walk. -/
theorem Inv.walk (h : s.Inv) {name : Name} {mbid : MailboxID} {it : Option Nat}
    {rest : List Context} (hcs : s.contexts = .walking name mbid it :: rest)
    (ha : s.Undisturbed .walk) : (s.walk name mbid it rest).Inv := by
  unfold Fetches.walk
  cases it with
  | none => exact h.pop hcs rfl rfl
  | some i =>
      obtain ⟨f, hf, rfl⟩ := List.mem_map.mp
        (h.stacked.good _ (by rw [hcs]; exact List.mem_cons_self) i rfl)
      cases hfind : s.asyncFetch.find? fun e => e.id == f.id with
      | none => exact absurd (List.find?_eq_none.mp hfind f hf) (by simp)
      | some e =>
          have he : e ∈ s.asyncFetch := List.mem_of_find?_eq_some hfind
          have hid : e.id = f.id := by simpa using List.find?_some hfind
          rw [← hid] at hcs
          obtain ⟨hpasses, hlookup⟩ := ha rfl name mbid e.id rest hcs e he rfl
          simp only [Option.bind_some, hfind]
          split
          · rename_i hdead
            refine h.drop hcs rfl rfl (fun i hi => absurd hi (Option.some_ne_none i).symm) he ?_
            intro hrun
            rw [(hpasses hrun).1] at hdead
            exact absurd hdead.symm Bool.false_ne_true
          · split
            · rename_i hlive hmatch
              rw [Bool.not_eq_false] at hlive
              refine h.call hcs he (fun hrun => ?_) hmatch ?_
              · rw [(hpasses hrun).2] at hmatch
                exact absurd hmatch Bool.false_ne_true
              · by_contra hdown
                rw [hlookup hdown hlive] at hmatch
                exact absurd hmatch Bool.false_ne_true
            · rename_i hmatch
              exact h.pass hcs he (Bool.eq_false_iff.mpr hmatch)

/-- A callback returns. -/
theorem Inv.returned (h : s.Inv) : (s.step .returned).Inv := by
  rw [step]
  split
  · rename_i name mbid e rest hcs
    have hmem : Context.calling name mbid e ∈ s.contexts := by
      rw [hcs]
      exact List.mem_cons_self
    have hnodup := h.stacked.running_nodup
    rw [hcs] at hnodup
    exact h.drop hcs rfl rfl (fun i hi => (Option.some.inj hi).symm) (h.stacked.runs _ _ _ hmem)
      (List.nodup_cons.mp hnodup).1
  · rename_i rest hcs
    exact h.pop hcs rfl rfl
  · exact h

theorem Inv.step (h : s.Inv) {a : Action} (ha : s.Undisturbed a) : (s.step a).Inv := by
  have hopen : s.contexts = [] → s.outside = true := by
    intro hidle
    unfold outside
    rw [hidle]
  cases a with
  | fetch matcher pick =>
      rw [Fetches.step]
      split
      · rename_i hout
        exact h.fetch hout matcher false 0 pick
      · exact h
  | fetchWithLinker matcher keep pick =>
      rw [Fetches.step]
      split
      · rename_i hout
        exact h.fetch hout matcher true keep pick
      · exact h
  | retain l =>
      simp only [Fetches.step, retain]
      split
      · split
        · exact h.recount _
        · exact h
      · exact h
  | release l =>
      simp only [Fetches.step, release]
      split
      · split
        · exact h.recount _
        · exact h
      · exact h
  | create name mbid =>
      simp only [Fetches.step, create]
      split
      · rename_i hout
        split
        · exact h
        · split
          · exact h.unRegister name
          · exact h.up hout name mbid
      · exact h
  | unRegister name =>
      rw [Fetches.step]
      split
      · exact h.unRegister name
      · exact h
  | up name mbid =>
      rw [Fetches.step]
      split
      · rename_i hidle
        exact h.up (hopen hidle) name mbid
      · exact h
  | down name =>
      rw [Fetches.step]
      split
      · exact h.erase name
      · exact h
  | nodeDown nodeid =>
      rw [Fetches.step]
      split
      · exact h.lower fun n m hm => (Table.lookup_keep.mp hm).1
      · exact h
  | destroy =>
      rw [Fetches.step]
      split
      · rename_i hidle
        exact h.destroy hidle
      · exact h
  | walk =>
      rw [Fetches.step]
      split
      · rename_i name mbid it rest hcs
        exact h.walk hcs ha
      · exact h
  | returned => exact h.returned

end

/-! ### What goes wrong -/

/-- What goes on between two states: calls and deletions are added, and the entry of a callback
    that has returned has been deleted. -/
structure Grows (s t : Fetches) : Prop where
  calls : s.calls <+: t.calls
  deleted : ∃ more, t.deleted = s.deleted ++ more ∧
    ∀ i ∈ running s.contexts, i ∈ running t.contexts ∨ i ∈ more

/-- Something is wrong for good: an entry has been deleted while its callback runs, or twice, a
    callback has been called twice, or with what was not registered. -/
inductive Spoiled (s : Fetches) : Prop where
  | running (i : Nat) (hrun : i ∈ running s.contexts) (hdeleted : i ∈ s.deleted)
  | deleted (i : Nat) (htwice : 2 ≤ s.deleted.count i)
  | called (htwice : ¬(s.calls.map Call.fetch).Nodup)
  | registered (c : Call) (hc : c ∈ s.calls) (hother : c.registered ≠ some c.mbid)

section

variable {s t : Fetches}

theorem Grows.silent (hcalls : t.calls = s.calls) (hdeleted : t.deleted = s.deleted)
    (hrunning : running t.contexts = running s.contexts) : Grows s t where
  calls := ⟨[], by rw [List.append_nil, hcalls]⟩
  deleted := by
    refine ⟨[], ?_, fun i hi => Or.inl ?_⟩
    · rw [hdeleted, List.append_nil]
    · rw [hrunning]
      exact hi

/-- A call is added. -/
theorem Grows.call (c : Call) (hcalls : t.calls = s.calls ++ [c])
    (hdeleted : t.deleted = s.deleted)
    (hrunning : ∀ i ∈ running s.contexts, i ∈ running t.contexts) : Grows s t where
  calls := by
    rw [hcalls]
    exact List.prefix_append _ _
  deleted := by
    refine ⟨[], ?_, fun i hi => Or.inl (hrunning i hi)⟩
    rw [hdeleted, List.append_nil]

/-- What is wrong stays wrong: a callback whose entry has been deleted has it deleted again when
    it returns. -/
theorem Spoiled.grows (h : s.Spoiled) (hgrows : Grows s t) : t.Spoiled := by
  obtain ⟨more, hdeleted, hrunning⟩ := hgrows.deleted
  obtain ⟨later, hcalls⟩ := hgrows.calls
  cases h with
  | running i hrun hgone =>
      rcases hrunning i hrun with hrun | hagain
      · refine .running i hrun ?_
        rw [hdeleted]
        exact List.mem_append_left _ hgone
      · refine .deleted i ?_
        have hbefore : 0 < s.deleted.count i := List.count_pos_iff.mpr hgone
        have hafter : 0 < more.count i := List.count_pos_iff.mpr hagain
        rw [hdeleted, List.count_append]
        omega
  | deleted i htwice =>
      refine .deleted i ?_
      rw [hdeleted, List.count_append]
      omega
  | called htwice =>
      refine .called fun hnodup => htwice ?_
      rw [← hcalls, List.map_append] at hnodup
      exact (List.nodup_append.mp hnodup).1
  | registered c hc hother =>
      refine .registered c ?_ hother
      rw [← hcalls]
      exact List.mem_append_left _ hc

theorem Spoiled.not_right (h : s.Spoiled) (hidle : s.contexts = []) : ¬s.Right := by
  intro hright
  cases h with
  | running i hrun hgone =>
      rw [hidle] at hrun
      exact List.not_mem_nil hrun
  | deleted i htwice =>
      rw [hright.deleted] at htwice
      split at htwice <;> omega
  | called htwice => exact htwice hright.once
  | registered c hc hother => exact hother (hright.registered c hc).2

theorem grows_fetch (s : Fetches) (matcher : Name) (linked : Bool) (keep : Nat) (pick : Name) :
    Grows s (s.fetch matcher linked keep pick) := by
  unfold Fetches.fetch
  split
  · split
    · exact .silent rfl rfl rfl
    · split
      · exact .call _ rfl rfl fun _ hi => hi
      · exact .silent rfl rfl rfl
  · exact .silent rfl rfl rfl

theorem grows_create (s : Fetches) (name : Name) (mbid : MailboxID) :
    Grows s (s.create name mbid) := by
  unfold Fetches.create unRegister
  split
  · exact .silent rfl rfl rfl
  · split
    · exact .silent rfl rfl rfl
    · exact .silent rfl rfl rfl

theorem grows_drop {c : Context} {rest : List Context} (hcs : s.contexts = c :: rest)
    (name : Name) (mbid : MailboxID) {e : Fetch} (hexec : ∀ i, c.executes = some i → i = e.id) :
    Grows s (s.drop name mbid e rest) where
  calls := List.prefix_rfl
  deleted := by
    refine ⟨[e.id], rfl, fun i hi => ?_⟩
    rw [hcs] at hi
    obtain ⟨d, hd, hdi⟩ := List.mem_filterMap.mp hi
    rcases List.mem_cons.mp hd with rfl | hd
    · exact Or.inr (List.mem_singleton.mpr (hexec i hdi))
    · exact Or.inl (List.mem_filterMap.mpr ⟨d, List.mem_cons_of_mem _ hd, hdi⟩)

theorem grows_walk {name : Name} {mbid : MailboxID} {it : Option Nat} {rest : List Context}
    (hcs : s.contexts = .walking name mbid it :: rest) :
    Grows s (s.walk name mbid it rest) := by
  have hrunning : running s.contexts = running rest := by
    rw [hcs]
    rfl
  unfold Fetches.walk
  split
  · exact .silent rfl rfl hrunning.symm
  · split
    · exact grows_drop hcs name mbid fun i hi => absurd hi (Option.some_ne_none i).symm
    · split
      · refine .call _ rfl rfl fun i hi => ?_
        rw [hrunning] at hi
        exact List.mem_cons_of_mem _ hi
      · exact .silent rfl rfl hrunning.symm

theorem grows_step (s : Fetches) (a : Action) : Grows s (s.step a) := by
  cases a with
  | fetch matcher pick =>
      rw [Fetches.step]
      split
      · exact grows_fetch s matcher false 0 pick
      · exact .silent rfl rfl rfl
  | fetchWithLinker matcher keep pick =>
      rw [Fetches.step]
      split
      · exact grows_fetch s matcher true keep pick
      · exact .silent rfl rfl rfl
  | retain l =>
      simp only [Fetches.step, Fetches.retain]
      split
      · split <;> exact .silent rfl rfl rfl
      · exact .silent rfl rfl rfl
  | release l =>
      simp only [Fetches.step, Fetches.release]
      split
      · split <;> exact .silent rfl rfl rfl
      · exact .silent rfl rfl rfl
  | create name mbid =>
      rw [Fetches.step]
      split
      · exact grows_create s name mbid
      · exact .silent rfl rfl rfl
  | unRegister name =>
      simp only [Fetches.step, Fetches.unRegister]
      split
      · split <;> exact .silent rfl rfl rfl
      · exact .silent rfl rfl rfl
  | up name mbid =>
      rw [Fetches.step]
      split <;> exact .silent rfl rfl rfl
  | down name =>
      rw [Fetches.step]
      split <;> exact .silent rfl rfl rfl
  | nodeDown nodeid =>
      rw [Fetches.step]
      split <;> exact .silent rfl rfl rfl
  | destroy =>
      rw [Fetches.step]
      split
      · unfold Fetches.destroy
        rw [foldl_delete]
        exact ⟨List.prefix_rfl, _, rfl, fun i hi => Or.inl hi⟩
      · exact .silent rfl rfl rfl
  | walk =>
      rw [Fetches.step]
      split
      · rename_i hcs
        exact grows_walk hcs
      · exact .silent rfl rfl rfl
  | returned =>
      rw [Fetches.step]
      split
      · rename_i hcs
        exact grows_drop hcs _ _ fun i hi => (Option.some.inj hi).symm
      · rename_i hcs
        refine .silent rfl rfl ?_
        rw [hcs]
        rfl
      · exact .silent rfl rfl rfl

/-- A walk that is disturbed spoils something. -/
theorem Inv.spoiled (h : s.Inv) {a : Action} (ha : ¬s.Undisturbed a) : (s.step a).Spoiled := by
  simp only [Undisturbed, not_forall] at ha
  obtain ⟨rfl, name, mbid, i, rest, hcs, e, he, rfl, hdisturbed⟩ := ha
  have hfind : (s.asyncFetch.find? fun f => f.id == e.id) = some e := by
    cases hf : s.asyncFetch.find? fun f => f.id == e.id with
    | none => exact absurd (List.find?_eq_none.mp hf e he) (by simp)
    | some f =>
        have hid : f.id = e.id := by simpa using List.find?_some hf
        rw [List.inj_on_of_nodup_map h.listed.nodup (List.mem_of_find?_eq_some hf) he hid]
  have hexecuted := h.stacked.executed
  rw [hcs] at hexecuted
  rw [Fetches.step, hcs]
  simp only [Fetches.walk, Option.bind_some, hfind]
  cases hlive : s.live e with
  | false =>
      -- A dead entry is deleted, whose callback is running.
      have hrun : e.id ∈ running rest := by
        by_contra hrun
        exact hdisturbed ⟨fun hin => absurd hin hrun, fun _ hin => absurd (hlive ▸ hin) (by simp)⟩
      rw [if_pos rfl]
      exact .running e.id hrun (List.mem_append_right _ List.mem_cons_self)
  | true =>
      rw [if_neg (by simp)]
      cases hmatch : isProcessNameMatch e.matcher name with
      | false => exact absurd ⟨fun _ => ⟨hlive, hmatch⟩, fun _ _ => hmatch⟩ hdisturbed
      | true =>
          rw [if_pos rfl]
          by_cases hrun : e.id ∈ running rest
          · refine .called fun hnodup => ?_
            rw [List.map_append, List.nodup_append] at hnodup
            exact hnodup.2.2 _ (hexecuted _ hrun) _ List.mem_cons_self rfl
          · refine .registered _ (List.mem_append_right _ List.mem_cons_self) fun hup => ?_
            exact hdisturbed ⟨fun hin => absurd hin hrun, fun hdown => absurd hup hdown⟩

/-- **Fetches are right in every run whose walks are not disturbed, and a run in which one is
    leaves them wrong when nothing is going on any more.** -/
theorem right_iff_undisturbed (as : List Action) :
    (Along step Undisturbed init as → (run step init as).Right) ∧
      ((run step init as).contexts = [] → (run step init as).Right →
        Along step Undisturbed init as) := by
  constructor
  · exact fun hruns => (run_invariant (I := Inv) (fun _ _ h ha => h.step ha) inv_init hruns).right
  · intro hidle hright
    refine along_of_unbroken (I := Inv) (B := Spoiled) (fun _ _ h ha => h.step ha)
      (fun _ _ h ha => h.spoiled ha) (fun s a h => h.grows (grows_step s a)) inv_init as ?_
    exact fun hspoiled => hspoiled.not_right hidle hright

/-- `FetchNamedMailbox("s@*")`, then `s@a` comes up, and the callback creates a mailbox `s`. -/
def createsOwn : List Action :=
  [.fetch [115, 64, 42] [], .create [115, 64, 97] ⟨1, 10001⟩, .walk, .create [115] ⟨1, 10003⟩, .walk,
    .returned, .walk, .returned, .walk]

/-- The callback is called for both names, and its entry deleted twice. -/
theorem createsOwn_wrong : (run step init createsOwn).contexts = [] ∧
    (run step init createsOwn).calls.map Call.fetch = [0, 0] ∧
    (run step init createsOwn).deleted = [0, 0] ∧ ¬(run step init createsOwn).Right := by
  have hcalls : (run step init createsOwn).calls.map Call.fetch = [0, 0] := by decide +kernel
  refine ⟨by decide +kernel, hcalls, by decide +kernel, fun hright => ?_⟩
  have honce := hright.once
  rw [hcalls] at honce
  simp at honce

end

end Fetches

end Jengine.Cluster
