import Jengine.Gateway.GateServer
import Jengine.Event.Finalisation

/-!
# Who holds a client

The invariant of the gateway: its clients and their sessions point at each other, and the
references of a client are those of the gateway, of its session and of the dispatcher.
Accepting, closing and finalising a client keep it.
-/

namespace Jengine.Gateway

open Jengine.Lib Jengine.Event

namespace GateServer

variable {κ : Type}

/-! ### The invariants -/

/-- Who holds what. -/
structure Held (s : GateServer κ) : Prop where
  orderly : s.dispatcher.Orderly
  added : ∀ c, .added (some c) ∈ s.dispatcher.trace → c < s.created
  clients_nodup : s.clients.Nodup
  listed : ∀ c ∈ s.clients, some c ∈ s.dispatcher.ioList ∧
    s.dispatcher.phase ≠ .finalizing (some c)
  /-- The dispatcher holds the clients of the gateway, and the one it is finalising. -/
  known : ∀ c, some c ∈ s.dispatcher.ioList →
    c ∈ s.clients ∨ s.dispatcher.phase = .finalizing (some c)
  connected : ∀ c, s.connect c = true ↔ c ∈ s.clients
  seated : ∀ c ∈ s.clients, ∃ p ∈ s.players, s.session c = some p ∧ s.client p = c
  seats : ∀ p ∈ s.players, s.client p ∈ s.clients ∧ s.session (s.client p) = some p
  players_nodup : s.players.Nodup
  players_lt : ∀ p ∈ s.players, p < s.sessions
  sessionRef : ∀ p, s.sessionRef p = if p ∈ s.players then 1 else 0
  /-- One reference of the gateway, one of the session, one of the dispatcher. -/
  ref : ∀ c, s.ref c = (if c ∈ s.clients then 2 else 0) +
    if some c ∈ s.dispatcher.ioList then 1 else 0
  sound : s.failed = false
  bound : s.clients.length ≤ s.maxConnections
  listening : s.listener = true → none ∈ s.dispatcher.ioList ∧ none ∉ s.dispatcher.closed
  stopped : s.listener = false → none ∈ s.dispatcher.closed

/-- The callback is called at most once for each `BeginCleanup`. -/
structure Finishing (s : GateServer κ) : Prop where
  stops : s.isCleanup = true → s.listener = false ∧ ∃ cb, s.cleanupFinshCb = some cb
  ended : 0 < s.since → s.isCleanup = true ∧ s.clients = []
  since_le : s.since ≤ 1
  invoked_le : s.invoked.length + (if s.isCleanup = true ∧ s.since = 0 then 1 else 0) ≤ s.begun
  empty : ∀ e ∈ s.invoked, e.2 = 0

theorem held_start (maxConnections : Nat) : Held (start maxConnections : GateServer κ) where
  orderly := Dispatcher.orderly_start.add List.not_mem_nil
  added := fun c hc => by simp [start, Dispatcher.add, Dispatcher.start] at hc
  clients_nodup := List.nodup_nil
  listed := fun _ hc => absurd hc List.not_mem_nil
  known := fun c hc => by simp [start, Dispatcher.add, Dispatcher.start] at hc
  connected := fun c => by simp [start]
  seated := fun _ hc => absurd hc List.not_mem_nil
  seats := fun _ hp => absurd hp List.not_mem_nil
  players_nodup := List.nodup_nil
  players_lt := fun _ hp => absurd hp List.not_mem_nil
  sessionRef := fun p => by simp [start]
  ref := fun c => by simp [start, Dispatcher.add, Dispatcher.start]
  sound := rfl
  bound := Nat.zero_le _
  listening := fun _ => by simp [start, Dispatcher.add, Dispatcher.start]
  stopped := fun h => by cases h

theorem finishing_start (maxConnections : Nat) :
    Finishing (start maxConnections : GateServer κ) where
  stops := fun h => by cases h
  ended := fun h => absurd h (Nat.lt_irrefl 0)
  since_le := Nat.zero_le _
  invoked_le := Nat.le_refl _
  empty := fun _ he => absurd he List.not_mem_nil

/-! ### Closing -/

/-- The dispatcher moves on without taking anything in or out of its list. -/
theorem Held.dispatch {s : GateServer κ} (h : Held s) {d : Dispatcher (Option Nat)} {l : Bool}
    (horderly : d.Orderly) (hlist : d.ioList = s.dispatcher.ioList)
    (hadded : ∀ c, .added (some c) ∈ d.trace → .added (some c) ∈ s.dispatcher.trace)
    (hphase : ∀ c, d.phase = .finalizing (some c) ↔ s.dispatcher.phase = .finalizing (some c))
    (hlistening : l = true → none ∈ d.ioList ∧ none ∉ d.closed)
    (hstopped : l = false → none ∈ d.closed) :
    Held { s with dispatcher := d, listener := l } := by
  refine { h with
    orderly := horderly
    added := fun c hc => h.added c (hadded c hc)
    listed := fun c hc => ?_
    known := fun c hc => ?_
    ref := fun c => ?_
    listening := hlistening
    stopped := hstopped }
  · obtain ⟨hin, hne⟩ := h.listed c hc
    exact ⟨hlist ▸ hin, fun heq => hne ((hphase c).mp heq)⟩
  · have hc : some c ∈ d.ioList := hc
    rw [hlist] at hc
    exact (h.known c hc).imp_right (hphase c).mpr
  · rw [h.ref c, ← hlist]

/-- The same, where nothing happens to the listener. -/
theorem Held.dispatch_open {s : GateServer κ} (h : Held s) {d : Dispatcher (Option Nat)}
    (horderly : d.Orderly) (hlist : d.ioList = s.dispatcher.ioList)
    (hadded : ∀ c, .added (some c) ∈ d.trace → .added (some c) ∈ s.dispatcher.trace)
    (hphase : ∀ c, d.phase = .finalizing (some c) ↔ s.dispatcher.phase = .finalizing (some c))
    (hclosed : none ∈ d.closed ↔ none ∈ s.dispatcher.closed) :
    Held { s with dispatcher := d } := by
  refine h.dispatch horderly hlist hadded hphase (fun hl => ?_) fun hl => ?_
  · obtain ⟨hin, hopen⟩ := h.listening hl
    exact ⟨hlist ▸ hin, fun hmem => hopen (hclosed.mp hmem)⟩
  · exact hclosed.mpr (h.stopped hl)

theorem close_eq (d : Dispatcher (Option Nat)) (o : Option Nat) :
    (d.close o).ioList = d.ioList ∧ (d.close o).phase = d.phase ∧
      ∀ x, .added x ∈ (d.close o).trace ↔ .added x ∈ d.trace := by
  unfold Dispatcher.close
  split
  · exact ⟨rfl, rfl, fun x => Dispatcher.mem_snoc_of_ne (by simp)⟩
  · exact ⟨rfl, rfl, fun _ => Iff.rfl⟩

theorem Held.close {s : GateServer κ} (h : Held s) (c : Nat) : Held (s.close c) := by
  obtain ⟨hlist, hphase, hadded⟩ := close_eq s.dispatcher (some c)
  have horderly : (s.dispatcher.close (some c)).Orderly :=
    h.orderly.step (.close (some c)) trivial
  apply h.dispatch_open horderly hlist
  · exact fun x => (hadded (some x)).mp
  · intro x
    rw [hphase]
  · unfold Dispatcher.close
    split
    · simp
    · exact Iff.rfl

theorem Held.stopListener {s : GateServer κ} (h : Held s) : Held s.stopListener := by
  unfold GateServer.stopListener
  split
  next hl =>
    obtain ⟨hin, hopen⟩ := h.listening hl
    have horderly : (s.dispatcher.close none).Orderly := h.orderly.step (.close none) trivial
    have hclosed : none ∈ (s.dispatcher.close none).closed := by
      unfold Dispatcher.close
      rw [if_pos ⟨hopen, hin⟩]
      exact List.mem_cons_self
    obtain ⟨hlist, hphase, hadded⟩ := close_eq s.dispatcher none
    refine h.dispatch horderly hlist (fun x => (hadded (some x)).mp) (fun x => ?_)
      (fun hl => by cases hl) fun _ => hclosed
    rw [hphase]
  next => exact h

/-! ### Accepting and finalising -/

/-- An accepted client has three references: the gateway's, the dispatcher's and the
    session's. -/
theorem onListenerAccept_eq {s : GateServer κ} (h : ¬s.maxConnections ≤ s.clients.length) :
    s.onListenerAccept = { s with
      created := s.created + 1
      ref := Function.update s.ref s.created 3
      dispatcher := s.dispatcher.add (some s.created)
      connect := Function.update s.connect s.created true
      clients := s.created :: s.clients
      sessions := s.sessions + 1
      sessionRef := Function.update s.sessionRef s.sessions 1
      session := Function.update s.session s.created (some s.sessions)
      client := Function.update s.client s.sessions s.created
      players := s.sessions :: s.players } := by
  simp [onListenerAccept, h, createSession, retain, Function.update_idem]

theorem Held.accept {s : GateServer κ} (h : Held s) : Held s.onListenerAccept := by
  by_cases hroom : s.maxConnections ≤ s.clients.length
  · rw [onListenerAccept, if_pos hroom]
    exact h
  rw [onListenerAccept_eq hroom]
  have hfresh : .added (some s.created) ∉ s.dispatcher.trace :=
    fun hmem => Nat.lt_irrefl _ (h.added _ hmem)
  have hnew : some s.created ∉ s.dispatcher.ioList :=
    fun hmem => hfresh ((h.orderly.listed _).mp hmem).1
  have hclient : s.created ∉ s.clients := fun hmem => hnew (h.listed _ hmem).1
  have hsession : s.sessions ∉ s.players := fun hmem => Nat.lt_irrefl _ (h.players_lt _ hmem)
  have hphase : s.dispatcher.phase ≠ .finalizing (some s.created) := by
    intro heq
    obtain ⟨rest, hrest⟩ := h.orderly.front _ heq
    exact hnew (h.orderly.queue_list _ (hrest ▸ List.mem_cons_self))
  refine ⟨h.orderly.add hfresh, ?_, List.nodup_cons.mpr ⟨hclient, h.clients_nodup⟩, ?_, ?_, ?_,
    ?_, ?_, List.nodup_cons.mpr ⟨hsession, h.players_nodup⟩, ?_, ?_, ?_, h.sound, ?_, ?_,
    h.stopped⟩
  · intro c hc
    rcases List.mem_append.mp hc with hc | hc
    · exact Nat.lt_succ_of_lt (h.added c hc)
    · rw [List.mem_singleton, Act.added.injEq, Option.some.injEq] at hc
      rw [hc]
      exact Nat.lt_succ_self _
  · intro c hc
    rcases List.mem_cons.mp hc with rfl | hc
    · exact ⟨List.mem_cons_self, hphase⟩
    · obtain ⟨hin, hne⟩ := h.listed c hc
      exact ⟨List.mem_cons_of_mem _ hin, hne⟩
  · intro c hc
    rcases List.mem_cons.mp hc with heq | hc
    · rw [Option.some.inj heq]
      exact Or.inl List.mem_cons_self
    · exact (h.known c hc).imp_left (List.mem_cons_of_mem _)
  · intro c
    show Function.update s.connect s.created true c = true ↔ c ∈ s.created :: s.clients
    by_cases hc : c = s.created
    · simp [hc]
    · rw [Function.update_of_ne hc, h.connected c, List.mem_cons]
      simp [hc]
  · intro c hc
    show ∃ p ∈ s.sessions :: s.players,
      Function.update s.session s.created (some s.sessions) c = some p ∧
        Function.update s.client s.sessions s.created p = c
    rcases List.mem_cons.mp hc with rfl | hc
    · exact ⟨s.sessions, List.mem_cons_self, Function.update_self .., Function.update_self ..⟩
    · obtain ⟨p, hp, hsess, hcl⟩ := h.seated c hc
      have hcne : c ≠ s.created := by
        rintro rfl
        exact hclient hc
      have hpne : p ≠ s.sessions := by
        rintro rfl
        exact hsession hp
      exact ⟨p, List.mem_cons_of_mem _ hp, by rwa [Function.update_of_ne hcne],
        by rwa [Function.update_of_ne hpne]⟩
  · intro p hp
    show Function.update s.client s.sessions s.created p ∈ s.created :: s.clients ∧
      Function.update s.session s.created (some s.sessions)
        (Function.update s.client s.sessions s.created p) = some p
    rcases List.mem_cons.mp hp with rfl | hp
    · rw [Function.update_self, Function.update_self]
      exact ⟨List.mem_cons_self, rfl⟩
    · obtain ⟨hin, hsess⟩ := h.seats p hp
      have hpne : p ≠ s.sessions := by
        rintro rfl
        exact hsession hp
      have hcne : s.client p ≠ s.created := by
        intro heq
        exact hclient (heq ▸ hin)
      rw [Function.update_of_ne hpne, Function.update_of_ne hcne]
      exact ⟨List.mem_cons_of_mem _ hin, hsess⟩
  · intro p hp
    rcases List.mem_cons.mp hp with rfl | hp
    · exact Nat.lt_succ_self _
    · exact Nat.lt_succ_of_lt (h.players_lt p hp)
  · intro p
    show Function.update s.sessionRef s.sessions 1 p = if p ∈ s.sessions :: s.players then 1 else 0
    by_cases hp : p = s.sessions
    · simp [hp]
    · rw [Function.update_of_ne hp, h.sessionRef p]
      simp [hp]
  · intro c
    show Function.update s.ref s.created 3 c = (if c ∈ s.created :: s.clients then 2 else 0) +
      if some c ∈ some s.created :: s.dispatcher.ioList then 1 else 0
    by_cases hc : c = s.created
    · simp [hc]
    · rw [Function.update_of_ne hc, h.ref c]
      simp [hc]
  · show s.clients.length + 1 ≤ s.maxConnections
    omega
  · intro hl
    obtain ⟨hin, hopen⟩ := h.listening hl
    exact ⟨List.mem_cons_of_mem _ hin, hopen⟩

theorem checkIfCleanupFinish_eq (s : GateServer κ) : ∃ invoked since,
    s.checkIfCleanupFinish = { s with invoked := invoked, since := since } := by
  unfold checkIfCleanupFinish
  split
  · split
    · exact ⟨_, _, rfl⟩
    · exact ⟨s.invoked, s.since, rfl⟩
  · exact ⟨s.invoked, s.since, rfl⟩

theorem Held.check {s : GateServer κ} (h : Held s) : Held s.checkIfCleanupFinish := by
  obtain ⟨invoked, since, hcheck⟩ := s.checkIfCleanupFinish_eq
  rw [hcheck]
  exact { h with }

/-- `OnEventIOClose` of a client that has a session: the session goes, and with it one
    reference of the client; the gateway's follows. -/
theorem onEventIOClose_eq {s : GateServer κ} (h : Held s) {c p : Nat} (hc : c ∈ s.clients)
    (hp : p ∈ s.players) (hsession : s.session c = some p) (hclient : s.client p = c) :
    s.onEventIOClose c = checkIfCleanupFinish { s with
      connect := Function.update s.connect c false
      players := s.players.erase p
      sessionRef := Function.update s.sessionRef p 0
      session := Function.update s.session c none
      clients := s.clients.erase c
      ref := Function.update s.ref c (s.ref c - 2) } := by
  have hconnect : s.connect c = true := (h.connected c).mpr hc
  have href : s.sessionRef p = 1 := by
    rw [h.sessionRef p, if_pos hp]
  have hcount : s.clients.count c = 1 := List.count_eq_one_of_mem h.clients_nodup hc
  simp only [onEventIOClose, hconnect, if_true, onUserClientClose, hsession, deleteSession,
    releaseSession, href, Nat.sub_self, Function.update_self, release, hclient,
    Function.update_idem, h.sound, hcount]
  rfl

theorem Held.finalise {s : GateServer κ} (h : Held s) {c : Nat} {rest : List (Option Nat)}
    (hphase : s.dispatcher.phase = .draining)
    (hqueue : s.dispatcher.closedIoList = some c :: rest) :
    Held { s.onEventIOClose c with dispatcher := s.dispatcher.next } := by
  have hlist : some c ∈ s.dispatcher.ioList :=
    h.orderly.queue_list _ (hqueue ▸ List.mem_cons_self)
  have hc : c ∈ s.clients := by
    rcases h.known c hlist with hc | hfin
    · exact hc
    · rw [hphase] at hfin
      cases hfin
  obtain ⟨p, hp, hsession, hclient⟩ := h.seated c hc
  rw [onEventIOClose_eq h hc hp hsession hclient]
  obtain ⟨invoked, since, hcheck⟩ := checkIfCleanupFinish_eq { s with
    connect := Function.update s.connect c false
    players := s.players.erase p
    sessionRef := Function.update s.sessionRef p 0
    session := Function.update s.session c none
    clients := s.clients.erase c
    ref := Function.update s.ref c (s.ref c - 2) }
  rw [hcheck]
  have hnext : s.dispatcher.next = { s.dispatcher with
      phase := .finalizing (some c), trace := s.dispatcher.trace ++ [.onClose (some c)] } := by
    simp only [Dispatcher.next, hphase, hqueue]
  have horderly := h.orderly.next
  rw [hnext] at horderly ⊢
  have hmem : ∀ x, x ∈ s.clients.erase c ↔ x ≠ c ∧ x ∈ s.clients :=
    fun x => h.clients_nodup.mem_erase_iff
  have hmemp : ∀ q, q ∈ s.players.erase p ↔ q ≠ p ∧ q ∈ s.players :=
    fun q => h.players_nodup.mem_erase_iff
  refine ⟨horderly, ?_, h.clients_nodup.erase c, ?_, ?_, ?_, ?_, ?_, h.players_nodup.erase p, ?_,
    ?_, ?_, h.sound, ?_, h.listening, h.stopped⟩
  · intro x hx
    exact h.added x ((Dispatcher.mem_snoc_of_ne (by simp)).mp hx)
  · intro x hx
    obtain ⟨hne, hx⟩ := (hmem x).mp hx
    refine ⟨(h.listed x hx).1, ?_⟩
    intro heq
    cases heq
    exact hne rfl
  · intro x hx
    by_cases hxc : x = c
    · rw [hxc]
      exact Or.inr rfl
    · rcases h.known x hx with hin | hfin
      · exact Or.inl ((hmem x).mpr ⟨hxc, hin⟩)
      · rw [hphase] at hfin
        cases hfin
  · intro x
    show Function.update s.connect c false x = true ↔ x ∈ s.clients.erase c
    rw [hmem]
    by_cases hxc : x = c
    · simp [hxc]
    · rw [Function.update_of_ne hxc, h.connected x]
      simp [hxc]
  · intro x hx
    obtain ⟨hne, hx⟩ := (hmem x).mp hx
    obtain ⟨q, hq, hsq, hcq⟩ := h.seated x hx
    refine ⟨q, (hmemp q).mpr ⟨?_, hq⟩, ?_, hcq⟩
    · rintro rfl
      exact hne (hcq.symm.trans hclient)
    · show Function.update s.session c none x = some q
      rwa [Function.update_of_ne hne]
  · intro q hq
    obtain ⟨hne, hq⟩ := (hmemp q).mp hq
    obtain ⟨hin, hsq⟩ := h.seats q hq
    have hqc : s.client q ≠ c := by
      intro heq
      rw [heq, hsession] at hsq
      exact hne (Option.some.inj hsq).symm
    refine ⟨(hmem _).mpr ⟨hqc, hin⟩, ?_⟩
    show Function.update s.session c none (s.client q) = some q
    rwa [Function.update_of_ne hqc]
  · intro q hq
    exact h.players_lt q ((hmemp q).mp hq).2
  · intro q
    show Function.update s.sessionRef p 0 q = if q ∈ s.players.erase p then 1 else 0
    by_cases hqp : q = p
    · rw [hqp, Function.update_self, if_neg fun hin => ((hmemp p).mp hin).1 rfl]
    · rw [Function.update_of_ne hqp, h.sessionRef q]
      simp only [hmemp, hqp, ne_eq, not_false_eq_true, true_and]
  · intro x
    show Function.update s.ref c (s.ref c - 2) x = (if x ∈ s.clients.erase c then 2 else 0) +
      if some x ∈ s.dispatcher.ioList then 1 else 0
    by_cases hxc : x = c
    · rw [hxc, Function.update_self, h.ref c, if_pos hc, if_pos hlist,
        if_neg fun hin => ((hmem c).mp hin).1 rfl]
    · rw [Function.update_of_ne hxc, h.ref x]
      simp only [hmem, hxc, ne_eq, not_false_eq_true, true_and]
  · have hle := List.length_erase_le (l := s.clients) (a := c)
    exact Nat.le_trans hle h.bound

/-- `io_list_.erase(cur)` and `cur->Release()`. -/
theorem Held.releaseCur {s : GateServer κ} (h : Held s) {o : Option Nat}
    (hphase : s.dispatcher.phase = .finalizing o) {ref : Nat → Nat}
    (href : ∀ c, ref c = if o = some c then s.ref c - 1 else s.ref c) :
    Held { s with ref := ref, dispatcher := s.dispatcher.next } := by
  obtain ⟨hmem, hdraining, hsame, hadded⟩ := h.orderly.next_finalizing hphase
  obtain ⟨rest, hqueue⟩ := h.orderly.front o hphase
  have hclosed : o ∈ s.dispatcher.closed :=
    h.orderly.queue_closed o (hqueue ▸ List.mem_cons_self)
  have hlist : o ∈ s.dispatcher.ioList := h.orderly.queue_list o (hqueue ▸ List.mem_cons_self)
  have hother : ∀ c ∈ s.clients, some c ≠ o := by
    rintro c hc rfl
    exact (h.listed c hc).2 hphase
  refine { h with
    orderly := h.orderly.next
    added := fun c hc => h.added c ((hadded _).mp hc)
    listed := fun c hc => ⟨(hmem _).mpr ⟨hother c hc, (h.listed c hc).1⟩, ?_⟩
    known := fun c hc => ?_
    ref := fun c => ?_
    listening := fun hl => ?_
    stopped := fun hl => ?_ }
  · rw [hdraining]
    simp
  · obtain ⟨hne, hin⟩ := (hmem _).mp hc
    rcases h.known c hin with hc | hfin
    · exact Or.inl hc
    · rw [hphase] at hfin
      cases hfin
      exact absurd rfl hne
  · show ref c = (if c ∈ s.clients then 2 else 0) +
      if some c ∈ s.dispatcher.next.ioList then 1 else 0
    rw [href c, h.ref c]
    by_cases ho : o = some c
    · have hnot : c ∉ s.clients := fun hc => hother c hc ho.symm
      rw [if_pos ho, if_neg hnot, if_pos (ho ▸ hlist), if_neg fun hin => ((hmem _).mp hin).1 ho.symm]
    · simp only [if_neg ho, hmem, Ne.symm ho, ne_eq, not_false_eq_true, true_and]
  · obtain ⟨hin, hopen⟩ := h.listening hl
    refine ⟨(hmem _).mpr ⟨?_, hin⟩, ?_⟩
    · rintro rfl
      exact hopen hclosed
    · rwa [hsame]
  · rw [hsame]
    exact h.stopped hl

/-- The steps of the dispatcher that neither begin nor end a finalisation. -/
theorem dispatcher_next_eq {d : Dispatcher (Option Nat)}
    (hqueue : d.phase = .draining → ∀ c rest, d.closedIoList ≠ some c :: rest)
    (hphase : ∀ o, d.phase ≠ .finalizing o) :
    d.next.ioList = d.ioList ∧ d.next.closed = d.closed ∧
      (∀ x, .added x ∈ d.next.trace → .added x ∈ d.trace) ∧
      ∀ c, d.next.phase ≠ .finalizing (some c) := by
  have hsnoc : ∀ {a : Act (Option Nat)} {x : Option Nat}, a ≠ .added x →
      .added x ∈ d.trace ++ [a] → .added x ∈ d.trace :=
    fun hne => (Dispatcher.mem_snoc_of_ne hne).mp
  unfold Dispatcher.next
  split
  next hcur => exact ⟨rfl, rfl, fun _ => id, fun c => by simp [hcur]⟩
  next => exact ⟨rfl, rfl, fun _ => id, fun c => by simp⟩
  next =>
    split
    · exact ⟨rfl, rfl, fun _ => hsnoc (by simp), fun c => by simp⟩
    · exact ⟨rfl, rfl, fun _ => id, fun c => by simp⟩
  next =>
    split
    · exact ⟨rfl, rfl, fun _ => hsnoc (by simp), fun c => by simp⟩
    · exact ⟨rfl, rfl, fun _ => id, fun c => by simp⟩
  next hcur =>
    split
    next => exact ⟨rfl, rfl, fun _ => id, fun c => by simp⟩
    next o rest hq =>
      cases o with
      | none => exact ⟨rfl, rfl, fun _ => hsnoc (by simp), fun c => by simp⟩
      | some c => exact absurd hq (hqueue hcur c rest)
  next o hcur => exact absurd hcur (hphase o)

theorem Held.next {s : GateServer κ} (h : Held s) : Held s.next := by
  unfold GateServer.next
  have hidle : ∀ (hqueue : s.dispatcher.phase = .draining →
      ∀ c rest, s.dispatcher.closedIoList ≠ some c :: rest)
      (hphase : ∀ o, s.dispatcher.phase ≠ .finalizing o),
      Held { s with dispatcher := s.dispatcher.next } := by
    intro hqueue hphase
    obtain ⟨hlist, hclosed, hadded, hnone⟩ := dispatcher_next_eq hqueue hphase
    refine h.dispatch_open h.orderly.next hlist (fun c => hadded _) (fun c => ?_) (by rw [hclosed])
    exact ⟨fun heq => absurd heq (hnone c), fun heq => absurd heq (hphase _)⟩
  split
  next hphase =>
    split
    next c rest hqueue => exact h.finalise hphase hqueue
    next hnot =>
      apply hidle
      · exact fun _ c rest hq => hnot c rest hq
      · simp [hphase]
  next c hphase =>
    apply h.releaseCur hphase
    intro x
    show Function.update s.ref c (s.ref c - 1) x = _
    by_cases hx : x = c
    · simp [hx]
    · simp [Function.update_of_ne hx, Ne.symm hx]
  next hdraining hsome =>
    by_cases hfin : s.dispatcher.phase = .finalizing none
    · apply h.releaseCur hfin
      simp
    · apply hidle
      · exact fun hd => absurd hd hdraining
      · intro o
        cases o with
        | none => exact hfin
        | some c => exact hsome c

end GateServer

end Jengine.Gateway
