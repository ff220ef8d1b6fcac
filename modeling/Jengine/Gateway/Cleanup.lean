import Jengine.Gateway.Holders

/-!
# The cleanup of the gateway

`BeginCleanup` closes the listener and every client, and the callback is called when the
last one has been finalised.  With that, what holds in every state of every run.
-/

namespace Jengine.Gateway

open Jengine.Lib Jengine.Event

namespace GateServer

variable {κ : Type}

/-! ### The cleanup -/

/-- Closing touches the dispatcher only. -/
theorem closeAll_eq (s : GateServer κ) (cs : List Nat) :
    ∃ d, cs.foldl GateServer.close s = { s with dispatcher := d } := by
  induction cs generalizing s with
  | nil => exact ⟨s.dispatcher, rfl⟩
  | cons c cs ih => exact ih (s.close c)

theorem Held.closeAll {s : GateServer κ} (h : Held s) (cs : List Nat) :
    Held (cs.foldl GateServer.close s) := by
  induction cs generalizing s with
  | nil => exact h
  | cons c cs ih => exact ih (h.close c)

theorem stopListener_eq (s : GateServer κ) :
    ∃ d, s.stopListener = { s with dispatcher := d, listener := false } := by
  unfold GateServer.stopListener
  split
  · exact ⟨_, rfl⟩
  next hl =>
    rw [Bool.not_eq_true] at hl
    exact ⟨s.dispatcher, by rw [← hl]⟩

/-- `DisconnectAllSession` closes the clients of all sessions. -/
theorem disconnect_eq (s : GateServer κ) (ps : List Nat) :
    ps.foldl (fun s p => s.close (s.client p)) s =
      (ps.map s.client).foldl GateServer.close s := by
  induction ps generalizing s with
  | nil => rfl
  | cons p ps ih => exact ih (s.close (s.client p))

/-- `BeginCleanup` up to its check; what it closes is closed in the dispatcher only. -/
theorem beginCleanup_eq (s : GateServer κ) (cb : κ) :
    ∃ d, s.beginCleanup cb = checkIfCleanupFinish { s with
      isCleanup := true
      cleanupFinshCb := some cb
      begun := s.begun + 1
      since := 0
      dispatcher := d
      listener := false } := by
  obtain ⟨d, hstop⟩ := stopListener_eq { s with
    isCleanup := true, cleanupFinshCb := some cb, begun := s.begun + 1, since := 0 }
  simp only [GateServer.beginCleanup, hstop]
  obtain ⟨d', hclose⟩ := closeAll_eq { s with
    isCleanup := true
    cleanupFinshCb := some cb
    begun := s.begun + 1
    since := 0
    dispatcher := d
    listener := false } s.clients
  exact ⟨d', by rw [hclose]⟩

/-- `CheckIfCleanupFinish`, if the callback has not been called yet. -/
theorem Finishing.check {s : GateServer κ} (h : Finishing s)
    (hfirst : s.isCleanup = true → s.clients = [] → s.since = 0) :
    Finishing s.checkIfCleanupFinish := by
  unfold checkIfCleanupFinish
  split
  next hdone =>
    have hsince : s.since = 0 := hfirst hdone.1 hdone.2
    have hle := h.invoked_le
    rw [if_pos ⟨hdone.1, hsince⟩] at hle
    split
    next cb hcb =>
      refine ⟨h.stops, fun _ => hdone, ?_, ?_, ?_⟩
      · show s.since + 1 ≤ 1
        omega
      · show (s.invoked ++ [(cb, s.clients.length)]).length +
          (if s.isCleanup = true ∧ s.since + 1 = 0 then 1 else 0) ≤ s.begun
        rw [if_neg (by omega), List.length_append, List.length_singleton]
        omega
      · intro e he
        rcases List.mem_append.mp he with he | he
        · exact h.empty e he
        · rw [List.mem_singleton.mp he, hdone.2]
          rfl
    next => exact h
  next => exact h

theorem Finishing.beginCleanup {s : GateServer κ} (h : Finishing s) (cb : κ) :
    Finishing (s.beginCleanup cb) := by
  obtain ⟨d, hbegin⟩ := beginCleanup_eq s cb
  rw [hbegin]
  apply Finishing.check
  · refine ⟨fun _ => ⟨rfl, cb, rfl⟩, fun hpos => absurd hpos (Nat.lt_irrefl 0), Nat.zero_le _, ?_,
      h.empty⟩
    have hle := h.invoked_le
    show s.invoked.length + (if true = true ∧ 0 = 0 then 1 else 0) ≤ s.begun + 1
    rw [if_pos ⟨rfl, rfl⟩]
    omega
  · exact fun _ _ => rfl

theorem Finishing.accept {s : GateServer κ} (h : Finishing s) (hheld : Held s)
    (hopen : s.dispatcher.registered none) : Finishing s.onListenerAccept := by
  by_cases hroom : s.maxConnections ≤ s.clients.length
  · rw [onListenerAccept, if_pos hroom]
    exact h
  rw [onListenerAccept_eq hroom]
  have hrunning : s.isCleanup = false := by
    by_contra hcleanup
    rw [Bool.not_eq_false] at hcleanup
    exact hopen.2 (hheld.stopped (h.stops hcleanup).1)
  have hsince : s.since = 0 := by
    by_contra hpos
    rw [(h.ended (Nat.pos_of_ne_zero hpos)).1] at hrunning
    cases hrunning
  exact ⟨h.stops, fun hpos => absurd hpos (by simp only [hsince]; omega), h.since_le, h.invoked_le,
    h.empty⟩

theorem Finishing.onEventIOClose {s : GateServer κ} (h : Finishing s) (hheld : Held s) {c : Nat}
    (hc : c ∈ s.clients) : Finishing (s.onEventIOClose c) := by
  obtain ⟨p, hp, hsession, hclient⟩ := hheld.seated c hc
  rw [onEventIOClose_eq hheld hc hp hsession hclient]
  have hsince : s.since = 0 := by
    by_contra hpos
    rw [(h.ended (Nat.pos_of_ne_zero hpos)).2] at hc
    exact absurd hc List.not_mem_nil
  apply Finishing.check
  · exact ⟨h.stops, fun hpos => absurd hpos (by simp only [hsince]; omega), h.since_le,
      h.invoked_le, h.empty⟩
  · exact fun _ _ => hsince

theorem Finishing.next {s : GateServer κ} (h : Finishing s) (hheld : Held s) :
    Finishing s.next := by
  have hsame : Finishing { s with dispatcher := s.dispatcher.next } := { h with }
  unfold GateServer.next
  split
  next hphase =>
    split
    next c rest hqueue =>
      have hlist : some c ∈ s.dispatcher.ioList :=
        hheld.orderly.queue_list _ (hqueue ▸ List.mem_cons_self)
      rcases hheld.known c hlist with hc | hfin
      · exact { h.onEventIOClose hheld hc with }
      · rw [hphase] at hfin
        cases hfin
    next => exact hsame
  next => exact { h with }
  next => exact hsame

theorem step_held {s : GateServer κ} (h : Held s ∧ Finishing s) (a : Action κ) :
    Held (s.step a) ∧ Finishing (s.step a) := by
  obtain ⟨hheld, hfin⟩ := h
  cases a with
  | accept =>
      show Held (if s.dispatcher.registered none then _ else s) ∧ Finishing (if _ then _ else s)
      split
      next hopen => exact ⟨hheld.accept, hfin.accept hheld hopen⟩
      next => exact ⟨hheld, hfin⟩
  | close c => exact ⟨hheld.close c, { hfin with }⟩
  | packet p exits =>
      show Held (if exits = true ∧ p ∈ s.players then _ else s) ∧
        Finishing (if exits = true ∧ p ∈ s.players then _ else s)
      split
      · exact ⟨hheld.close _, { hfin with }⟩
      · exact ⟨hheld, hfin⟩
  | stop =>
      show Held (s.players.foldl _ s.stopListener) ∧ Finishing (s.players.foldl _ s.stopListener)
      rw [disconnect_eq]
      refine ⟨hheld.stopListener.closeAll _, ?_⟩
      obtain ⟨d, hstop⟩ := s.stopListener_eq
      obtain ⟨d', hclose⟩ := closeAll_eq s.stopListener (s.players.map s.stopListener.client)
      rw [hclose, hstop]
      exact { hfin with stops := fun hc => ⟨rfl, (hfin.stops hc).2⟩ }
  | beginCleanup cb =>
      refine ⟨?_, hfin.beginCleanup cb⟩
      have hbegun : Held { s with
          isCleanup := true, cleanupFinshCb := some cb, begun := s.begun + 1, since := 0 } :=
        { hheld with }
      exact (hbegun.stopListener.closeAll _).check
  | wait batch =>
      refine ⟨?_, { hfin with }⟩
      have horderly := hheld.orderly.step (.wait batch) trivial
      show Held { s with dispatcher := s.dispatcher.step (.wait batch) }
      by_cases hframe : s.dispatcher.phase = .frame
      · have hstep : s.dispatcher.step (.wait batch) = { s.dispatcher with
            phase := .handling (batch.filter fun e => s.dispatcher.registered e.obj) } := by
          simp only [Dispatcher.step, hframe]
        rw [hstep] at horderly ⊢
        exact hheld.dispatch_open horderly rfl (fun _ => id) (fun c => by simp [hframe]) Iff.rfl
      · have hstep : s.dispatcher.step (.wait batch) = s.dispatcher := by
          simp only [Dispatcher.step]
        rw [hstep]
        exact hheld
  | next => exact ⟨hheld.next, hfin.next hheld⟩

/-! ### Runs -/

def Action.isBegin : Action κ → Bool
  | .beginCleanup _ => true
  | _ => false

/-- The callback that is called is the last one given, and `since` counts its calls. -/
def Calls (invoked : List (κ × Nat)) (cb : κ) (s : GateServer κ) : Prop :=
  s.cleanupFinshCb = some cb ∧ s.invoked = invoked ++ List.replicate s.since (cb, 0)

theorem Calls.check {s : GateServer κ} {invoked : List (κ × Nat)} {cb : κ}
    (h : Calls invoked cb s) : Calls invoked cb s.checkIfCleanupFinish := by
  obtain ⟨hcb, hinvoked⟩ := h
  unfold checkIfCleanupFinish
  split
  next hdone =>
    split
    next cb' hcb' =>
      obtain rfl : cb' = cb := Option.some.inj (hcb'.symm.trans hcb)
      refine ⟨hcb, ?_⟩
      rw [hinvoked, hdone.2, List.append_assoc, List.replicate_succ']
      rfl
    next => exact ⟨hcb, hinvoked⟩
  next => exact ⟨hcb, hinvoked⟩

theorem Calls.beginCleanup (s : GateServer κ) (cb : κ) :
    Calls s.invoked cb (s.beginCleanup cb) := by
  obtain ⟨d, hbegin⟩ := beginCleanup_eq s cb
  rw [hbegin]
  apply Calls.check
  exact ⟨rfl, (List.append_nil _).symm⟩

theorem Calls.step {s : GateServer κ} {invoked : List (κ × Nat)} {cb : κ}
    (h : Calls invoked cb s) (hheld : Held s) {a : Action κ} (ha : a.isBegin = false) :
    Calls invoked cb (s.step a) := by
  cases a with
  | accept =>
      show Calls invoked cb (if s.dispatcher.registered none then _ else s)
      split
      · by_cases hroom : s.maxConnections ≤ s.clients.length
        · rw [onListenerAccept, if_pos hroom]
          exact h
        · rw [onListenerAccept_eq hroom]
          exact h
      · exact h
  | close c => exact h
  | packet p exits =>
      show Calls invoked cb (if exits = true ∧ p ∈ s.players then _ else s)
      split <;> exact h
  | stop =>
      show Calls invoked cb (s.players.foldl _ s.stopListener)
      rw [disconnect_eq]
      obtain ⟨d, hstop⟩ := s.stopListener_eq
      obtain ⟨d', hclose⟩ := closeAll_eq s.stopListener (s.players.map s.stopListener.client)
      rw [hclose, hstop]
      exact h
  | beginCleanup cb' => cases ha
  | wait batch => exact h
  | next =>
      show Calls invoked cb s.next
      unfold GateServer.next
      split
      next hphase =>
        split
        next c rest hqueue =>
          have hlist : some c ∈ s.dispatcher.ioList :=
            hheld.orderly.queue_list _ (hqueue ▸ List.mem_cons_self)
          rcases hheld.known c hlist with hc | hfin
          · obtain ⟨p, hp, hsession, hclient⟩ := hheld.seated c hc
            rw [onEventIOClose_eq hheld hc hp hsession hclient]
            exact Calls.check h
          · rw [hphase] at hfin
            cases hfin
        next => exact h
      next => exact h
      next => exact h

theorem run_held_aux {s : GateServer κ} (h : Held s ∧ Finishing s) (as : List (Action κ)) :
    Held (run step s as) ∧ Finishing (run step s as) :=
  run_keeps (I := fun t => Held t ∧ Finishing t) (fun _ a ht => step_held ht a) h as

/-- A client of the gateway has one session, and that session is in `players_`. -/
theorem Held.holder {s : GateServer κ} (h : Held s) (c : Nat) :
    (∃ p ∈ s.players, s.client p = c) ↔ c ∈ s.clients := by
  constructor
  · rintro ⟨p, hp, rfl⟩
    exact (h.seats p hp).1
  · intro hc
    obtain ⟨p, hp, -, hclient⟩ := h.seated c hc
    exact ⟨p, hp, hclient⟩

/-- In every state of every run: the number of clients is bounded and the assertion of
    `OnUserClientClose` has not failed; the clients of the gateway and the sessions in
    `players_` point at each other, one to one; a client has a reference for the gateway, one
    for the dispatcher and one for its session, as long as they hold it; and after a call of
    `BeginCleanup`, up to the next one, its callback is called at most once, with no client
    left. -/
theorem run_held (maxConnections : Nat) (as : List (Action κ)) :
    let s := run step (start maxConnections : GateServer κ) as
    (s.clients.Nodup ∧ s.clients.length ≤ s.maxConnections ∧ s.failed = false) ∧
      (∀ c ∈ s.clients, ∃ p, s.session c = some p ∧ s.client p = c ∧ s.players.count p = 1) ∧
      (∀ p ∈ s.players, s.client p ∈ s.clients ∧ s.session (s.client p) = some p) ∧
      (∀ p, 0 < s.sessionRef p ↔ p ∈ s.players) ∧
      (∀ c, s.ref c = (if c ∈ s.clients then 1 else 0) +
        (if some c ∈ s.dispatcher.ioList then 1 else 0) +
        (if ∃ p ∈ s.players, s.client p = c then 1 else 0)) ∧
      (s.invoked.length ≤ s.begun ∧ ∀ e ∈ s.invoked, e.2 = 0) ∧
      ∀ cb bs, (∀ b ∈ bs, Action.isBegin b = false) →
        ∃ k ≤ 1, (run step (s.step (.beginCleanup cb)) bs).invoked =
          s.invoked ++ List.replicate k (cb, 0) := by
  intro s
  obtain ⟨h, hfin⟩ : Held s ∧ Finishing s :=
    run_held_aux ⟨held_start maxConnections, finishing_start maxConnections⟩ as
  refine ⟨⟨h.clients_nodup, h.bound, h.sound⟩, ?_, h.seats, ?_, ?_, ⟨?_, hfin.empty⟩, ?_⟩
  · intro c hc
    obtain ⟨p, hp, hsession, hclient⟩ := h.seated c hc
    exact ⟨p, hsession, hclient, List.count_eq_one_of_mem h.players_nodup hp⟩
  · intro p
    rw [h.sessionRef p]
    split <;> simp [*]
  · intro c
    rw [h.ref c]
    simp only [h.holder c]
    split <;> omega
  · have hle := hfin.invoked_le
    omega
  · intro cb bs hbs
    have hbegun := step_held ⟨h, hfin⟩ (.beginCleanup cb)
    have hcalls : ∀ (t : GateServer κ), Held t ∧ Finishing t → Calls s.invoked cb t →
        Calls s.invoked cb (run step t bs) := by
      clear hbegun
      induction bs with
      | nil => exact fun t _ ht => ht
      | cons b bs ih =>
          intro t hboth ht
          exact ih (fun x hx => hbs x (List.mem_cons_of_mem b hx)) (t.step b) (step_held hboth b)
            (ht.step hboth.1 (hbs b List.mem_cons_self))
    have hend := hcalls _ hbegun (Calls.beginCleanup s cb)
    exact ⟨_, (run_held_aux hbegun bs).2.since_le, hend.2⟩

/-- Two clients are accepted, a third is refused; the first is closed by its peer and then
    by the cleanup, which closes the other one too; the dispatcher finalises everything. -/
def twoClients : List (Action Unit) :=
  [.accept, .accept, .accept, .close 0, .packet 1 false, .wait [⟨some 0, true, false⟩]]

/-- What the cleanup leaves to do: the listener and two clients are finalised. -/
def drain : List (Action Unit) := List.replicate 8 .next

theorem run_held_twoClients :
    (run step (start 2 : GateServer Unit) twoClients).clients = [1, 0] ∧
      (run step ((run step (start 2 : GateServer Unit) twoClients).step (.beginCleanup ()))
        drain).clients = [] ∧
      ∃ k ≤ 1, (run step ((run step (start 2 : GateServer Unit) twoClients).step
        (.beginCleanup ())) drain).invoked =
          (run step (start 2 : GateServer Unit) twoClients).invoked ++ List.replicate k ((), 0) :=
  ⟨by decide, by decide, (run_held 2 twoClients).2.2.2.2.2.2 () drain (by decide)⟩

/-- A second call of `BeginCleanup` calls the callback again. -/
theorem beginCleanup_twice :
    (run step (start 2 : GateServer Unit) [.beginCleanup (), .beginCleanup ()]).invoked =
      [((), 0), ((), 0)] := by
  decide

end GateServer

end Jengine.Gateway
