import Jengine.Dbo.PoolMoves

/-!
# The lists of the pool in every step

Every step keeps the invariant of the three lists, of those who wait and of the sockets:
a live `RealConnection` is in exactly one list, and in the busy one with the handler of the
`Connection` that holds it.
-/

namespace Jengine.Dbo

open Jengine.Lib

namespace PoolLists

variable {s : PoolLists}

/-! ### The steps -/

/-- The invariant between the steps. -/
structure Inv (s : PoolLists) : Prop where
  listed : Listed s
  phases : s.aborted = false → ∀ r ∈ s.free ++ s.busy, s.phase r = .ok
  settled : ∀ r, (s.reals r).connect = true → s.connectPending r = false
  ready : ∀ r ∈ s.free ++ s.busy, s.connectPending r = false
  closings : ∀ r ∈ s.closing,
    r < s.realCount ∧ (s.reals r).connect = false ∧ (s.reals r).closed = true

theorem inv_constructed (poolSize : Nat) : Inv (constructed poolSize) where
  listed := listed_constructed poolSize
  phases := nofun
  settled := fun _ _ => rfl
  ready := nofun
  closings := nofun

theorem Inv.of_quiet (h : Inv s) {t : PoolLists} (hlisted : Listed t) (hquiet : Quiet s t)
    (hrun : t.aborted = false → s.aborted = false) : Inv t := by
  refine ⟨hlisted, ?_, ?_, ?_, ?_⟩
  · intro ht r hr
    rw [hquiet.phase]
    exact h.phases (hrun ht) r (hquiet.ready r hr)
  · intro r hr
    rw [hquiet.connect] at hr
    rw [hquiet.connectPending]
    exact h.settled r hr
  · intro r hr
    rw [hquiet.connectPending]
    exact h.ready r (hquiet.ready r hr)
  · intro r hr
    rw [hquiet.closing] at hr
    rw [hquiet.realCount, hquiet.connect, hquiet.closed]
    exact h.closings r hr

/-- Some `RealConnection`s are taken out of the lists. -/
theorem Inv.of_sublist (h : Inv s) {pending free busy closing : List Nat}
    (hlisted : Listed { s with pending := pending, free := free, busy := busy })
    (hready : ∀ r ∈ free ++ busy, r ∈ s.free ++ s.busy) (hclosing : ∀ r ∈ closing, r ∈ s.closing) :
    Inv { s with pending := pending, free := free, busy := busy, closing := closing } where
  listed := { hlisted with }
  phases := fun hrun r hr => h.phases hrun r (hready r hr)
  settled := h.settled
  ready := fun r hr => h.ready r (hready r hr)
  closings := fun r hr => h.closings r (hclosing r hr)

/-- One socket changes. -/
theorem Inv.setReal (h : Inv s) (r : Nat) (real : RealConnection)
    (hdata : real.dataHandler = (s.reals r).dataHandler)
    (hlive : (real.connect = true ∨ s.connectPending r = true ∧ real.closed = false) →
      r ∈ s.lists)
    (hconnect : real.connect = true → s.connectPending r = false)
    (hclosing : r ∈ s.closing → real.connect = false ∧ real.closed = true) :
    Inv (s.setReal r real) := by
  refine ⟨h.listed.setReal r real hdata hlive, h.phases, ?_, h.ready, ?_⟩
  · intro r' hr'
    simp only [PoolLists.setReal] at hr'
    by_cases heq : r' = r
    · subst heq
      rw [Function.update_self] at hr'
      exact hconnect hr'
    · rw [Function.update_of_ne heq] at hr'
      exact h.settled r' hr'
  · intro r' hr'
    refine ⟨(h.closings r' hr').1, ?_⟩
    simp only [PoolLists.setReal]
    by_cases heq : r' = r
    · subst heq
      rw [Function.update_self]
      exact hclosing hr'
    · rw [Function.update_of_ne heq]
      exact (h.closings r' hr').2

theorem Inv.connectPending_false (h : Inv s) (r : Nat) :
    Inv { s with connectPending := Function.update s.connectPending r false } := by
  have hless : ∀ r', s.connectPending r' = false →
      Function.update s.connectPending r false r' = false := by
    intro r' hr'
    by_cases heq : r' = r
    · subst heq
      rw [Function.update_self]
    · rw [Function.update_of_ne heq]
      exact hr'
  refine ⟨?_, h.phases, ?_, ?_, h.closings⟩
  · refine h.listed.recast s.reals _ (fun _ => rfl) ?_
    intro r' hr'
    refine h.listed.live r' (hr'.imp_right ?_)
    rintro ⟨hpending, hclosed⟩
    refine ⟨?_, hclosed⟩
    cases hold : s.connectPending r' with
    | true => rfl
    | false =>
      rw [hless r' hold] at hpending
      cases hpending
  · exact fun r' hr' => hless r' (h.settled r' hr')
  · exact fun r' hr' => hless r' (h.ready r' hr')

theorem Inv.onConnectFail (h : Inv s) {r : Nat} (hconnect : (s.reals r).connect = false) :
    Inv (s.onConnectFail r) := by
  have hclosed := h.setReal r { s.reals r with closed := true } rfl
    (by
      rintro (hlive | ⟨-, hlive⟩)
      · exact h.listed.live r (.inl hlive)
      · cases hlive)
    (h.settled r) (fun hr => ⟨(h.closings r hr).2.1, rfl⟩)
  exact ⟨h.listed.onConnectFail hconnect, hclosed.phases, hclosed.settled, hclosed.ready,
    hclosed.closings⟩

theorem Inv.newConnection (h : Inv s) (hroom : s.lists.length < s.poolSize) :
    Inv s.newConnection := by
  have hold : ∀ r ∈ s.free ++ s.busy, r ≠ s.realCount := by
    rintro r hr rfl
    refine Nat.lt_irrefl _ (h.listed.made _ ?_)
    unfold lists
    rw [List.append_assoc]
    exact List.mem_append_right _ hr
  refine ⟨h.listed.newConnection hroom, ?_, ?_, ?_, ?_⟩
  · intro hrun r hr
    exact (Function.update_of_ne (hold r hr) _ _).trans (h.phases hrun r hr)
  · intro r hr
    unfold PoolLists.newConnection at hr ⊢
    by_cases heq : r = s.realCount
    · subst heq
      exact Function.update_self _ _ _
    · simp only [Function.update_of_ne heq] at hr ⊢
      exact h.settled r hr
  · intro r hr
    exact (Function.update_of_ne (hold r hr) _ _).trans (h.ready r hr)
  · intro r hr
    obtain ⟨hlt, hclosing⟩ := h.closings r hr
    refine ⟨Nat.lt_succ_of_lt hlt, ?_⟩
    unfold PoolLists.newConnection
    dsimp only
    rw [Function.update_of_ne (Nat.ne_of_lt hlt)]
    exact hclosing

theorem Inv.createNewConnection (h : Inv s) (hroom : s.lists.length < s.poolSize)
    (result : ConnectResult) : Inv (s.createNewConnection result) := by
  have hnew := h.newConnection hroom
  have hlisted := h.listed.createNewConnection hroom result
  have hclosing : s.realCount ∉ s.closing := fun hr => Nat.lt_irrefl _ (h.closings _ hr).1
  have hmem : s.realCount ∈ s.newConnection.lists :=
    List.mem_append_left _ (List.mem_append_left _ (List.mem_append_right _ (List.mem_singleton_self _)))
  cases result with
  | connected =>
      refine hnew.setReal s.realCount _ rfl (fun _ => hmem) (fun _ => ?_) fun hr => absurd hr hclosing
      exact Function.update_self _ _ _
  | inProgress =>
      refine ⟨hlisted, hnew.phases, ?_, ?_, hnew.closings⟩
      · intro r hr
        unfold PoolLists.createNewConnection at hr ⊢
        by_cases heq : r = s.realCount
        · subst heq
          simp [PoolLists.newConnection] at hr
        · exact (Function.update_of_ne heq _ _).trans (hnew.settled r hr)
      · intro r hr
        have hne : r ≠ s.realCount := by
          rintro rfl
          refine Nat.lt_irrefl _ (h.listed.made s.realCount ?_)
          unfold lists
          rw [List.append_assoc]
          exact List.mem_append_right _ hr
        exact (Function.update_of_ne hne _ _).trans (hnew.ready r hr)
  | refused => exact hnew.onConnectFail (by simp [PoolLists.newConnection])

theorem Inv.createNewConnections (h : Inv s) (results : Nat → ConnectResult) {n : Nat}
    (hroom : s.lists.length + n ≤ s.poolSize) :
    Inv (PoolLists.createNewConnections results n s) := by
  induction n generalizing s with
  | zero => exact h
  | succ n ih =>
      obtain ⟨hlength, hsize⟩ := createNewConnection_length s (results s.realCount)
      refine ih (h.createNewConnection (by omega) _) ?_
      rw [hsize]
      omega

theorem inv_setup (poolSize : Nat) (results : Nat → ConnectResult) :
    Inv (setup poolSize results) :=
  (inv_constructed poolSize).createNewConnections results (by simp [constructed, lists,
    RealConnectionPool.start])

theorem Inv.checkCreateMore (h : Inv s) (results : Nat → ConnectResult) :
    Inv (s.checkCreateMore results) := by
  refine h.createNewConnections results ?_
  have hbounded := h.listed.bounded
  simp only [lists, List.length_append] at hbounded ⊢
  omega

theorem Quiet.of_same {t : RealConnectionPool} (h : SameLinks s.toRealConnectionPool t) :
    Quiet s { s with toRealConnectionPool := t } :=
  ⟨h.realCount, rfl, rfl, rfl, h.connect, h.closed, fun r hr => by rwa [h.free, h.busy] at hr⟩

theorem Inv.onStatement (h : Inv s) (hrun : s.aborted = false) (c : Nat)
    {f : RealConnectionPool → RealConnectionPool} (hf : ∀ s, SameLinks s (f s)) :
    Inv (s.onStatement c f) := by
  unfold PoolLists.onStatement
  split
  · exact h.of_quiet (h.listed.of_same (hf _)) (.of_same (hf _)) fun _ => hrun
  · exact h

theorem Inv.checkIfConnectCompleted (h : Inv s) {r : Nat} (hpending : s.connectPending r = true)
    (hopen : (s.reals r).closed = false) (ok : Bool) : Inv (s.checkIfConnectCompleted r ok) := by
  have hdone := h.connectPending_false r
  unfold PoolLists.checkIfConnectCompleted
  dsimp only
  split
  · refine hdone.setReal r _ rfl (fun _ => h.listed.live r (.inr ⟨hpending, hopen⟩))
      (fun _ => Function.update_self _ _ _) ?_
    intro hr
    exact absurd ((h.closings r hr).2.2.symm.trans hopen) (by decide)
  · refine hdone.onConnectFail ?_
    cases hconnect : (s.reals r).connect with
    | false => rfl
    | true =>
      rw [h.settled r hconnect] at hpending
      cases hpending

theorem Inv.close (h : Inv s) (r : Nat) : Inv (s.setReal r { s.reals r with closed := true }) := by
  refine h.setReal r _ rfl ?_ (h.settled r) fun hr => ⟨(h.closings r hr).2.1, rfl⟩
  rintro (hlive | ⟨-, hlive⟩)
  · exact h.listed.live r (.inl hlive)
  · cases hlive

theorem Inv.onEventIOClose (h : Inv s) {r : Nat} (hclosed : (s.reals r).closed = true)
    (hconnect : (s.reals r).connect = true) : Inv (s.onEventIOClose r) := by
  have hset := h.setReal r { s.reals r with connect := false } rfl
    (by
      rintro (hlive | ⟨-, hlive⟩)
      · cases hlive
      · rw [hclosed] at hlive
        cases hlive)
    nofun (fun _ => ⟨rfl, hclosed⟩)
  refine ⟨{ hset.listed with }, hset.phases, hset.settled, hset.ready, ?_⟩
  intro r' hr'
  rcases List.mem_cons.mp hr' with rfl | hr'
  · refine ⟨h.listed.made r' (h.listed.live r' (.inl hconnect)), ?_⟩
    simp [PoolLists.onEventIOClose, PoolLists.setReal, hclosed]
  · exact hset.closings r' hr'

theorem Inv.onClose (h : Inv s) {r : Nat} (hr : r ∈ s.closing) : Inv (s.onClose r) := by
  obtain ⟨-, hconnect, hclosed⟩ := h.closings r hr
  have hdead : ∀ r', s.Live r' → decide (r' ≠ r) = true := by
    intro r' hlive
    refine decide_eq_true ?_
    rintro rfl
    simp [Live, hconnect, hclosed] at hlive
  refine h.of_sublist (h.listed.filter (fun r' _ => hdead r') (fun r' _ => hdead r')
    fun r' _ => hdead r') ?_ fun r' hr' => List.mem_of_mem_filter hr'
  intro r' hr'
  exact (List.filter_sublist.append List.filter_sublist).subset hr'

theorem Inv.cleanup (h : Inv s) : Inv s.cleanup := by
  have hreal : ∀ r, (if r ∈ s.pending ++ s.free then { s.reals r with closed := true }
        else s.reals r).connect = (s.reals r).connect ∧
      (if r ∈ s.pending ++ s.free then { s.reals r with closed := true }
        else s.reals r).dataHandler = (s.reals r).dataHandler ∧
      ((if r ∈ s.pending ++ s.free then { s.reals r with closed := true }
        else s.reals r).closed = false → (s.reals r).closed = false ∧ r ∉ s.pending ++ s.free) ∧
      ((s.reals r).closed = true → (if r ∈ s.pending ++ s.free then
        { s.reals r with closed := true } else s.reals r).closed = true) := by
    intro r
    split
    · exact ⟨rfl, rfl, nofun, fun _ => rfl⟩
    · rename_i hr
      exact ⟨rfl, rfl, fun hclosed => ⟨hclosed, hr⟩, id⟩
  have hclosed : Listed { s with
      reals := fun r => if r ∈ s.pending ++ s.free then { s.reals r with closed := true }
        else s.reals r } := by
    refine h.listed.recast _ s.connectPending (fun r => (hreal r).2.1) ?_
    rintro r (hlive | ⟨hpending, hlive⟩)
    · rw [(hreal r).1] at hlive
      exact h.listed.live r (.inl hlive)
    · exact h.listed.live r (.inr ⟨hpending, ((hreal r).2.2.1 hlive).1⟩)
  have hdead : ∀ r ∈ s.pending ++ s.free, ({ s with
      reals := fun r => if r ∈ s.pending ++ s.free then { s.reals r with closed := true }
        else s.reals r } : PoolLists).Live r → (s.reals r).connect = true := by
    rintro r hr (hlive | ⟨-, hlive⟩)
    · exact (hreal r).1.symm.trans hlive
    · exact absurd hr ((hreal r).2.2.1 hlive).2
  have hfiltered := hclosed.filter (p := fun r => (s.reals r).connect)
    (q := fun r => (s.reals r).connect) (b := fun _ => true)
    (fun r hr => hdead r (List.mem_append_left _ hr))
    (fun r hr => hdead r (List.mem_append_right _ hr)) (fun _ _ _ => rfl)
  rw [List.filter_true] at hfiltered
  refine ⟨?_, ?_, ?_, ?_, ?_⟩
  · have hsub : (s.assigned.map Assignment.conn ++ []).Sublist
        (s.assigned.map Assignment.conn ++ s.aquireList) :=
      (List.Sublist.refl _).append (List.nil_sublist _)
    exact { hfiltered with
      queued := nofun
      ordered := h.listed.ordered.sublist hsub
      asked := fun c hc => h.listed.asked c (hsub.subset hc) }
  · exact fun hrun r hr => h.phases hrun r ((List.filter_sublist.append (.refl _)).subset hr)
  · exact fun r hr => h.settled r ((hreal r).1.symm.trans hr)
  · exact fun r hr => h.ready r ((List.filter_sublist.append (.refl _)).subset hr)
  · intro r hr
    obtain ⟨hlt, hconnect, hclosed'⟩ := h.closings r hr
    exact ⟨hlt, (hreal r).1.trans hconnect, (hreal r).2.2.2 hclosed'⟩

theorem Inv.create (h : Inv s) (hrun : s.aborted = false) (results : Nat → ConnectResult) :
    Inv (s.create results) := by
  have hask : Quiet s s.ask := { Quiet.refl s with }
  have hgot := h.of_quiet h.listed.ask.checkAquireList
    (hask.trans (quiet_checkAquireList s.ask)) fun _ => hrun
  unfold PoolLists.create
  dsimp only
  split
  · exact hgot.checkCreateMore results
  · exact hgot

/-- The phase of a free or busy one is another one. -/
theorem Inv.pending_of_receives (h : Inv s) (hrun : s.aborted = false) {r : Nat}
    (hreceives : s.Receives r .handshakeResponse) : r ∈ s.pending := by
  have hmem := h.listed.live r (.inl hreceives.1)
  unfold lists at hmem
  rw [List.append_assoc] at hmem
  rcases List.mem_append.mp hmem with hmem | hmem
  · exact hmem
  · have hphase := (h.phases hrun r hmem).symm.trans hreceives.2
    cases hphase

theorem Inv.handleAuthResponse (h : Inv s) (hrun : s.aborted = false) {r : Nat}
    (hreceives : s.Receives r .handshakeResponse) (flag : UInt8) :
    Inv (s.handleAuthResponse r flag) := by
  unfold PoolLists.handleAuthResponse
  split
  · have hconnecting := h.settled r hreceives.1
    have hpending := h.pending_of_receives hrun hreceives
    have hlisted := (h.listed.pendingToFree hpending).checkAquireList
    have hquiet := quiet_checkAquireList (s.pendingToFree r)
    have hready : ∀ r' ∈ (s.pendingToFree r).checkAquireList.1.free ++
        (s.pendingToFree r).checkAquireList.1.busy, r' = r ∨ r' ∈ s.free ++ s.busy := by
      intro r' hr'
      have hmem := hquiet.ready r' hr'
      simp only [PoolLists.pendingToFree, List.mem_append, List.mem_singleton] at hmem ⊢
      tauto
    have hsettled : ∀ r', ((s.pendingToFree r).checkAquireList.1.reals r').connect = true →
        (s.pendingToFree r).checkAquireList.1.connectPending r' = false := by
      intro r' hr'
      rw [hquiet.connect] at hr'
      rw [hquiet.connectPending]
      exact h.settled r' hr'
    have hconnectPending : ∀ r' ∈ (s.pendingToFree r).checkAquireList.1.free ++
        (s.pendingToFree r).checkAquireList.1.busy,
        (s.pendingToFree r).checkAquireList.1.connectPending r' = false := by
      intro r' hr'
      rw [hquiet.connectPending]
      rcases hready r' hr' with rfl | hr'
      · exact hconnecting
      · exact h.ready r' hr'
    have hclosings : ∀ r' ∈ (s.pendingToFree r).checkAquireList.1.closing,
        r' < (s.pendingToFree r).checkAquireList.1.realCount ∧
          ((s.pendingToFree r).checkAquireList.1.reals r').connect = false ∧
          ((s.pendingToFree r).checkAquireList.1.reals r').closed = true := by
      intro r' hr'
      rw [hquiet.closing] at hr'
      rw [hquiet.realCount, hquiet.connect, hquiet.closed]
      exact h.closings r' hr'
    dsimp only
    split
    · refine ⟨{ hlisted with }, ?_, hsettled, hconnectPending, hclosings⟩
      intro _ r' hr'
      dsimp only
      by_cases heq : r' = r
      · subst heq
        rw [Function.update_self]
      · rw [Function.update_of_ne heq, hquiet.phase]
        exact h.phases hrun r' ((hready r' hr').resolve_left heq)
    · exact ⟨{ hlisted with }, nofun, hsettled, hconnectPending, hclosings⟩
  · exact h

/-- The loop neither destroys nor lets wait. -/
theorem checkAquire_conns (n : Nat) (s : PoolLists) :
    (∀ c, ((checkAquire n s).1.conns c).alive = (s.conns c).alive) ∧
      ∀ c ∈ (checkAquire n s).1.aquireList, c ∈ s.aquireList := by
  induction n generalizing s with
  | zero => exact ⟨fun _ => rfl, fun _ hc => hc⟩
  | succ n ih =>
      unfold PoolLists.checkAquire
      split
      next r free c rest hfree hqueue =>
        have hsame := sameLinks_onAquire
          { s.toRealConnectionPool with free := free, aquireList := rest, busy := s.busy ++ [r] } c r
        have halive : ∀ c', (Function.update s.conns c
            { s.conns c with realconn := some r } c').alive = (s.conns c').alive := by
          intro c'
          by_cases heq : c' = c
          · subst heq
            rw [Function.update_self]
          · rw [Function.update_of_ne heq]
        have hgot : ∀ c', ((RealConnectionPool.onAquireRealConnectionSuccess
            { s.toRealConnectionPool with free := free, aquireList := rest, busy := s.busy ++ [r] }
            c r).1.conns c').alive = (s.conns c').alive :=
          fun c' => (hsame.alive c').trans (halive c')
        have hwait : ∀ c' ∈ (RealConnectionPool.onAquireRealConnectionSuccess
            { s.toRealConnectionPool with free := free, aquireList := rest, busy := s.busy ++ [r] }
            c r).1.aquireList, c' ∈ s.aquireList := by
          intro c' hc'
          rw [hsame.aquireList] at hc'
          rw [hqueue]
          exact List.mem_cons_of_mem _ hc'
        dsimp only
        split
        · constructor
          · exact fun c' => ((ih _).1 c').trans (hgot c')
          · exact fun c' hc' => hwait c' ((ih _).2 c' hc')
        · exact ⟨hgot, hwait⟩
      · exact ⟨fun _ => rfl, fun _ hc => hc⟩

/-- A `Connection` that has a `RealConnection` is destroyed. -/
theorem Inv.release (h : Inv s) (hrun : s.aborted = false) {c r : Nat} (hdies : s.Dies c)
    (hreal : (s.conns c).realconn = some r) :
    Inv (((s.dying c).releaseRealConnection r).1.dead c) := by
  have hdata := h.listed.held_eq_some.mp (Connection.held_eq_some.mpr ⟨hdies.1, hreal⟩)
  have hsocket := handler_update s.reals r none
  unfold PoolLists.releaseRealConnection
  split
  · rename_i hconnect
    have hlive : s.Live r := .inl hconnect
    have hbusy : r ∈ s.busy := by
      rcases List.mem_append.mp (h.listed.live r hlive) with hr | hr
      · rw [h.listed.idle r hr] at hdata
        cases hdata
      · exact hr
    have hfreed : Quiet s ((s.dying c).busyToFree r) := by
      refine ⟨rfl, rfl, rfl, rfl, fun r' => (hsocket r').1, fun r' => (hsocket r').2, ?_⟩
      intro r' hr'
      simp only [PoolLists.busyToFree, PoolLists.takeBack, dying, List.mem_append,
        List.mem_singleton, List.mem_filter] at hr'
      rw [List.mem_append]
      rcases hr' with (hr' | rfl) | hr'
      · exact .inl hr'
      · exact .inr hbusy
      · exact .inr hr'.1
    have hlisted := (h.listed.busyToFree hdata hlive).checkAquireList
    have hquiet := hfreed.trans (quiet_checkAquireList ((s.dying c).busyToFree r))
    obtain ⟨halive, hwait⟩ := checkAquire_conns ((s.dying c).busyToFree r).aquireList.length
      ((s.dying c).busyToFree r)
    refine h.of_quiet (hlisted.dead ?_ ?_) (hquiet.trans { Quiet.refl _ with }) fun _ => hrun
    · exact fun hc => hdies.2 (hwait c hc)
    · refine Connection.held_dead ((halive c).trans ?_)
      simp [PoolLists.busyToFree, PoolLists.takeBack, dying]
  · rename_i hconnect
    have hdead : ¬ s.Live r := by
      rintro (hlive | ⟨hpending, hclosed⟩)
      · exact hconnect hlive
      · -- one that still connects is neither free nor busy
        have hmem := h.listed.live r (.inr ⟨hpending, hclosed⟩)
        unfold lists at hmem
        rcases List.mem_append.mp hmem with hmem | hmem
        · rw [h.listed.idle r hmem] at hdata
          cases hdata
        · rw [h.ready r (List.mem_append_right _ hmem)] at hpending
          cases hpending
    have hquiet : Quiet s (((s.dying c).takeBack r).dead c) := by
      refine ⟨rfl, rfl, rfl, rfl, fun r' => (hsocket r').1, fun r' => (hsocket r').2, ?_⟩
      intro r' hr'
      exact ((List.Sublist.refl s.free).append List.filter_sublist).subset hr'
    refine h.of_quiet ((h.listed.takeBack hdata hdead).dead hdies.2 ?_) hquiet fun _ => hrun
    exact Connection.held_dead (by simp [PoolLists.takeBack, dying])

theorem Inv.destroy (h : Inv s) (hrun : s.aborted = false) {c : Nat} (hdies : s.Dies c) :
    Inv (s.destroy c) := by
  unfold PoolLists.destroy
  split
  · rename_i hreal
    have hheld : (s.conns c).held = none := by
      cases hheld : (s.conns c).held with
      | none => rfl
      | some r =>
        have hsome := (Connection.held_eq_some.mp hheld).2
        rw [hreal] at hsome
        cases hsome
    exact h.of_quiet (h.listed.dead hdies.2 hheld) { Quiet.refl s with } fun _ => hrun
  · rename_i r hreal
    have hreleased := h.release hrun hdies hreal
    dsimp only
    split
    · exact hreleased
    · exact ⟨{ hreleased.listed with }, nofun, hreleased.settled, hreleased.ready,
        hreleased.closings⟩

theorem Inv.act (h : Inv s) (hrun : s.aborted = false) (a : Action) : Inv (s.act a) := by
  cases a with
  | connectCompleted r ok =>
      simp only [PoolLists.act]
      split
      · rename_i hcond
        exact h.checkIfConnectCompleted hcond.1 hcond.2 ok
      · exact h
  | handshake r =>
      simp only [PoolLists.act]
      split
      · rename_i hreceives
        refine ⟨{ h.listed with }, ?_, h.settled, h.ready, h.closings⟩
        intro _ r' hr'
        have hne : r' ≠ r := by
          rintro rfl
          have hphase := (h.phases hrun r' hr').symm.trans hreceives.2
          cases hphase
        exact (Function.update_of_ne hne _ _).trans (h.phases hrun r' hr')
      · exact h
  | authResponse r flag =>
      simp only [PoolLists.act]
      split
      · rename_i hreceives
        exact h.handleAuthResponse hrun hreceives flag
      · exact h
  | receive r pktin =>
      simp only [PoolLists.act]
      split
      · have hsame := sameLinks_onReceivePacket s.toRealConnectionPool r pktin
        exact h.of_quiet (h.listed.of_same hsame) (.of_same hsame) fun _ => hrun
      · exact h
  | close r => exact h.close r
  | ioClose r =>
      simp only [PoolLists.act]
      split
      · rename_i hcond
        exact h.onEventIOClose hcond.1 hcond.2
      · exact h
  | poolClose r =>
      simp only [PoolLists.act]
      split
      · rename_i hr
        exact h.onClose hr
      · exact h
  | cleanup => exact h.cleanup
  | create results => exact h.create hrun results
  | createStatement c sql =>
      exact h.onStatement hrun c (f := fun t => t.createStatement c sql _)
        fun t => sameLinks_createStatement t c sql _
  | createPreparedStatement c sql =>
      exact h.onStatement hrun c (f := fun t => t.createStatement c sql _)
        fun t => sameLinks_createStatement t c sql _
  | setParam c => exact h.onStatement hrun c (f := fun t => t.setParam c) fun t => sameLinks_setParam t c
  | execute c => exact h.onStatement hrun c (f := fun t => t.execute c) fun t => sameLinks_execute t c
  | destroy c =>
      simp only [PoolLists.act]
      split
      · rename_i hdies
        exact h.destroy hrun hdies
      · exact h

theorem Inv.step (h : Inv s) (a : Action) : Inv (s.step a) := by
  unfold PoolLists.step
  split
  · exact h
  · rename_i hrun
    exact h.act (Bool.eq_false_iff.mpr hrun) a

/-- What the invariant says about the lists. -/
theorem Inv.right (h : Inv s) (hopened : ∀ x ∈ s.assigned, x.closed = false) : Right s where
  once := fun r hr => List.count_eq_one_of_mem h.listed.nodup (h.listed.live r hr)
  bounded := h.listed.bounded
  alone := fun c c' r hc hc' => Option.some.inj
    ((h.listed.held_eq_some.mp hc).symm.trans (h.listed.held_eq_some.mp hc'))
  handler := by
    intro r hr
    obtain ⟨c, hc⟩ := h.listed.owned r hr
    exact ⟨c, h.listed.held_eq_some.mpr hc, hc⟩
  ordered := h.listed.ordered
  opened := hopened

end PoolLists

end Jengine.Dbo
