import Jengine.Dbo.PoolRight
import Jengine.Lib.Runs

/-!
# What the pool hands out

Every step keeps the lists of the pool right but for one thing: it hands out a closed
`RealConnection` exactly if one that is between `Close` and `OnClose` is at the front of the
free list when a `Connection` is created, or is authorized or released while one waits.
Nobody waits while a `RealConnection` is free, so that no step hands out more than one.
-/

namespace Jengine.Dbo

open Jengine.Lib

namespace PoolLists

variable {s : PoolLists}

/-! ### The record -/


theorem Listed.checkAquireList_assigned (h : Listed s) :
    s.checkAquireList.1.assigned = s.assigned ++ s.front :=
  h.assigned_eq rfl

theorem createNewConnections_assigned (results : Nat → ConnectResult) (n : Nat) (s : PoolLists) :
    (createNewConnections results n s).assigned = s.assigned := by
  induction n generalizing s with
  | zero => rfl
  | succ n ih =>
      refine (ih _).trans ?_
      unfold createNewConnection
      cases results s.realCount <;> rfl

/-- `Create` hands out in `CheckAquireList` only. -/
theorem create_assigned (s : PoolLists) (results : Nat → ConnectResult) :
    (s.create results).assigned = s.ask.checkAquireList.1.assigned := by
  unfold create
  dsimp only
  split
  · exact createNewConnections_assigned results _ _
  · rfl

theorem handleAuthResponse_assigned (s : PoolLists) (r : Nat) :
    (s.handleAuthResponse r packetOk).assigned = (s.pendingToFree r).checkAquireList.1.assigned := by
  unfold handleAuthResponse
  rw [if_pos rfl]
  dsimp only
  split <;> rfl

theorem destroy_assigned (s : PoolLists) {c r : Nat} (hreal : (s.conns c).realconn = some r) :
    (s.destroy c).assigned = ((s.dying c).releaseRealConnection r).1.assigned := by
  unfold destroy
  rw [hreal]
  dsimp only
  split <;> rfl

/-- A step that does not call `CheckAquireList` hands out nothing. -/
theorem act_assigned_of_none {a : Action} (hcheck : s.check a = none) :
    (s.act a).assigned = s.assigned := by
  cases a with
  | connectCompleted r ok =>
      simp only [act, checkIfConnectCompleted, onConnectFail]
      split
      · split <;> rfl
      · rfl
  | handshake r | receive r pktin | ioClose r | poolClose r =>
      simp only [act]
      split <;> rfl
  | authResponse r flag =>
      simp only [act]
      split
      · rename_i hreceives
        by_cases hflag : flag = packetOk
        · simp [check, hreceives, hflag] at hcheck
        · rw [handleAuthResponse, if_neg hflag]
      · rfl
  | close r | cleanup => rfl
  | create results => cases hcheck
  | createStatement c sql | createPreparedStatement c sql | setParam c | execute c =>
      simp only [act, onStatement]
      split <;> rfl
  | destroy c =>
      simp only [act]
      split
      · rename_i hdies
        rcases hreal : (s.conns c).realconn with _ | r
        · rw [destroy, hreal]
          rfl
        · rw [destroy_assigned s hreal]
          by_cases hconnect : (s.reals r).connect = true
          · simp [check, hdies, hreal, hconnect] at hcheck
          · have hconnect' : ¬ ((s.dying c).reals r).connect = true := hconnect
            rw [releaseRealConnection, if_neg hconnect']
            rfl
      · rfl

theorem Inv.act_assigned (h : Inv s) (hrun : s.aborted = false) {a : Action} {p : PoolLists}
    (hcheck : s.check a = some p) : (s.act a).assigned = s.assigned ++ p.front := by
  cases a with
  | authResponse r flag =>
      simp only [check] at hcheck
      split at hcheck
      · rename_i hcond
        obtain ⟨hreceives, rfl⟩ := hcond
        obtain rfl := Option.some.inj hcheck
        have hpending := h.pending_of_receives hrun hreceives
        simp only [PoolLists.act]
        rw [if_pos hreceives, handleAuthResponse_assigned]
        exact (h.listed.pendingToFree hpending).checkAquireList_assigned
      · cases hcheck
  | create results =>
      obtain rfl := Option.some.inj hcheck
      exact (create_assigned s results).trans h.listed.ask.checkAquireList_assigned
  | destroy c =>
      simp only [check] at hcheck
      split at hcheck
      · rename_i hdies
        obtain ⟨r, hreal, hcheck⟩ := Option.bind_eq_some_iff.mp hcheck
        split at hcheck
        · rename_i hconnect
          obtain rfl := Option.some.inj hcheck
          have hdata := h.listed.held_eq_some.mp (Connection.held_eq_some.mpr ⟨hdies.1, hreal⟩)
          have hconnect' : ((s.dying c).reals r).connect = true := hconnect
          simp only [PoolLists.act]
          rw [if_pos hdies, destroy_assigned s hreal, releaseRealConnection, if_pos hconnect']
          exact (h.listed.busyToFree hdata (.inl hconnect)).checkAquireList_assigned
        · cases hcheck
      · cases hcheck
  | _ => cases hcheck

/-- A step keeps the lists right exactly if it hands out what is open. -/
theorem Inv.right_step_iff (h : Inv s) (hopened : ∀ x ∈ s.assigned, x.closed = false)
    (a : Action) : Right (s.step a) ↔ s.HandsOpen a := by
  unfold HandsOpen
  rcases hrun : s.aborted with _ | _
  · have hstep : s.step a = s.act a := if_neg (by rw [hrun]; exact Bool.false_ne_true)
    rcases hcheck : s.check a with _ | p
    · have hright : Right (s.act a) := (h.act hrun a).right (by
        rw [act_assigned_of_none hcheck]
        exact hopened)
      rw [hstep]
      exact iff_of_true hright nofun
    · have hassigned := h.act_assigned hrun hcheck
      rw [hstep]
      constructor
      · rintro hright - q hq x hx
        obtain rfl := Option.some.inj hq
        refine hright.opened x ?_
        rw [hassigned]
        exact List.mem_append_right _ hx
      · intro hopen
        refine (h.act hrun a).right ?_
        intro x hx
        rw [hassigned] at hx
        rcases List.mem_append.mp hx with hx | hx
        · exact hopened x hx
        · exact hopen rfl p rfl x hx
  · have hstep : s.step a = s := if_pos hrun
    rw [hstep]
    exact iff_of_true (h.right hopened) nofun

/-! ### Who waits -/

/-- Nobody waits while a `RealConnection` is free. -/
def Drained (s : PoolLists) : Prop := s.free = [] ∨ s.aquireList = []

/-- The loop goes on until one of the two lists is empty. -/
theorem checkAquire_drained (n : Nat) (s : PoolLists) (hn : s.aquireList.length ≤ n)
    (hend : (checkAquire n s).2 = none) : (checkAquire n s).1.Drained := by
  induction n generalizing s with
  | zero => exact .inr (List.length_eq_zero_iff.mp (Nat.le_zero.mp hn))
  | succ n ih =>
      unfold PoolLists.checkAquire at hend ⊢
      split at hend
      next r free c rest hfree hqueue =>
        dsimp only at hend ⊢
        have hsame := sameLinks_onAquire
          { s.toRealConnectionPool with free := free, aquireList := rest, busy := s.busy ++ [r] } c r
        split at hend
        · rename_i hgot
          rw [if_pos hgot]
          refine ih _ ?_ hend
          rw [hqueue, List.length_cons] at hn
          dsimp only
          rw [hsame.aquireList]
          exact Nat.le_of_succ_le_succ hn
        · rename_i hgot
          exact absurd hend hgot
      next hnone =>
        unfold Drained
        rcases hfree : s.free with _ | ⟨r, free⟩
        · exact .inl rfl
        · rcases hqueue : s.aquireList with _ | ⟨c, rest⟩
          · exact .inr rfl
          · exact absurd hqueue (hnone r free c rest hfree)

theorem checkAquireList_drained (s : PoolLists) (hend : s.checkAquireList.2 = none) :
    s.checkAquireList.1.Drained :=
  checkAquire_drained _ s (Nat.le_refl _) hend

theorem createNewConnections_waiting (results : Nat → ConnectResult) (n : Nat) (s : PoolLists) :
    (createNewConnections results n s).free = s.free ∧
      (createNewConnections results n s).aquireList = s.aquireList := by
  induction n generalizing s with
  | zero => exact ⟨rfl, rfl⟩
  | succ n ih =>
      have hone : (s.createNewConnection (results s.realCount)).free = s.free ∧
          (s.createNewConnection (results s.realCount)).aquireList = s.aquireList := by
        unfold createNewConnection
        cases results s.realCount <;> exact ⟨rfl, rfl⟩
      exact ⟨(ih _).1.trans hone.1, (ih _).2.trans hone.2⟩

/-- A new `Connection` has no statement that could throw. -/
theorem Drained.ask_ends (h : s.Drained) : s.ask.checkAquireList.2 = none := by
  unfold PoolLists.checkAquireList
  rcases h with hfree | hqueue
  · have hnone : ∀ n, (checkAquire n s.ask).2 = none := by
      intro n
      cases n with
      | zero => rfl
      | succ n => simp [PoolLists.checkAquire, PoolLists.ask, hfree]
    exact hnone _
  · have hlength : s.ask.aquireList.length = 1 := by simp [PoolLists.ask, hqueue]
    rw [hlength]
    rcases hfree : s.free with _ | ⟨r, free⟩
    · simp [PoolLists.checkAquire, PoolLists.ask, hfree]
    · simp [PoolLists.checkAquire, PoolLists.ask, hfree, hqueue,
        RealConnectionPool.onAquireRealConnectionSuccess]

theorem Drained.of_same (h : s.Drained) {t : PoolLists} (hfree : t.free = s.free)
    (hqueue : t.aquireList = s.aquireList) : t.Drained := by
  unfold Drained
  rw [hfree, hqueue]
  exact h

theorem Drained.onStatement (h : s.Drained) (c : Nat) {f : RealConnectionPool → RealConnectionPool}
    (hf : ∀ s, SameLinks s (f s)) : (s.onStatement c f).Drained := by
  unfold PoolLists.onStatement
  split
  · exact h.of_same (hf _).free (hf _).aquireList
  · exact h

theorem Drained.handleAuthResponse (h : s.Drained) (r : Nat) (flag : UInt8)
    (hrun : (s.handleAuthResponse r flag).aborted = false) :
    (s.handleAuthResponse r flag).Drained := by
  unfold PoolLists.handleAuthResponse at hrun ⊢
  split at hrun
  · rename_i hflag
    rw [if_pos hflag]
    dsimp only at hrun ⊢
    split at hrun
    · rename_i hend
      rw [if_pos hend]
      exact (checkAquireList_drained _ hend).of_same rfl rfl
    · cases hrun
  · rename_i hflag
    rw [if_neg hflag]
    exact h

theorem Drained.destroy (h : s.Drained) (c : Nat) (hrun : (s.destroy c).aborted = false) :
    (s.destroy c).Drained := by
  unfold PoolLists.destroy at hrun ⊢
  split at hrun
  next hreal =>
    exact h.of_same rfl rfl
  next r hreal =>
    dsimp only at hrun ⊢
    split at hrun
    · rename_i hend
      rw [if_pos hend]
      unfold PoolLists.releaseRealConnection at hend ⊢
      split at hend
      · rename_i hconnect
        rw [if_pos hconnect]
        exact (checkAquireList_drained _ hend).of_same rfl rfl
      · rename_i hconnect
        rw [if_neg hconnect]
        exact h.of_same rfl rfl
    · cases hrun

theorem Drained.act (h : s.Drained) (a : Action) (hrun : (s.act a).aborted = false) :
    (s.act a).Drained := by
  cases a with
  | connectCompleted r ok =>
      simp only [PoolLists.act]
      split
      · unfold PoolLists.checkIfConnectCompleted
        dsimp only
        split <;> exact h.of_same rfl rfl
      · exact h
  | handshake r =>
      simp only [PoolLists.act]
      split <;> exact h.of_same rfl rfl
  | authResponse r flag =>
      simp only [PoolLists.act] at hrun ⊢
      split at hrun
      · rename_i hreceives
        rw [if_pos hreceives]
        exact h.handleAuthResponse r flag hrun
      · rename_i hreceives
        rw [if_neg hreceives]
        exact h
  | receive r pktin =>
      simp only [PoolLists.act]
      split
      · have hsame := sameLinks_onReceivePacket s.toRealConnectionPool r pktin
        exact h.of_same hsame.free hsame.aquireList
      · exact h
  | close r => exact h.of_same rfl rfl
  | ioClose r =>
      simp only [PoolLists.act]
      split <;> exact h.of_same rfl rfl
  | poolClose r =>
      simp only [PoolLists.act]
      split
      · refine h.imp_left fun hfree => ?_
        show s.free.filter (· ≠ r) = []
        rw [hfree]
        rfl
      · exact h
  | cleanup => exact .inr rfl
  | create results =>
      have hend := h.ask_ends
      simp only [PoolLists.act, PoolLists.create, if_pos hend]
      obtain ⟨hfree, hqueue⟩ := createNewConnections_waiting results _ s.ask.checkAquireList.1
      exact (checkAquireList_drained _ hend).of_same hfree hqueue
  | createStatement c sql =>
      exact h.onStatement c (f := fun t => t.createStatement c sql _)
        fun t => sameLinks_createStatement t c sql _
  | createPreparedStatement c sql =>
      exact h.onStatement c (f := fun t => t.createStatement c sql _)
        fun t => sameLinks_createStatement t c sql _
  | setParam c => exact h.onStatement c (f := fun t => t.setParam c) fun t => sameLinks_setParam t c
  | execute c => exact h.onStatement c (f := fun t => t.execute c) fun t => sameLinks_execute t c
  | destroy c =>
      simp only [PoolLists.act] at hrun ⊢
      split at hrun
      · rename_i hdies
        rw [if_pos hdies]
        exact h.destroy c hrun
      · rename_i hdies
        rw [if_neg hdies]
        exact h

theorem drained_step (h : s.aborted = false → s.Drained) (a : Action) :
    (s.step a).aborted = false → (s.step a).Drained := by
  unfold PoolLists.step
  split
  · exact h
  · rename_i hrun
    exact (h (Bool.eq_false_iff.mpr hrun)).act a

/-- One has become free. -/
theorem takes_concat (s : RealConnectionPool) {free queue : List Nat} (h : free = [] ∨ queue = [])
    (r : Nat) : s.takes (free ++ [r]) queue = queue.head?.toList.map fun c => (r, c) := by
  cases queue with
  | nil => cases free <;> rfl
  | cons c queue =>
      rw [h.resolve_right (List.cons_ne_nil c queue)]
      simp [RealConnectionPool.takes]

/-- One more waits. -/
theorem takes_ask (s : RealConnectionPool) {free queue : List Nat} (h : free = [] ∨ queue = [])
    (c : Nat) : s.takes free (queue ++ [c]) = free.head?.toList.map fun r => (r, c) := by
  cases free with
  | nil => cases queue <;> rfl
  | cons r free =>
      rw [h.resolve_left (List.cons_ne_nil r free)]
      simp only [RealConnectionPool.takes, List.nil_append]
      cases free <;> simp

/-- What is handed out, by the state before the step. -/
theorem handsOpen_iff (h : s.aborted = false → s.Drained) (a : Action) :
    s.HandsOpen a ↔ s.NoneClosing a := by
  unfold HandsOpen
  cases a with
  | create results =>
      refine forall_congr' fun hrun => ?_
      have htakes := takes_ask s.ask.toRealConnectionPool (h hrun) s.connCount
      have hfront : s.ask.front = (s.ask.takes s.free (s.aquireList ++ [s.connCount])).map
          fun x => ⟨x.1, x.2, (s.reals x.1).closed⟩ := rfl
      rw [htakes] at hfront
      simp only [check, Option.mem_some_iff, forall_eq']
      rw [hfront]
      cases s.free <;> simp
  | authResponse r flag =>
      refine forall_congr' fun hrun => ?_
      have htakes := takes_concat (s.pendingToFree r).toRealConnectionPool (h hrun) r
      have hfront : (s.pendingToFree r).front = ((s.pendingToFree r).takes (s.free ++ [r])
          s.aquireList).map fun x => ⟨x.1, x.2, (s.reals x.1).closed⟩ := rfl
      rw [htakes] at hfront
      simp only [check]
      by_cases hcond : s.Receives r .handshakeResponse ∧ flag = packetOk
      · simp only [if_pos hcond, Option.mem_some_iff, forall_eq', hfront]
        cases s.aquireList <;> simp [hcond.1, hcond.2]
      · rw [if_neg hcond]
        exact iff_of_true nofun fun hreceives hflag => absurd ⟨hreceives, hflag⟩ hcond
  | destroy c =>
      refine forall_congr' fun hrun => ?_
      simp only [check]
      by_cases hdies : s.Dies c
      · rw [if_pos hdies]
        rcases hreal : (s.conns c).realconn with _ | r
        · exact iff_of_true nofun fun _ => nofun
        · have htakes := takes_concat ((s.dying c).busyToFree r).toRealConnectionPool (h hrun) r
          have hfront : ((s.dying c).busyToFree r).front =
              (((s.dying c).busyToFree r).takes (s.free ++ [r]) s.aquireList).map
                fun x => ⟨x.1, x.2, (((s.dying c).busyToFree r).reals x.1).closed⟩ := rfl
          have hclosed : (((s.dying c).busyToFree r).reals r).closed = (s.reals r).closed :=
            (handler_update s.reals r none r).2
          rw [htakes] at hfront
          by_cases hconnect : (s.reals r).connect = true
          · simp only [Option.bind_some, if_pos hconnect, Option.mem_some_iff, forall_eq', hfront]
            cases s.aquireList <;> simp [hdies, hconnect, hclosed]
          · simp only [Option.bind_some, if_neg hconnect]
            exact iff_of_true nofun fun _ r' hr' hconnect' =>
              absurd hconnect' (Option.mem_some_iff.mp hr' ▸ hconnect)
      · rw [if_neg hdies]
        exact iff_of_true nofun fun hdies' => absurd hdies' hdies
  | _ => exact iff_of_true nofun trivial

theorem right_along_iff_of_inv (h : Inv s) (hdrained : s.aborted = false → s.Drained)
    (hopened : ∀ x ∈ s.assigned, x.closed = false) (as : List Action) :
    Along step (fun s a => Right (s.step a)) s as ↔ Along step NoneClosing s as := by
  refine along_congr (I := fun s => Inv s ∧ (s.aborted = false → s.Drained) ∧
    ∀ x ∈ s.assigned, x.closed = false) ?_ ?_ ⟨h, hdrained, hopened⟩ as
  · rintro s a ⟨h, hdrained, hopened⟩
    exact (h.right_step_iff hopened a).trans (handsOpen_iff hdrained a)
  · rintro s a ⟨h, hdrained, -⟩ hright
    exact ⟨h.step a, drained_step hdrained a, hright.opened⟩

theorem setup_assigned (poolSize : Nat) (results : Nat → ConnectResult) :
    (setup poolSize results).assigned = [] :=
  createNewConnections_assigned results poolSize (constructed poolSize)

/-- **After `Setup` and every step of a run the lists of the pool are right, exactly if no
    `RealConnection` is between `Close` and `OnClose` when it is at the front of the free list
    and a `Connection` is created, or when it is authorized or released and one waits.** -/
theorem right_along_iff (poolSize : Nat) (results : Nat → ConnectResult) (as : List Action) :
    (Right (setup poolSize results) ∧
        Along step (fun s a => Right (s.step a)) (setup poolSize results) as) ↔
      Along step NoneClosing (setup poolSize results) as := by
  have hinv := inv_setup poolSize results
  have hopened : ∀ x ∈ (setup poolSize results).assigned, x.closed = false := by
    rw [setup_assigned]
    exact nofun
  have hdrained : (setup poolSize results).Drained :=
    .inr (createNewConnections_waiting results poolSize (constructed poolSize)).2
  rw [right_along_iff_of_inv hinv (fun _ => hdrained) hopened]
  exact and_iff_right (hinv.right hopened)

/-- With one connection: the socket is closed, and its `Connection` is destroyed before the
    dispatcher has called `OnEventIOClose`. -/
def releasedClosed : List Action :=
  [.connectCompleted 0 true, .handshake 0, .authResponse 0 packetOk, .create fun _ => .refused,
    .create fun _ => .refused, .close 0, .destroy 0]

/-- The second `Connection` gets the closed socket. -/
theorem releasedClosed_assigned :
    (run step (setup 1 fun _ => .inProgress) releasedClosed).assigned =
        [⟨0, 0, false⟩, ⟨0, 1, true⟩] ∧
      ¬ (Right (setup 1 fun _ => .inProgress) ∧
        Along step (fun s a => Right (s.step a)) (setup 1 fun _ => .inProgress)
          releasedClosed) := by
  refine ⟨by decide, ?_⟩
  rintro ⟨-, -, -, -, -, -, -, hright, -⟩
  have hopened := hright.opened ⟨0, 1, true⟩ (by decide)
  cases hopened

end PoolLists

end Jengine.Dbo
