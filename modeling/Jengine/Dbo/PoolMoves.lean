import Jengine.Dbo.PoolLists
import Mathlib.Data.List.Nodup
import Mathlib.Data.List.Perm.Subperm

/-!
# Moves between the lists

What each operation of the pool does to the three lists, to the list of those who wait
and to the links between the `RealConnection`s and the `Connection`s.  `Listed` also
holds inside `CheckAquireList`, where a `RealConnection` may be free before its phase
says that it is authorized.
-/

namespace Jengine.Dbo

open Jengine.Lib

namespace PoolLists

/-! ### Statements -/

/-- A step of a statement changes neither the lists nor who has which `RealConnection`. -/
structure SameLinks (s t : RealConnectionPool) : Prop where
  realCount : t.realCount = s.realCount
  connCount : t.connCount = s.connCount
  free : t.free = s.free
  busy : t.busy = s.busy
  aquireList : t.aquireList = s.aquireList
  connect : ∀ r, (t.reals r).connect = (s.reals r).connect
  closed : ∀ r, (t.reals r).closed = (s.reals r).closed
  dataHandler : ∀ r, (t.reals r).dataHandler = (s.reals r).dataHandler
  alive : ∀ c, (t.conns c).alive = (s.conns c).alive
  realconn : ∀ c, (t.conns c).realconn = (s.conns c).realconn

theorem SameLinks.refl (s : RealConnectionPool) : SameLinks s s :=
  ⟨rfl, rfl, rfl, rfl, rfl, fun _ => rfl, fun _ => rfl, fun _ => rfl, fun _ => rfl, fun _ => rfl⟩

theorem SameLinks.held {s t : RealConnectionPool} (h : SameLinks s t) (c : Nat) :
    (t.conns c).held = (s.conns c).held := by
  unfold Connection.held
  rw [h.alive, h.realconn]

theorem sameLinks_setStmt (s : RealConnectionPool) (c : Nat) (cur : Option StatementBase)
    (stmtCount : Nat) :
    SameLinks s { s with
      conns := Function.update s.conns c { s.conns c with curStmt := cur }
      stmtCount := stmtCount } :=
  { SameLinks.refl s with
    alive := fun c' => (RealConnectionPool.curStmt_update s.conns c cur c').1
    realconn := fun c' => (RealConnectionPool.curStmt_update s.conns c cur c').2 }

theorem sameLinks_leave {s : RealConnectionPool} {c r : Nat} {call : Call}
    (hconnect : call.real.connect = (s.reals r).connect)
    (hclosed : call.real.closed = (s.reals r).closed)
    (hdata : call.real.dataHandler = (s.reals r).dataHandler) : SameLinks s (s.leave c r call) := by
  have hreal : ∀ r', (Function.update s.reals r call.real r').connect = (s.reals r').connect ∧
      (Function.update s.reals r call.real r').closed = (s.reals r').closed ∧
      (Function.update s.reals r call.real r').dataHandler = (s.reals r').dataHandler := by
    intro r'
    by_cases hr : r' = r
    · subst hr
      rw [Function.update_self]
      exact ⟨hconnect, hclosed, hdata⟩
    · rw [Function.update_of_ne hr]
      exact ⟨rfl, rfl, rfl⟩
  constructor
  case connect => exact fun r' => (hreal r').1
  case closed => exact fun r' => (hreal r').2.1
  case dataHandler => exact fun r' => (hreal r').2.2
  case alive => exact fun c' => (RealConnectionPool.curStmt_update s.conns c _ c').1
  case realconn => exact fun c' => (RealConnectionPool.curStmt_update s.conns c _ c').2
  all_goals rfl

theorem sameLinks_onAquire (s : RealConnectionPool) (c r : Nat) :
    SameLinks (s.attach c r) (s.onAquireRealConnectionSuccess c r).1 := by
  unfold RealConnectionPool.onAquireRealConnectionSuccess
  split
  · exact .refl _
  next st _ =>
    obtain ⟨hconnect, hclosed, hdata, -, -⟩ :=
      StatementBase.callRealExecute_keeps ((s.attach c r).reals r) st
    exact sameLinks_leave hconnect hclosed hdata

theorem sameLinks_createStatement (s : RealConnectionPool) (c : Nat) (sql : String) (kind : Kind) :
    SameLinks s (s.createStatement c sql kind) := by
  unfold RealConnectionPool.createStatement
  split
  · exact sameLinks_setStmt s c _ _
  · exact .refl s

theorem sameLinks_setParam (s : RealConnectionPool) (c : Nat) : SameLinks s (s.setParam c) := by
  unfold RealConnectionPool.setParam
  split
  · exact .refl s
  · exact sameLinks_setStmt s c _ _

theorem sameLinks_execute (s : RealConnectionPool) (c : Nat) : SameLinks s (s.execute c) := by
  unfold RealConnectionPool.execute
  split
  · exact .refl s
  split
  · exact { SameLinks.refl s with }
  split
  · exact sameLinks_setStmt s c _ _
  next st _ _ r _ =>
    obtain ⟨hconnect, hclosed, hdata, -, -⟩ := StatementBase.callRealExecute_keeps (s.reals r) st
    exact sameLinks_leave hconnect hclosed hdata

theorem sameLinks_onReceivePacket (s : RealConnectionPool) (r : Nat) (pktin : PacketIn) :
    SameLinks s (s.onReceivePacket r pktin) := by
  unfold RealConnectionPool.onReceivePacket
  split
  · exact .refl s
  split
  · exact .refl s
  next st _ =>
    obtain ⟨hconnect, hclosed, hdata, -⟩ :=
      StatementBase.handleRawResponse_keeps (s.reals r) st pktin
    exact sameLinks_leave hconnect hclosed hdata

/-! ### The invariant -/

structure Listed (s : PoolLists) : Prop where
  nodup : s.lists.Nodup
  bounded : s.lists.length ≤ s.poolSize
  made : ∀ r ∈ s.lists, r < s.realCount
  live : ∀ r, s.Live r → r ∈ s.lists
  idle : ∀ r ∈ s.pending ++ s.free, (s.reals r).dataHandler = none
  owned : ∀ r ∈ s.busy, ∃ c, (s.reals r).dataHandler = some c
  matched : Matched (fun r => (s.reals r).dataHandler) fun c => (s.conns c).held
  queued : ∀ c ∈ s.aquireList, (s.conns c).alive = true ∧ (s.conns c).realconn = none
  ordered : (s.assigned.map (·.conn) ++ s.aquireList).Pairwise (· < ·)
  asked : ∀ c ∈ s.assigned.map (·.conn) ++ s.aquireList, c < s.connCount
  unmade : ∀ r, s.realCount ≤ r → (s.reals r).dataHandler = none ∧ ¬ s.Live r
  unborn : ∀ c, s.connCount ≤ c → (s.conns c).alive = false

variable {s : PoolLists}

theorem listed_constructed (poolSize : Nat) : Listed (constructed poolSize) where
  nodup := List.nodup_nil
  bounded := Nat.zero_le _
  made := nofun
  live := by rintro r (h | ⟨h, -⟩) <;> cases h
  idle := nofun
  owned := nofun
  matched := fun r c => by
    simp [constructed, RealConnectionPool.start, RealConnection.authorized, Connection.held]
  queued := nofun
  ordered := List.Pairwise.nil
  asked := nofun
  unmade := by
    refine fun r _ => ⟨rfl, ?_⟩
    rintro (h | ⟨h, -⟩) <;> cases h
  unborn := fun _ _ => rfl

theorem Listed.of_same (h : Listed s) {t : RealConnectionPool}
    (hsame : SameLinks s.toRealConnectionPool t) : Listed { s with toRealConnectionPool := t } := by
  have hlists : ({ s with toRealConnectionPool := t } : PoolLists).lists = s.lists := by
    unfold lists
    rw [hsame.free, hsame.busy]
  have hlive : ∀ r, ({ s with toRealConnectionPool := t } : PoolLists).Live r ↔ s.Live r := by
    intro r
    unfold Live
    rw [hsame.connect, hsame.closed]
  constructor
  · rw [hlists]
    exact h.nodup
  · rw [hlists]
    exact h.bounded
  · rw [hlists, hsame.realCount]
    exact h.made
  · intro r hr
    rw [hlists]
    exact h.live r ((hlive r).mp hr)
  · intro r hr
    rw [hsame.free] at hr
    rw [hsame.dataHandler]
    exact h.idle r hr
  · intro r hr
    rw [hsame.busy] at hr
    rw [hsame.dataHandler]
    exact h.owned r hr
  · intro r c
    dsimp only
    rw [hsame.dataHandler, hsame.held]
    exact h.matched r c
  · intro c hc
    rw [hsame.aquireList] at hc
    rw [hsame.alive, hsame.realconn]
    exact h.queued c hc
  · rw [hsame.aquireList]
    exact h.ordered
  · rw [hsame.aquireList, hsame.connCount]
    exact h.asked
  · intro r hr
    rw [hsame.realCount] at hr
    rw [hsame.dataHandler, hlive]
    exact h.unmade r hr
  · intro c hc
    rw [hsame.connCount] at hc
    rw [hsame.alive]
    exact h.unborn c hc

theorem Listed.held_eq_some (h : Listed s) {c r : Nat} :
    (s.conns c).held = some r ↔ (s.reals r).dataHandler = some c := (h.matched r c).symm

/-- Where a `RealConnection` is does not depend on where the others are. -/
theorem Listed.apart (h : Listed s) :
    s.pending.Nodup ∧ s.free.Nodup ∧ s.busy.Nodup ∧
      (∀ r ∈ s.pending, r ∉ s.free ∧ r ∉ s.busy) ∧ ∀ r ∈ s.free, r ∉ s.busy := by
  have hnodup := h.nodup
  unfold lists at hnodup
  rw [List.nodup_append, List.nodup_append] at hnodup
  obtain ⟨⟨hpending, hfree, hpf⟩, hbusy, hb⟩ := hnodup
  refine ⟨hpending, hfree, hbusy, ?_, ?_⟩
  · exact fun r hr => ⟨fun hr' => hpf r hr r hr' rfl,
      fun hr' => hb r (List.mem_append_left _ hr) r hr' rfl⟩
  · exact fun r hr hr' => hb r (List.mem_append_right _ hr) r hr' rfl

/-- The sockets change, the lists do not. -/
theorem Listed.recast (h : Listed s) (reals : Nat → RealConnection)
    (connectPending : Nat → Bool)
    (hdata : ∀ r, (reals r).dataHandler = (s.reals r).dataHandler)
    (hlive : ∀ r, ((reals r).connect = true ∨ connectPending r = true ∧ (reals r).closed = false) →
      r ∈ s.lists) :
    Listed { s with reals := reals, connectPending := connectPending } := by
  refine { h with live := hlive, idle := ?_, owned := ?_, matched := ?_, unmade := ?_ }
  · exact fun r hr => (hdata r).trans (h.idle r hr)
  · intro r hr
    dsimp only
    rw [hdata]
    exact h.owned r hr
  · intro r c
    dsimp only
    rw [hdata]
    exact h.matched r c
  · intro r hr
    refine ⟨(hdata r).trans (h.unmade r hr).1, ?_⟩
    intro hlive'
    exact absurd (h.made r (hlive r hlive')) (Nat.not_lt.mpr hr)

/-- One socket changes. -/
theorem Listed.setReal (h : Listed s) (r : Nat) (real : RealConnection)
    (hdata : real.dataHandler = (s.reals r).dataHandler)
    (hlive : (real.connect = true ∨ s.connectPending r = true ∧ real.closed = false) →
      r ∈ s.lists) : Listed (s.setReal r real) := by
  refine h.recast (Function.update s.reals r real) s.connectPending ?_ ?_
  · exact congrFun (RealConnectionPool.dataHandler_kept hdata)
  · intro r' hr'
    by_cases hr : r' = r
    · subst hr
      rw [Function.update_self] at hr'
      exact hlive hr'
    · rw [Function.update_of_ne hr] at hr'
      exact h.live r' hr'

/-- Only what is not live is taken out. -/
theorem Listed.filter (h : Listed s) {p q b : Nat → Bool}
    (hp : ∀ r ∈ s.pending, s.Live r → p r = true) (hq : ∀ r ∈ s.free, s.Live r → q r = true)
    (hb : ∀ r ∈ s.busy, s.Live r → b r = true) :
    Listed { s with
      pending := s.pending.filter p, free := s.free.filter q, busy := s.busy.filter b } := by
  have hsub : (s.pending.filter p ++ s.free.filter q ++ s.busy.filter b).Sublist s.lists :=
    (List.filter_sublist.append List.filter_sublist).append List.filter_sublist
  refine { h with nodup := ?_, bounded := ?_, made := ?_, live := ?_, idle := ?_, owned := ?_ }
  · exact h.nodup.sublist hsub
  · exact Nat.le_trans hsub.length_le h.bounded
  · exact fun r hr => h.made r (hsub.subset hr)
  · intro r hr
    have hmem := h.live r hr
    simp only [lists, List.mem_append, List.mem_filter] at hmem ⊢
    rcases hmem with (hmem | hmem) | hmem
    · exact .inl (.inl ⟨hmem, hp r hmem hr⟩)
    · exact .inl (.inr ⟨hmem, hq r hmem hr⟩)
    · exact .inr ⟨hmem, hb r hmem hr⟩
  · exact fun r hr => h.idle r ((List.filter_sublist.append List.filter_sublist).subset hr)
  · exact fun r hr => h.owned r (List.mem_of_mem_filter hr)

/-- The lists hold what they held, each once. -/
theorem Listed.relist (h : Listed s) {pending free busy : List Nat}
    (hnodup : (pending ++ free ++ busy).Nodup)
    (hsame : ∀ r, r ∈ pending ++ free ++ busy ↔ r ∈ s.lists)
    (hidle : ∀ r ∈ pending ++ free, (s.reals r).dataHandler = none)
    (howned : ∀ r ∈ busy, ∃ c, (s.reals r).dataHandler = some c) :
    Listed { s with pending := pending, free := free, busy := busy } where
  nodup := hnodup
  bounded := Nat.le_trans (hnodup.subperm fun r hr => (hsame r).mp hr).length_le h.bounded
  made := fun r hr => h.made r ((hsame r).mp hr)
  live := fun r hr => (hsame r).mpr (h.live r hr)
  idle := hidle
  owned := howned
  matched := h.matched
  queued := h.queued
  ordered := h.ordered
  asked := h.asked
  unmade := h.unmade
  unborn := h.unborn

/-! ### New connections -/

theorem Listed.newConnection (h : Listed s) (hroom : s.lists.length < s.poolSize) :
    Listed s.newConnection := by
  have hfresh : s.realCount ∉ s.lists := fun hr => Nat.lt_irrefl _ (h.made _ hr)
  have hperm : ((s.pending ++ [s.realCount]) ++ s.free ++ s.busy).Perm (s.realCount :: s.lists) := by
    unfold lists
    rw [List.append_assoc, List.append_assoc, List.singleton_append, List.append_assoc]
    exact List.perm_middle
  have hdata : ∀ r, (s.newConnection.reals r).dataHandler = (s.reals r).dataHandler :=
    congrFun (RealConnectionPool.dataHandler_kept (h.unmade s.realCount (Nat.le_refl _)).1.symm)
  have hlive : ∀ r, s.newConnection.Live r → s.Live r := by
    intro r hr
    unfold Live PoolLists.newConnection at hr
    by_cases heq : r = s.realCount
    · subst heq
      simp at hr
    · simp only [Function.update_of_ne heq] at hr
      exact hr
  constructor
  · exact hperm.nodup_iff.mpr (List.nodup_cons.mpr ⟨hfresh, h.nodup⟩)
  · exact Nat.le_trans (Nat.le_of_eq hperm.length_eq) hroom
  · intro r hr
    rcases List.mem_cons.mp (hperm.mem_iff.mp hr) with rfl | hr
    · exact Nat.lt_succ_self _
    · exact Nat.lt_succ_of_lt (h.made r hr)
  · exact fun r hr => hperm.mem_iff.mpr (List.mem_cons_of_mem _ (h.live r (hlive r hr)))
  · intro r hr
    rw [hdata]
    rcases List.mem_append.mp hr with hr | hr
    · rcases List.mem_append.mp hr with hr | hr
      · exact h.idle r (List.mem_append_left _ hr)
      · rw [List.mem_singleton.mp hr]
        exact (h.unmade _ (Nat.le_refl _)).1
    · exact h.idle r (List.mem_append_right _ hr)
  · intro r hr
    rw [hdata]
    exact h.owned r hr
  · intro r c
    dsimp only
    rw [hdata]
    exact h.matched r c
  · exact h.queued
  · exact h.ordered
  · exact h.asked
  · intro r hr
    have hold : s.realCount ≤ r := Nat.le_of_succ_le hr
    rw [hdata]
    exact ⟨(h.unmade r hold).1, fun hr' => (h.unmade r hold).2 (hlive r hr')⟩
  · exact h.unborn

/-- `OnConnectFail`: the socket is neither connected nor does it connect. -/
theorem Listed.onConnectFail (h : Listed s) {r : Nat} (hconnect : (s.reals r).connect = false) :
    Listed (s.onConnectFail r) := by
  have hclosed := h.setReal r { s.reals r with closed := true } rfl (by
    rintro (hlive | ⟨-, hlive⟩)
    · rw [hconnect] at hlive
      cases hlive
    · cases hlive)
  have hkept : ∀ r', (s.setReal r { s.reals r with closed := true }).Live r' →
      decide (r' ≠ r) = true := by
    intro r' hlive
    refine decide_eq_true ?_
    rintro rfl
    simp [Live, PoolLists.setReal, hconnect] at hlive
  have hout := hclosed.filter (p := (decide <| · ≠ r)) (q := fun _ => true) (b := fun _ => true)
    (fun r' _ => hkept r') (fun _ _ _ => rfl) (fun _ _ _ => rfl)
  rw [List.filter_true, List.filter_true] at hout
  exact hout

theorem Listed.createNewConnection (h : Listed s) (hroom : s.lists.length < s.poolSize)
    (result : ConnectResult) : Listed (s.createNewConnection result) := by
  have hnew := h.newConnection hroom
  have hmem : s.realCount ∈ s.newConnection.lists :=
    List.mem_append_left _ (List.mem_append_left _ (List.mem_append_right _ (List.mem_singleton_self _)))
  cases result with
  | connected => exact hnew.setReal _ _ rfl fun _ => hmem
  | inProgress =>
      refine hnew.recast s.newConnection.reals _ (fun _ => rfl) ?_
      intro r hr
      by_cases heq : r = s.realCount
      · exact heq ▸ hmem
      · rw [Function.update_of_ne heq] at hr
        exact hnew.live r hr
  | refused => exact hnew.onConnectFail (by simp [PoolLists.newConnection])

theorem createNewConnection_length (s : PoolLists) (result : ConnectResult) :
    (s.createNewConnection result).lists.length ≤ s.lists.length + 1 ∧
      (s.createNewConnection result).poolSize = s.poolSize := by
  have hnew : s.newConnection.lists.length = s.lists.length + 1 := by
    simp only [lists, PoolLists.newConnection, List.length_append, List.length_singleton]
    omega
  cases result with
  | connected => exact ⟨Nat.le_of_eq hnew, rfl⟩
  | inProgress => exact ⟨Nat.le_of_eq hnew, rfl⟩
  | refused =>
      refine ⟨?_, rfl⟩
      have hsub : (s.newConnection.onConnectFail s.realCount).lists.Sublist s.newConnection.lists :=
        (List.filter_sublist.append (List.Sublist.refl _)).append (List.Sublist.refl _)
      exact Nat.le_trans hsub.length_le (Nat.le_of_eq hnew)

/-! ### The loop of `CheckAquireList` -/

theorem handler_update (reals : Nat → RealConnection) (r : Nat) (handler : Option Nat) (r' : Nat) :
    (Function.update reals r { reals r with dataHandler := handler } r').connect =
        (reals r').connect ∧
      (Function.update reals r { reals r with dataHandler := handler } r').closed =
        (reals r').closed := by
  by_cases heq : r' = r
  · subst heq
    rw [Function.update_self]
    exact ⟨rfl, rfl⟩
  · rw [Function.update_of_ne heq]
    exact ⟨rfl, rfl⟩

/-- The first of the free list is given to the first that waits. -/
theorem Listed.assign (h : Listed s) {c r : Nat} {free rest : List Nat} (hfree : s.free = r :: free)
    (hqueue : s.aquireList = c :: rest) :
    Listed { s with
      toRealConnectionPool :=
        { s.toRealConnectionPool with
          free := free, aquireList := rest, busy := s.busy ++ [r] }.attach c r
      assigned := s.assigned ++ [⟨r, c, (s.reals r).closed⟩] } := by
  obtain ⟨halive, hnone⟩ := h.queued c (by simp [hqueue])
  have hidle := h.idle r (by simp [hfree])
  have hunheld : (s.conns c).held = none := by simp [Connection.held, halive, hnone]
  have hperm : (s.pending ++ free ++ (s.busy ++ [r])).Perm s.lists := by
    unfold lists
    rw [hfree, ← List.append_assoc, List.append_assoc s.pending free,
      List.append_assoc s.pending (r :: free), List.cons_append]
    exact (List.perm_append_singleton r _).trans List.perm_middle.symm
  have hnodup := hperm.nodup_iff.mpr h.nodup
  have hreal := handler_update s.reals r (some c)
  have hqueued : (s.assigned ++ [(⟨r, c, (s.reals r).closed⟩ : Assignment)]).map (·.conn) ++ rest =
      s.assigned.map (·.conn) ++ s.aquireList := by
    rw [hqueue, List.map_append, List.append_assoc]
    rfl
  have hordered := h.ordered
  rw [hqueue, List.pairwise_append] at hordered
  unfold RealConnectionPool.attach
  constructor
  · exact hnodup
  · exact Nat.le_trans (Nat.le_of_eq hperm.length_eq) h.bounded
  · exact fun r' hr' => h.made r' (hperm.mem_iff.mp hr')
  · intro r' hr'
    refine hperm.mem_iff.mpr (h.live r' ?_)
    unfold Live at hr' ⊢
    dsimp only at hr'
    rw [(hreal r').1, (hreal r').2] at hr'
    exact hr'
  · intro r' hr'
    have hne : r' ≠ r := by
      rintro rfl
      rw [List.nodup_append] at hnodup
      exact hnodup.2.2 r' hr' r' (List.mem_append_right _ (List.mem_singleton_self _)) rfl
    dsimp only
    rw [Function.update_of_ne hne]
    refine h.idle r' ?_
    rw [hfree]
    rcases List.mem_append.mp hr' with hr' | hr'
    · exact List.mem_append_left _ hr'
    · exact List.mem_append_right _ (List.mem_cons_of_mem _ hr')
  · intro r' hr'
    dsimp only
    by_cases heq : r' = r
    · subst heq
      rw [Function.update_self]
      exact ⟨c, rfl⟩
    · rw [Function.update_of_ne heq]
      rcases List.mem_append.mp hr' with hr' | hr'
      · exact h.owned r' hr'
      · exact absurd (List.mem_singleton.mp hr') heq
  · have hheld : ({ s.conns c with realconn := some r } : Connection).held = some r := by
      simp [Connection.held, halive]
    rw [RealConnectionPool.dataHandler_update, RealConnectionPool.held_update, hheld]
    exact h.matched.link hidle hunheld
  · intro c' hc'
    have hne : c' ≠ c := by
      rintro rfl
      exact Nat.lt_irrefl _ (List.rel_of_pairwise_cons hordered.2.1 hc')
    dsimp only
    rw [Function.update_of_ne hne]
    exact h.queued c' (by simp [hqueue, hc'])
  · dsimp only
    rw [hqueued]
    exact h.ordered
  · dsimp only
    rw [hqueued]
    exact h.asked
  · intro r' hr'
    have hne : r' ≠ r := by
      rintro rfl
      exact absurd (h.made r' (by simp [lists, hfree])) (Nat.not_lt.mpr hr')
    unfold Live
    dsimp only
    rw [Function.update_of_ne hne]
    exact h.unmade r' hr'
  · intro c' hc'
    have hne : c' ≠ c := by
      rintro rfl
      rw [h.unborn c' hc'] at halive
      cases halive
    dsimp only
    rw [Function.update_of_ne hne]
    exact h.unborn c' hc'

theorem Listed.checkAquire (h : Listed s) (n : Nat) : Listed (checkAquire n s).1 := by
  induction n generalizing s with
  | zero => exact h
  | succ n ih =>
      unfold PoolLists.checkAquire
      split
      next r free c rest hfree hqueue =>
        have hgot := (h.assign hfree hqueue).of_same (sameLinks_onAquire _ c r)
        dsimp only
        split
        · exact ih hgot
        · exact hgot
      · exact h

theorem Listed.checkAquireList (h : Listed s) : Listed s.checkAquireList.1 :=
  h.checkAquire _

/-- What the loop does not touch. -/
structure Quiet (s t : PoolLists) : Prop where
  realCount : t.realCount = s.realCount
  phase : t.phase = s.phase
  connectPending : t.connectPending = s.connectPending
  closing : t.closing = s.closing
  connect : ∀ r, (t.reals r).connect = (s.reals r).connect
  closed : ∀ r, (t.reals r).closed = (s.reals r).closed
  ready : ∀ r ∈ t.free ++ t.busy, r ∈ s.free ++ s.busy

theorem Quiet.refl (s : PoolLists) : Quiet s s :=
  ⟨rfl, rfl, rfl, rfl, fun _ => rfl, fun _ => rfl, fun _ hr => hr⟩

theorem Quiet.trans {t u : PoolLists} (h : Quiet s t) (h' : Quiet t u) : Quiet s u where
  realCount := h'.realCount.trans h.realCount
  phase := h'.phase.trans h.phase
  connectPending := h'.connectPending.trans h.connectPending
  closing := h'.closing.trans h.closing
  connect := fun r => (h'.connect r).trans (h.connect r)
  closed := fun r => (h'.closed r).trans (h.closed r)
  ready := fun r hr => h.ready r (h'.ready r hr)

theorem quiet_assign (c : Nat) (rest : List Nat) {r : Nat} {free : List Nat} (hfree : s.free = r :: free) :
    Quiet s { s with
      toRealConnectionPool :=
        (RealConnectionPool.onAquireRealConnectionSuccess
          { s.toRealConnectionPool with
            free := free, aquireList := rest, busy := s.busy ++ [r] } c r).1
      assigned := s.assigned ++ [⟨r, c, (s.reals r).closed⟩] } := by
  have hsame := sameLinks_onAquire
    { s.toRealConnectionPool with free := free, aquireList := rest, busy := s.busy ++ [r] } c r
  have hreal := handler_update s.reals r (some c)
  refine ⟨hsame.realCount, rfl, rfl, rfl, ?_, ?_, ?_⟩
  · exact fun r' => (hsame.connect r').trans (hreal r').1
  · exact fun r' => (hsame.closed r').trans (hreal r').2
  · intro r' hr'
    dsimp only at hr'
    rw [hsame.free, hsame.busy] at hr'
    simp only [RealConnectionPool.attach, List.mem_append, List.mem_singleton] at hr'
    rw [hfree, List.mem_append, List.mem_cons]
    tauto

theorem quiet_checkAquire (n : Nat) (s : PoolLists) : Quiet s (checkAquire n s).1 := by
  induction n generalizing s with
  | zero => exact .refl s
  | succ n ih =>
      unfold PoolLists.checkAquire
      split
      next r free c rest hfree hqueue =>
        have hgot := quiet_assign c rest hfree
        dsimp only
        split
        · exact hgot.trans (ih _)
        · exact hgot
      · exact .refl s

theorem quiet_checkAquireList (s : PoolLists) : Quiet s s.checkAquireList.1 :=
  quiet_checkAquire _ s

/-- The loop of the other model of the pool, which keeps no record. -/
theorem checkAquire_toRealConnectionPool (n : Nat) (s : PoolLists) :
    (checkAquire n s).1.toRealConnectionPool =
      RealConnectionPool.checkAquire n s.toRealConnectionPool := by
  induction n generalizing s with
  | zero => rfl
  | succ n ih =>
      unfold PoolLists.checkAquire RealConnectionPool.checkAquire
      rcases s.free with _ | ⟨r, free⟩
      · rfl
      · rcases s.aquireList with _ | ⟨c, rest⟩
        · rfl
        · dsimp only
          split
          · exact ih _
          · rfl

theorem onAquire_congr {s t : RealConnectionPool} {c r : Nat} (hreal : t.reals r = s.reals r)
    (hconn : t.conns c = s.conns c) :
    (t.onAquireRealConnectionSuccess c r).2 = (s.onAquireRealConnectionSuccess c r).2 := by
  have hattach : (t.attach c r).reals r = (s.attach c r).reals r := by
    simp [RealConnectionPool.attach, hreal]
  unfold RealConnectionPool.onAquireRealConnectionSuccess
  rw [hconn, hattach]
  split <;> rfl

/-- Giving one away has no part in how the next one is given away. -/
theorem takes_congr {s t : RealConnectionPool} {free queue : List Nat}
    (hreal : ∀ r ∈ free, t.reals r = s.reals r) (hconn : ∀ c ∈ queue, t.conns c = s.conns c) :
    t.takes free queue = s.takes free queue := by
  induction free generalizing queue with
  | nil => rfl
  | cons r free ih =>
      cases queue with
      | nil => rfl
      | cons c queue =>
          unfold RealConnectionPool.takes
          rw [onAquire_congr (hreal r List.mem_cons_self) (hconn c List.mem_cons_self),
            ih (fun r' hr' => hreal r' (List.mem_cons_of_mem _ hr'))
              (fun c' hc' => hconn c' (List.mem_cons_of_mem _ hc'))]

theorem onAquire_frame (s : RealConnectionPool) (c r : Nat) :
    (∀ r', r' ≠ r → (s.onAquireRealConnectionSuccess c r).1.reals r' = s.reals r') ∧
      ∀ c', c' ≠ c → (s.onAquireRealConnectionSuccess c r).1.conns c' = s.conns c' := by
  unfold RealConnectionPool.onAquireRealConnectionSuccess
  split
  · exact ⟨fun r' hr => Function.update_of_ne hr _ _, fun c' hc => Function.update_of_ne hc _ _⟩
  · constructor
    · intro r' hr
      simp only [RealConnectionPool.leave, RealConnectionPool.attach, Function.update_of_ne hr]
    · intro c' hc
      simp only [RealConnectionPool.leave, RealConnectionPool.attach, Function.update_of_ne hc]

/-- The record of `CheckAquireList`. -/
theorem Listed.assigned_eq (h : Listed s) {n : Nat} (hn : s.aquireList.length = n) :
    (PoolLists.checkAquire n s).1.assigned = s.assigned ++ s.front := by
  unfold front
  induction n generalizing s with
  | zero =>
      rw [List.length_eq_zero_iff.mp hn]
      cases s.free <;> exact (List.append_nil _).symm
  | succ n ih =>
      unfold PoolLists.checkAquire
      split
      next r free c rest hfree hqueue =>
        have hgot := (h.assign hfree hqueue).of_same (sameLinks_onAquire _ c r)
        have hquiet := quiet_assign c rest hfree
        obtain ⟨hreals, hconns⟩ := onAquire_frame
          { s.toRealConnectionPool with free := free, aquireList := rest, busy := s.busy ++ [r] } c r
        have hsame := sameLinks_onAquire
          { s.toRealConnectionPool with free := free, aquireList := rest, busy := s.busy ++ [r] } c r
        have hexit : (RealConnectionPool.onAquireRealConnectionSuccess
            { s.toRealConnectionPool with free := free, aquireList := rest, busy := s.busy ++ [r] }
            c r).2 = (s.onAquireRealConnectionSuccess c r).2 := onAquire_congr rfl rfl
        have hrest : ∀ r' ∈ free, r' ≠ r := by
          rintro r' hr' rfl
          have hnodup := h.apart.2.1
          rw [hfree] at hnodup
          exact (List.nodup_cons.mp hnodup).1 hr'
        have hothers : ∀ c' ∈ rest, c' ≠ c := by
          rintro c' hc' rfl
          have hordered := h.ordered
          rw [hqueue, List.pairwise_append] at hordered
          exact Nat.lt_irrefl _ (List.rel_of_pairwise_cons hordered.2.1 hc')
        dsimp only
        rw [hfree, hqueue, RealConnectionPool.takes, hexit]
        split
        · have hlength : rest.length = n := by
            rw [hqueue] at hn
            exact Nat.succ.inj hn
          rw [ih hgot (hsame.aquireList ▸ hlength), hsame.free, hsame.aquireList]
          have htakes := takes_congr (s := s.toRealConnectionPool)
            (fun r' hr' => hreals r' (hrest r' hr')) (fun c' hc' => hconns c' (hothers c' hc'))
          dsimp only [RealConnectionPool.attach]
          rw [htakes, List.map_cons, List.append_assoc, List.singleton_append]
          refine congrArg (s.assigned ++ ⟨r, c, (s.reals r).closed⟩ :: ·) (List.map_congr_left ?_)
          intro x hx
          rw [hquiet.closed]
        · rfl
      next hnone =>
        rw [RealConnectionPool.takes]
        · exact (List.append_nil _).symm
        · exact hnone

/-! ### Asking, authorizing, releasing -/

theorem Listed.ask (h : Listed s) : Listed s.ask := by
  have hunheld : (s.conns s.connCount).held = none :=
    Connection.held_dead (h.unborn _ (Nat.le_refl _))
  unfold PoolLists.ask
  refine { h with matched := ?_, queued := ?_, ordered := ?_, asked := ?_, unborn := ?_ }
  · have hheld : (⟨true, none, none⟩ : Connection).held = none := rfl
    rw [RealConnectionPool.held_update, hheld, ← hunheld, Function.update_eq_self]
    exact h.matched
  · intro c hc
    dsimp only
    by_cases heq : c = s.connCount
    · subst heq
      rw [Function.update_self]
      exact ⟨rfl, rfl⟩
    · rw [Function.update_of_ne heq]
      rcases List.mem_append.mp hc with hc | hc
      · exact h.queued c hc
      · exact absurd (List.mem_singleton.mp hc) heq
  · dsimp only
    rw [← List.append_assoc, List.pairwise_append]
    refine ⟨h.ordered, List.pairwise_singleton _ _, ?_⟩
    intro c hc c' hc'
    rw [List.mem_singleton.mp hc']
    exact h.asked c hc
  · intro c hc
    dsimp only at hc
    rw [← List.append_assoc] at hc
    rcases List.mem_append.mp hc with hc | hc
    · exact Nat.lt_succ_of_lt (h.asked c hc)
    · rw [List.mem_singleton.mp hc]
      exact Nat.lt_succ_self _
  · intro c hc
    have hne : c ≠ s.connCount := by
      rintro rfl
      exact Nat.not_succ_le_self _ hc
    dsimp only
    rw [Function.update_of_ne hne]
    exact h.unborn c (Nat.le_of_succ_le hc)

theorem Listed.pendingToFree (h : Listed s) {r : Nat} (hr : r ∈ s.pending) :
    Listed (s.pendingToFree r) := by
  obtain ⟨hpending, hfree, hbusy, hapart, hfb⟩ := h.apart
  obtain ⟨hrfree, hrbusy⟩ := hapart r hr
  refine h.relist ?_ ?_ ?_ h.owned
  · rw [List.nodup_append, List.nodup_append, List.nodup_append]
    refine ⟨⟨hpending.filter _, ⟨hfree, List.nodup_singleton r, ?_⟩, ?_⟩, hbusy, ?_⟩
    · rintro a ha b hb rfl
      exact hrfree (List.mem_singleton.mp hb ▸ ha)
    · rintro a ha b hb rfl
      rw [List.mem_filter, decide_eq_true_iff] at ha
      rcases List.mem_append.mp hb with hb | hb
      · exact (hapart a ha.1).1 hb
      · exact ha.2 (List.mem_singleton.mp hb)
    · rintro a ha b hb rfl
      rcases List.mem_append.mp ha with ha | ha
      · exact (hapart a (List.mem_of_mem_filter ha)).2 hb
      · rcases List.mem_append.mp ha with ha | ha
        · exact hfb a ha hb
        · exact hrbusy (List.mem_singleton.mp ha ▸ hb)
  · intro a
    by_cases heq : a = r
    · subst heq
      simp [lists, hr]
    · simp [lists, heq]
  · intro a ha
    rcases List.mem_append.mp ha with ha | ha
    · exact h.idle a (List.mem_append_left _ (List.mem_of_mem_filter ha))
    · rcases List.mem_append.mp ha with ha | ha
      · exact h.idle a (List.mem_append_right _ ha)
      · rw [List.mem_singleton.mp ha]
        exact h.idle r (List.mem_append_left _ hr)

/-- The `RealConnection` and its `Connection` let go of each other. -/
theorem Listed.unlink (h : Listed s) {c r : Nat} (hdata : (s.reals r).dataHandler = some c)
    (free : List Nat) (hnodup : (s.pending ++ free ++ s.busy.filter (· ≠ r)).Nodup)
    (hfrom : ∀ a ∈ free, a ∈ s.free ∨ a = r ∧ r ∈ s.busy)
    (hlive : ∀ a, s.Live a → a ∈ s.pending ++ free ++ s.busy.filter (· ≠ r)) :
    Listed { (s.dying c).takeBack r with free := free } := by
  have hheld := h.held_eq_some.mpr hdata
  obtain ⟨halive, hreal⟩ := Connection.held_eq_some.mp hheld
  have hsub : s.pending ++ free ++ s.busy.filter (· ≠ r) ⊆ s.lists := by
    intro a ha
    rw [lists, List.mem_append, List.mem_append]
    rcases List.mem_append.mp ha with ha | ha
    · rcases List.mem_append.mp ha with ha | ha
      · exact .inl (.inl ha)
      · rcases hfrom a ha with ha | ⟨rfl, ha⟩
        · exact .inl (.inr ha)
        · exact .inr ha
    · exact .inr (List.mem_of_mem_filter ha)
  have hsocket := handler_update s.reals r none
  have hstill : ∀ a, { (s.dying c).takeBack r with free := free }.Live a → s.Live a := by
    intro a ha
    unfold Live at ha ⊢
    simp only [takeBack, dying] at ha
    rw [(hsocket a).1, (hsocket a).2] at ha
    exact ha
  unfold takeBack dying
  constructor
  · exact hnodup
  · exact Nat.le_trans (hnodup.subperm hsub).length_le h.bounded
  · exact fun a ha => h.made a (hsub ha)
  · exact fun a ha => hlive a (hstill a ha)
  · intro a ha
    dsimp only
    by_cases heq : a = r
    · subst heq
      rw [Function.update_self]
    · rw [Function.update_of_ne heq]
      rcases List.mem_append.mp ha with ha | ha
      · exact h.idle a (List.mem_append_left _ ha)
      · rcases hfrom a ha with ha | ⟨rfl, -⟩
        · exact h.idle a (List.mem_append_right _ ha)
        · exact absurd rfl heq
  · intro a ha
    rw [List.mem_filter, decide_eq_true_iff] at ha
    dsimp only
    rw [Function.update_of_ne ha.2]
    exact h.owned a ha.1
  · rw [RealConnectionPool.dataHandler_update, RealConnectionPool.held_update,
      Connection.held_dead rfl]
    exact h.matched.unlink hdata
  · intro c' hc'
    obtain ⟨halive', hnone'⟩ := h.queued c' hc'
    have hne : c' ≠ c := by
      rintro rfl
      rw [hnone'] at hreal
      cases hreal
    dsimp only
    rw [Function.update_of_ne hne]
    exact ⟨halive', hnone'⟩
  · exact h.ordered
  · exact h.asked
  · intro a ha
    refine ⟨?_, fun ha' => (h.unmade a ha).2 (hstill a ha')⟩
    dsimp only
    by_cases heq : a = r
    · subst heq
      rw [Function.update_self]
    · rw [Function.update_of_ne heq]
      exact (h.unmade a ha).1
  · intro c' hc'
    dsimp only
    by_cases heq : c' = c
    · subst heq
      rw [Function.update_self]
    · rw [Function.update_of_ne heq]
      exact h.unborn c' hc'

theorem Listed.takeBack (h : Listed s) {c r : Nat} (hdata : (s.reals r).dataHandler = some c)
    (hdead : ¬ s.Live r) : Listed ((s.dying c).takeBack r) := by
  have hsub : (s.pending ++ s.free ++ s.busy.filter (· ≠ r)).Sublist s.lists :=
    (List.Sublist.refl _).append List.filter_sublist
  refine h.unlink hdata s.free (h.nodup.sublist hsub) (fun a ha => .inl ha) ?_
  intro a ha
  have hne : a ≠ r := by
    rintro rfl
    exact hdead ha
  have hmem := h.live a ha
  simp only [lists, List.mem_append, List.mem_filter, decide_eq_true_iff] at hmem ⊢
  exact hmem.imp_right fun hmem => ⟨hmem, hne⟩

theorem Listed.busyToFree (h : Listed s) {c r : Nat} (hdata : (s.reals r).dataHandler = some c)
    (hlive : s.Live r) : Listed ((s.dying c).busyToFree r) := by
  obtain ⟨hpending, hfree, hbusy, hapart, hfb⟩ := h.apart
  have hidle : r ∉ s.pending ++ s.free := by
    intro hr
    rw [h.idle r hr] at hdata
    cases hdata
  have hmem : r ∈ s.busy := by
    rcases List.mem_append.mp (h.live r hlive) with hr | hr
    · exact absurd hr hidle
    · exact hr
  rw [List.mem_append, not_or] at hidle
  refine h.unlink hdata (s.free ++ [r]) ?_ ?_ ?_
  · rw [List.nodup_append, List.nodup_append, List.nodup_append]
    refine ⟨⟨hpending, ⟨hfree, List.nodup_singleton r, ?_⟩, ?_⟩, hbusy.filter _, ?_⟩
    · rintro a ha b hb rfl
      exact hidle.2 (List.mem_singleton.mp hb ▸ ha)
    · rintro a ha b hb rfl
      rcases List.mem_append.mp hb with hb | hb
      · exact (hapart a ha).1 hb
      · exact hidle.1 (List.mem_singleton.mp hb ▸ ha)
    · rintro a ha b hb rfl
      rw [List.mem_filter, decide_eq_true_iff] at hb
      rcases List.mem_append.mp ha with ha | ha
      · exact (hapart a ha).2 hb.1
      · rcases List.mem_append.mp ha with ha | ha
        · exact hfb a ha hb.1
        · exact hb.2 (List.mem_singleton.mp ha)
  · intro a ha
    rcases List.mem_append.mp ha with ha | ha
    · exact .inl ha
    · exact .inr ⟨List.mem_singleton.mp ha, hmem⟩
  · intro a ha
    have hmem' := h.live a ha
    by_cases heq : a = r
    · subst heq
      simp
    · simpa [lists, heq] using hmem'

/-- A `Connection` that holds nothing and does not wait is destroyed. -/
theorem Listed.dead (h : Listed s) {c : Nat} (hqueue : c ∉ s.aquireList)
    (hheld : (s.conns c).held = none) : Listed (s.dead c) := by
  unfold PoolLists.dead
  refine { h with matched := ?_, queued := ?_, unborn := ?_ }
  · rw [RealConnectionPool.held_update, Connection.held_dead rfl, ← hheld, Function.update_eq_self]
    exact h.matched
  · intro c' hc'
    have hne : c' ≠ c := by
      rintro rfl
      exact hqueue hc'
    dsimp only
    rw [Function.update_of_ne hne]
    exact h.queued c' hc'
  · intro c' hc'
    dsimp only
    by_cases heq : c' = c
    · subst heq
      rw [Function.update_self]
    · rw [Function.update_of_ne heq]
      exact h.unborn c' hc'

end PoolLists

end Jengine.Dbo
