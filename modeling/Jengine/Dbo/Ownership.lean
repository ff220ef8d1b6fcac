import Jengine.Dbo.RealConnectionPool
import Jengine.Lib.Matching

/-!
# Who owns a connection

The invariant of the pool: a `RealConnection` and the `Connection` that owns it know each
other, a free one is owned by nobody, and what the server owes on an open one is for the
statement of its owner.  There is one lemma for each way in which the steps of the pool
change the objects.
-/

namespace Jengine.Dbo

open Jengine.Lib

/-- The `RealConnection` that a living `Connection` has. -/
def Connection.held (conn : Connection) : Option Nat :=
  if conn.alive = true then conn.realconn else none

theorem Connection.held_eq_some {conn : Connection} {r : Nat} :
    conn.held = some r ↔ conn.alive = true ∧ conn.realconn = some r := by
  unfold Connection.held
  split <;> simp [*]

theorem Connection.held_dead {conn : Connection} (h : conn.alive = false) : conn.held = none := by
  simp [Connection.held, h]

namespace RealConnectionPool

/-! ### The invariant -/

/-- The statement of the owner, if there is one, is in step with the server. -/
def Follows (real : RealConnection) : Option StatementBase → Prop
  | none => real.Settled
  | some st => InStep real st

/-- The statement that gets the packets of a `RealConnection`. -/
def receiver (reals : Nat → RealConnection) (conns : Nat → Connection) (r : Nat) :
    Option StatementBase :=
  (reals r).dataHandler.bind fun c => (conns c).curStmt

structure Sound (s : RealConnectionPool) : Prop where
  queue_nodup : s.aquireList.Nodup
  queued : ∀ c ∈ s.aquireList, (s.conns c).alive = true ∧ (s.conns c).realconn = none
  free_nodup : s.free.Nodup
  unowned : ∀ r ∈ s.free, (s.reals r).dataHandler = none
  matched : Matched (fun r => (s.reals r).dataHandler) fun c => (s.conns c).held
  served : ∀ r, (s.reals r).isOpen = true → Follows (s.reals r) (receiver s.reals s.conns r)
  unsent : ∀ c st, (s.conns c).alive = true → (s.conns c).realconn = none →
    (s.conns c).curStmt = some st → st.waits = false ∧ st.rs.AtRest
  right : ∀ r, ∀ e ∈ (s.reals r).handed, e.2.answers = e.1
  reals_fresh : ∀ r, s.realCount ≤ r → (s.reals r).dataHandler = none ∧ r ∉ s.free
  conns_fresh : ∀ c, s.connCount ≤ c → (s.conns c).alive = false

theorem sound_start : Sound start where
  queue_nodup := List.nodup_nil
  queued := nofun
  free_nodup := List.nodup_nil
  unowned := nofun
  matched := fun r c => by simp [start, RealConnection.authorized, Connection.held]
  served := fun _ _ => ⟨rfl, rfl⟩
  unsent := nofun
  right := nofun
  reals_fresh := fun _ _ => ⟨rfl, nofun⟩
  conns_fresh := fun _ _ => rfl

theorem Sound.owner {s : RealConnectionPool} (h : Sound s) {r c : Nat}
    (hhandler : (s.reals r).dataHandler = some c) :
    (s.conns c).alive = true ∧ (s.conns c).realconn = some r :=
  Connection.held_eq_some.1 ((h.matched r c).1 hhandler)

theorem Sound.owned {s : RealConnectionPool} (h : Sound s) {c r : Nat}
    (halive : (s.conns c).alive = true) (hreal : (s.conns c).realconn = some r) :
    (s.reals r).dataHandler = some c :=
  (h.matched r c).2 (Connection.held_eq_some.2 ⟨halive, hreal⟩)

theorem Sound.settled {s : RealConnectionPool} (h : Sound s) {r : Nat}
    (hopen : (s.reals r).isOpen = true) (hhandler : (s.reals r).dataHandler = none) :
    (s.reals r).Settled := by
  have hserved := h.served r hopen
  rw [receiver, hhandler] at hserved
  exact hserved

theorem Sound.follows {s : RealConnectionPool} (h : Sound s) {r c : Nat}
    (hopen : (s.reals r).isOpen = true) (hhandler : (s.reals r).dataHandler = some c) :
    Follows (s.reals r) (s.conns c).curStmt := by
  have hserved := h.served r hopen
  rw [receiver, hhandler] at hserved
  exact hserved

/-! ### Frames -/

theorem dataHandler_update (reals : Nat → RealConnection) (r : Nat) (real : RealConnection) :
    (fun r' => (Function.update reals r real r').dataHandler) =
      Function.update (fun r' => (reals r').dataHandler) r real.dataHandler :=
  funext fun r' => Function.apply_update (fun _ x => RealConnection.dataHandler x) reals r real r'

theorem held_update (conns : Nat → Connection) (c : Nat) (conn : Connection) :
    (fun c' => (Function.update conns c conn c').held) =
      Function.update (fun c' => (conns c').held) c conn.held :=
  funext fun c' => Function.apply_update (fun _ x => Connection.held x) conns c conn c'

theorem dataHandler_kept {reals : Nat → RealConnection} {r : Nat} {real : RealConnection}
    (h : real.dataHandler = (reals r).dataHandler) :
    (fun r' => (Function.update reals r real r').dataHandler) = fun r' => (reals r').dataHandler := by
  rw [dataHandler_update, h, Function.update_eq_self]

theorem curStmt_update (conns : Nat → Connection) (c : Nat) (cur : Option StatementBase)
    (c' : Nat) :
    (Function.update conns c { conns c with curStmt := cur } c').alive = (conns c').alive ∧
      (Function.update conns c { conns c with curStmt := cur } c').realconn =
        (conns c').realconn := by
  by_cases hc : c' = c
  · subst hc
    rw [Function.update_self]
    exact ⟨rfl, rfl⟩
  · rw [Function.update_of_ne hc]
    exact ⟨rfl, rfl⟩

theorem held_kept (conns : Nat → Connection) (c : Nat) (cur : Option StatementBase) :
    (fun c' => (Function.update conns c { conns c with curStmt := cur } c').held) =
      fun c' => (conns c').held := by
  rw [held_update]
  exact Function.update_eq_self c _

/-- Nothing has changed for a `RealConnection` that is as it was and whose owner has the same
    statement. -/
theorem Sound.served_frame {s : RealConnectionPool} (h : Sound s) {reals : Nat → RealConnection}
    {conns : Nat → Connection} {r : Nat} (hreal : reals r = s.reals r)
    (hconn : ∀ c, (s.reals r).dataHandler = some c → (conns c).curStmt = (s.conns c).curStmt)
    (hopen : (reals r).isOpen = true) : Follows (reals r) (receiver reals conns r) := by
  rw [hreal] at hopen
  have hserved := h.served r hopen
  rw [receiver, hreal]
  rw [receiver] at hserved
  cases hhandler : (s.reals r).dataHandler with
  | none =>
      rw [hhandler] at hserved
      exact hserved
  | some c =>
      rw [hhandler] at hserved
      rw [Option.bind_some, hconn c hhandler]
      exact hserved

/-- A `Connection` that does not own the `RealConnection` has changed. -/
theorem Sound.served_other {s : RealConnectionPool} (h : Sound s) {reals : Nat → RealConnection}
    {r c : Nat} {conn : Connection} (hreal : reals r = s.reals r)
    (hother : (s.reals r).dataHandler ≠ some c) (hopen : (reals r).isOpen = true) :
    Follows (reals r) (receiver reals (Function.update s.conns c conn) r) := by
  refine h.served_frame hreal ?_ hopen
  intro c' hc'
  have hc : c' ≠ c := by
    rintro rfl
    exact hother hc'
  exact congrArg Connection.curStmt (Function.update_of_ne hc _ _)

/-- A `Connection` that holds nothing owns no `RealConnection`. -/
theorem Sound.not_owner {s : RealConnectionPool} (h : Sound s) {c : Nat}
    (hheld : (s.conns c).held = none) (r : Nat) : (s.reals r).dataHandler ≠ some c := by
  intro hc
  exact absurd ((h.matched r c).1 hc) (by simp [hheld])

/-- The calls of `HandleResponse` are recorded in one `RealConnection`. -/
theorem Sound.right_update {s : RealConnectionPool} (h : Sound s) {r : Nat} {real : RealConnection}
    (hright : ∀ e ∈ real.handed, e.2.answers = e.1) (r' : Nat) :
    ∀ e ∈ (Function.update s.reals r real r').handed, e.2.answers = e.1 := by
  by_cases hr : r' = r
  · subst hr
    rw [Function.update_self]
    exact hright
  · rw [Function.update_of_ne hr]
    exact h.right r'

/-! ### What changes -/

/-- A `RealConnection` and the statement of its owner change together. -/
theorem Sound.update {s : RealConnectionPool} (h : Sound s) {c r : Nat} {real : RealConnection}
    (cur : Option StatementBase) (hhandler : (s.reals r).dataHandler = some c)
    (hkept : real.dataHandler = some c) (hright : ∀ e ∈ real.handed, e.2.answers = e.1)
    (hfollows : real.isOpen = true → Follows real cur) (aborted : Bool) (stmtCount : Nat) :
    Sound { s with
      reals := Function.update s.reals r real
      conns := Function.update s.conns c { s.conns c with curStmt := cur }
      aborted := aborted
      stmtCount := stmtCount } := by
  have hdata := dataHandler_kept (hkept.trans hhandler.symm)
  have hconn := curStmt_update s.conns c cur
  constructor
  · exact h.queue_nodup
  · intro c' hc'
    obtain ⟨halive', hreal'⟩ := h.queued c' hc'
    exact ⟨(hconn c').1.trans halive', (hconn c').2.trans hreal'⟩
  · exact h.free_nodup
  · exact fun r' hr' => (congrFun hdata r').trans (h.unowned r' hr')
  · rw [hdata, held_kept]
    exact h.matched
  · intro r' hopen
    by_cases hr : r' = r
    · subst hr
      dsimp only [receiver] at hopen ⊢
      rw [Function.update_self] at hopen ⊢
      rw [hkept, Option.bind_some, Function.update_self]
      exact hfollows hopen
    · have hother : (s.reals r').dataHandler ≠ some c := fun hc =>
        hr (h.matched.right_unique hc hhandler)
      exact h.served_other (Function.update_of_ne hr _ _) hother hopen
  · intro c' st halive' hnone hst
    have hc : c' ≠ c := by
      rintro rfl
      exact absurd ((hconn c').2.symm.trans hnone) (by simp [(h.owner hhandler).2])
    dsimp only at halive' hnone hst
    rw [Function.update_of_ne hc] at halive' hnone hst
    exact h.unsent c' st halive' hnone hst
  · exact h.right_update hright
  · intro r' hr'
    obtain ⟨hnone, hfree⟩ := h.reals_fresh r' hr'
    exact ⟨(congrFun hdata r').trans hnone, hfree⟩
  · intro c' hc'
    exact (hconn c').1.trans (h.conns_fresh c' hc')

/-- The statement of a `Connection` that still waits for a `RealConnection`. -/
theorem Sound.setStmt {s : RealConnectionPool} (h : Sound s) {c : Nat} {st : StatementBase}
    (hnone : (s.conns c).realconn = none) (hst : st.waits = false ∧ st.rs.AtRest)
    (stmtCount : Nat) :
    Sound { s with
      conns := Function.update s.conns c { s.conns c with curStmt := some st }
      stmtCount := stmtCount } := by
  have hconn := curStmt_update s.conns c (some st)
  refine { h with queued := ?_, matched := ?_, served := ?_, unsent := ?_, conns_fresh := ?_ }
  · intro c' hc'
    obtain ⟨halive', hreal'⟩ := h.queued c' hc'
    exact ⟨(hconn c').1.trans halive', (hconn c').2.trans hreal'⟩
  · rw [held_kept]
    exact h.matched
  · intro r hopen
    have hother : (s.reals r).dataHandler ≠ some c := fun hc =>
      absurd (h.owner hc).2 (by simp [hnone])
    exact h.served_other rfl hother hopen
  · intro c' st' halive' hreal' hst'
    dsimp only at halive' hreal' hst'
    by_cases hc : c' = c
    · subst hc
      rw [Function.update_self] at hst'
      obtain rfl : st = st' := Option.some.inj hst'
      exact hst
    · rw [Function.update_of_ne hc] at halive' hreal' hst'
      exact h.unsent c' st' halive' hreal' hst'
  · intro c' hc'
    exact (hconn c').1.trans (h.conns_fresh c' hc')

/-- A `RealConnection` that nobody owns changes. -/
theorem Sound.setReal {s : RealConnectionPool} (h : Sound s) {r : Nat} (real : RealConnection)
    (hhandler : (s.reals r).dataHandler = none) (hkept : real.dataHandler = none)
    (hright : ∀ e ∈ real.handed, e.2.answers = e.1)
    (hsettled : real.isOpen = true → real.Settled) : Sound (s.setReal r real) := by
  have hdata := dataHandler_kept (hkept.trans hhandler.symm)
  unfold RealConnectionPool.setReal
  refine { h with unowned := ?_, matched := ?_, served := ?_, right := ?_, reals_fresh := ?_ }
  · exact fun r' hr' => (congrFun hdata r').trans (h.unowned r' hr')
  · rw [hdata]
    exact h.matched
  · intro r' hopen
    by_cases hr : r' = r
    · subst hr
      dsimp only [receiver] at hopen ⊢
      rw [Function.update_self] at hopen ⊢
      rw [hkept]
      exact hsettled hopen
    · exact h.served_frame (Function.update_of_ne hr _ _) (fun _ _ => rfl) hopen
  · exact h.right_update hright
  · intro r' hr'
    obtain ⟨hnone, hfree⟩ := h.reals_fresh r' hr'
    exact ⟨(congrFun hdata r').trans hnone, hfree⟩

/-- A `RealConnection` changes and keeps its owner. -/
theorem Sound.setReal_kept {s : RealConnectionPool} (h : Sound s) {r : Nat} {real : RealConnection}
    (hkept : real.dataHandler = (s.reals r).dataHandler) (hhanded : real.handed = (s.reals r).handed)
    (hopen : real.isOpen = true → (s.reals r).isOpen = true ∧
      ((s.reals r).Settled → real.Settled) ∧ ∀ st, InStep (s.reals r) st → InStep real st) :
    Sound (s.setReal r real) := by
  have hright : ∀ e ∈ real.handed, e.2.answers = e.1 := by
    rw [hhanded]
    exact h.right r
  cases hhandler : (s.reals r).dataHandler with
  | none =>
      refine h.setReal real hhandler (hkept.trans hhandler) hright ?_
      intro hreal
      obtain ⟨hopen', hsettled, -⟩ := hopen hreal
      exact hsettled (h.settled hopen' hhandler)
  | some c =>
      have hsame := h.update (s.conns c).curStmt hhandler (hkept.trans hhandler) hright ?_
        s.aborted s.stmtCount
      · rw [Function.update_eq_self] at hsame
        exact hsame
      · intro hreal
        obtain ⟨hopen', hsettled, hstep⟩ := hopen hreal
        have hfollows := h.follows hopen' hhandler
        cases hst : (s.conns c).curStmt with
        | none =>
            rw [hst] at hfollows
            exact hsettled hfollows
        | some st =>
            rw [hst] at hfollows
            exact hstep st hfollows

/-- A `RealConnection` that nobody owns becomes free. -/
theorem Sound.pushFree {s : RealConnectionPool} (h : Sound s) {r : Nat} (hr : r < s.realCount)
    (hfree : r ∉ s.free) (hnone : (s.reals r).dataHandler = none) :
    Sound { s with free := s.free ++ [r] } := by
  refine { h with free_nodup := ?_, unowned := ?_, reals_fresh := ?_ }
  · dsimp only
    rw [List.nodup_append]
    refine ⟨h.free_nodup, List.nodup_singleton _, ?_⟩
    rintro r' hr' r'' hr'' rfl
    rw [List.mem_singleton] at hr''
    exact hfree (hr'' ▸ hr')
  · intro r' hr'
    rcases List.mem_append.1 hr' with hr' | hr'
    · exact h.unowned r' hr'
    · rw [List.mem_singleton.1 hr']
      exact hnone
  · intro r' hr'
    obtain ⟨hnone', hfree'⟩ := h.reals_fresh r' hr'
    refine ⟨hnone', ?_⟩
    rw [List.mem_append, List.mem_singleton]
    rintro (hmem | rfl)
    · exact hfree' hmem
    · dsimp only at hr'
      omega

/-- A `Connection` gets the first free `RealConnection`. -/
theorem Sound.attach {s : RealConnectionPool} (h : Sound s) {c r : Nat} {free rest : List Nat}
    (hfree : s.free = r :: free) (hqueue : s.aquireList = c :: rest) (busy : List Nat) :
    Sound ({ s with free := free, aquireList := rest, busy := busy }.attach c r) := by
  obtain ⟨halive, hnone⟩ := h.queued c (by simp [hqueue])
  have hunowned := h.unowned r (by simp [hfree])
  have hunheld : (s.conns c).held = none := by simp [Connection.held, halive, hnone]
  have hqueue_nodup := h.queue_nodup
  rw [hqueue, List.nodup_cons] at hqueue_nodup
  have hfree_nodup := h.free_nodup
  rw [hfree, List.nodup_cons] at hfree_nodup
  unfold RealConnectionPool.attach
  constructor
  · exact hqueue_nodup.2
  · intro c' hc'
    have hc : c' ≠ c := fun heq => hqueue_nodup.1 (heq ▸ hc')
    dsimp only
    rw [Function.update_of_ne hc]
    exact h.queued c' (by simp [hqueue, hc'])
  · exact hfree_nodup.2
  · intro r' hr'
    have hr : r' ≠ r := fun heq => hfree_nodup.1 (heq ▸ hr')
    dsimp only
    rw [Function.update_of_ne hr]
    exact h.unowned r' (by simp [hfree, hr'])
  · have hheld : ({ s.conns c with realconn := some r } : Connection).held = some r := by
      simp [Connection.held, halive]
    rw [dataHandler_update, held_update, hheld]
    exact h.matched.link hunowned hunheld
  · intro r' hopen
    by_cases hr : r' = r
    · subst hr
      dsimp only [receiver] at hopen ⊢
      rw [Function.update_self] at hopen ⊢
      rw [Option.bind_some, Function.update_self]
      -- the statement of the new owner has sent nothing
      have hsettled := h.settled hopen hunowned
      cases hst : (s.conns c).curStmt with
      | none => exact hsettled
      | some st =>
          obtain ⟨hwaits, hrs⟩ := h.unsent c st halive hnone hst
          exact .idle hwaits hrs hsettled
    · exact h.served_other (Function.update_of_ne hr _ _) (h.not_owner hunheld r') hopen
  · intro c' st halive' hnone' hst
    dsimp only at halive' hnone' hst
    have hc : c' ≠ c := by
      rintro rfl
      rw [Function.update_self] at hnone'
      cases hnone'
    rw [Function.update_of_ne hc] at halive' hnone' hst
    exact h.unsent c' st halive' hnone' hst
  · exact h.right_update (h.right r)
  · intro r' hr'
    obtain ⟨hnone', hfree'⟩ := h.reals_fresh r' hr'
    have hr : r' ≠ r := by
      rintro rfl
      exact hfree' (by simp [hfree])
    dsimp only
    rw [Function.update_of_ne hr]
    exact ⟨hnone', fun hmem => hfree' (by simp [hfree, hmem])⟩
  · intro c' hc'
    have hfresh := h.conns_fresh c' hc'
    have hc : c' ≠ c := by
      rintro rfl
      exact absurd (halive.symm.trans hfresh) (by simp)
    dsimp only
    rw [Function.update_of_ne hc]
    exact hfresh

/-- A `Connection` that owns nothing and is not in the list dies. -/
theorem Sound.setConn_dead {s : RealConnectionPool} (h : Sound s) {c : Nat} {conn : Connection}
    (hqueue : c ∉ s.aquireList) (hheld : (s.conns c).held = none) (hdead : conn.alive = false) :
    Sound (s.setConn c conn) := by
  unfold setConn
  refine { h with queued := ?_, matched := ?_, served := ?_, unsent := ?_, conns_fresh := ?_ }
  · intro c' hc'
    have hc : c' ≠ c := fun heq => hqueue (heq ▸ hc')
    dsimp only
    rw [Function.update_of_ne hc]
    exact h.queued c' hc'
  · have hkept : conn.held = (s.conns c).held := (Connection.held_dead hdead).trans hheld.symm
    rw [held_update, hkept, Function.update_eq_self]
    exact h.matched
  · intro r hopen
    exact h.served_other rfl (h.not_owner hheld r) hopen
  · intro c' st halive hnone hst
    dsimp only at halive hnone hst
    by_cases hc : c' = c
    · rw [hc, Function.update_self, hdead] at halive
      cases halive
    · rw [Function.update_of_ne hc] at halive hnone hst
      exact h.unsent c' st halive hnone hst
  · intro c' hc'
    dsimp only
    by_cases hc : c' = c
    · rw [hc, Function.update_self]
      exact hdead
    · rw [Function.update_of_ne hc]
      exact h.conns_fresh c' hc'

/-- The destructor takes the `RealConnection` from its owner. -/
theorem Sound.detach {s : RealConnectionPool} (h : Sound s) {c r : Nat}
    (hhandler : (s.reals r).dataHandler = some c)
    (hsettled : (s.reals r).isOpen = true → (s.reals r).Settled) (busy : List Nat) :
    Sound { s.setConn c { s.conns c with alive := false } with
      reals := Function.update s.reals r { s.reals r with dataHandler := none }
      busy := busy } := by
  unfold setConn
  constructor
  · exact h.queue_nodup
  · intro c' hc'
    obtain ⟨halive', hnone'⟩ := h.queued c' hc'
    have hc : c' ≠ c := by
      rintro rfl
      exact absurd (hnone'.symm.trans (h.owner hhandler).2) (by simp)
    dsimp only
    rw [Function.update_of_ne hc]
    exact ⟨halive', hnone'⟩
  · exact h.free_nodup
  · intro r' hr'
    dsimp only
    by_cases hr : r' = r
    · rw [hr, Function.update_self]
    · rw [Function.update_of_ne hr]
      exact h.unowned r' hr'
  · rw [dataHandler_update, held_update, Connection.held_dead rfl]
    exact h.matched.unlink hhandler
  · intro r' hopen
    by_cases hr : r' = r
    · subst hr
      dsimp only [receiver] at hopen ⊢
      rw [Function.update_self] at hopen ⊢
      exact hsettled hopen
    · have hother : (s.reals r').dataHandler ≠ some c := fun hc =>
        hr (h.matched.right_unique hc hhandler)
      exact h.served_other (Function.update_of_ne hr _ _) hother hopen
  · intro c' st halive' hnone hst
    dsimp only at halive' hnone hst
    by_cases hc : c' = c
    · rw [hc, Function.update_self] at halive'
      cases halive'
    · rw [Function.update_of_ne hc] at halive' hnone hst
      exact h.unsent c' st halive' hnone hst
  · exact h.right_update (h.right r)
  · intro r' hr'
    obtain ⟨hnone, hfree⟩ := h.reals_fresh r' hr'
    refine ⟨?_, hfree⟩
    dsimp only
    by_cases hr : r' = r
    · rw [hr, Function.update_self]
    · rw [Function.update_of_ne hr]
      exact hnone
  · intro c' hc'
    dsimp only
    by_cases hc : c' = c
    · rw [hc, Function.update_self]
    · rw [Function.update_of_ne hc]
      exact h.conns_fresh c' hc'

end RealConnectionPool

end Jengine.Dbo
