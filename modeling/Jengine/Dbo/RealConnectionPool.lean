import Jengine.Dbo.Reply
import Jengine.Lib.Runs
import Mathlib.Data.List.Nodup

/-!
# Pooled connections

`Connection` (`base/dbo_bk/connection.cpp`) and `RealConnectionPool`
(`base/dbo_bk/internal/realconnectionpool.cpp`).  A `Connection` waits in the list of
the pool until a `RealConnection` is free, keeps it while it lives, and gives it back
in its destructor, whether its statement has got its reply or not.  The server answers
the commands of a `RealConnection` in their order, and its packets arrive at any time.

Objects are numbered in the order of their creation.  References are not counted: a
`Connection` may be destroyed whenever it is not in the list.  What a callback does is
done in a step of its own.
-/

namespace Jengine.Dbo

open Jengine.Lib

structure Connection where
  /-- Created, and the destructor has not been called. -/
  alive : Bool
  realconn : Option Nat
  curStmt : Option StatementBase

structure RealConnectionPool where
  reals : Nat → RealConnection
  realCount : Nat
  free : List Nat
  busy : List Nat
  aquireList : List Nat
  conns : Nat → Connection
  connCount : Nat
  stmtCount : Nat
  /-- An assertion has failed. -/
  aborted : Bool

namespace RealConnectionPool

/-- Before the first connection of the pool is authorized. -/
def start : RealConnectionPool where
  reals := fun _ => { RealConnection.authorized with connect := false }
  realCount := 0
  free := []
  busy := []
  aquireList := []
  conns := fun _ => ⟨false, none, none⟩
  connCount := 0
  stmtCount := 0
  aborted := false

def setReal (s : RealConnectionPool) (r : Nat) (real : RealConnection) : RealConnectionPool :=
  { s with reals := Function.update s.reals r real }

def setConn (s : RealConnectionPool) (c : Nat) (conn : Connection) : RealConnectionPool :=
  { s with conns := Function.update s.conns c conn }

/-- What a call on the current statement of a `Connection` leaves behind. -/
def leave (s : RealConnectionPool) (c r : Nat) (call : Call) : RealConnectionPool :=
  { s with
    reals := Function.update s.reals r call.real
    conns := Function.update s.conns c { s.conns c with curStmt := some call.stmt }
    aborted := s.aborted || call.exit == some .assertion }

/-- The `RealConnection` of `OnAquireRealConnectionSuccess` is set on both sides. -/
def attach (s : RealConnectionPool) (c r : Nat) : RealConnectionPool :=
  { s with
    reals := Function.update s.reals r { s.reals r with dataHandler := some c }
    conns := Function.update s.conns c { s.conns c with realconn := some r } }

/-- `OnAquireRealConnectionSuccess`, and whether it returns. -/
def onAquireRealConnectionSuccess (s : RealConnectionPool) (c r : Nat) :
    RealConnectionPool × Option Exit :=
  match (s.conns c).curStmt with
  | none => (s.attach c r, none)
  | some st =>
      let call := st.callRealExecute ((s.attach c r).reals r)
      ((s.attach c r).leave c r call, call.exit)

/-- The loop of `CheckAquireList`, which an exception ends; `n` is the length of the list. -/
def checkAquire : Nat → RealConnectionPool → RealConnectionPool
  | 0, s => s
  | n + 1, s =>
      match s.free, s.aquireList with
      | r :: free, c :: rest =>
          let got := onAquireRealConnectionSuccess
            { s with free := free, aquireList := rest, busy := s.busy ++ [r] } c r
          if got.2 = none then checkAquire n got.1 else got.1
      | _, _ => s

def checkAquireList (s : RealConnectionPool) : RealConnectionPool :=
  checkAquire s.aquireList.length s

/-- `OnAuthSuccess` of a new `RealConnection`. -/
def onAuthSuccess (s : RealConnectionPool) : RealConnectionPool :=
  checkAquireList
    { s with
      reals := Function.update s.reals s.realCount .authorized
      realCount := s.realCount + 1
      free := s.free ++ [s.realCount] }

/-- `Connection::Create`. -/
def create (s : RealConnectionPool) : RealConnectionPool :=
  checkAquireList
    { s with
      conns := Function.update s.conns s.connCount ⟨true, none, none⟩
      connCount := s.connCount + 1
      aquireList := s.aquireList ++ [s.connCount] }

/-- `CreateStatement` and `CreatePreparedStatement`; nothing changes if they throw
    "another statement under progress". -/
def createStatement (s : RealConnectionPool) (c : Nat) (sql : String) (kind : Kind) :
    RealConnectionPool :=
  if (s.conns c).curStmt.all StatementBase.isFinish = true then
    { s with
      conns := Function.update s.conns c
        { s.conns c with curStmt := some ⟨s.stmtCount, sql, 0, .parseNew, kind⟩ }
      stmtCount := s.stmtCount + 1 }
  else s

/-- A parameter of the current statement is set. -/
def setParam (s : RealConnectionPool) (c : Nat) : RealConnectionPool :=
  match (s.conns c).curStmt with
  | none => s
  | some st => s.setConn c { s.conns c with curStmt := some st.setParam }

/-- `Execute` on the current statement of a `Connection`. -/
def execute (s : RealConnectionPool) (c : Nat) : RealConnectionPool :=
  match (s.conns c).curStmt with
  | none => s
  | some st =>
      match st.beginExecute with
      | none => { s with aborted := true }
      | some st =>
          match (s.conns c).realconn with
          | none => s.setConn c { s.conns c with curStmt := some st }
          | some r => s.leave c r (st.callRealExecute (s.reals r))

/-- `ReleaseRealConnection`. -/
def releaseRealConnection (s : RealConnectionPool) (r : Nat) : RealConnectionPool :=
  let s' := { s with
    reals := Function.update s.reals r { s.reals r with dataHandler := none }
    busy := s.busy.filter (· ≠ r) }
  if (s.reals r).connect = true then checkAquireList { s' with free := s.free ++ [r] } else s'

/-- `Connection::~Connection`. -/
def destroy (s : RealConnectionPool) (c : Nat) : RealConnectionPool :=
  let s' := s.setConn c { s.conns c with alive := false }
  match (s.conns c).realconn with
  | none => s'.setConn c ⟨false, none, none⟩
  | some r => (s'.releaseRealConnection r).setConn c ⟨false, none, none⟩

/-- `RealConnection::OnReceivePacket`, then `Connection::OnReceivePacket`. -/
def onReceivePacket (s : RealConnectionPool) (r : Nat) (pktin : PacketIn) : RealConnectionPool :=
  match (s.reals r).dataHandler with
  | none => s
  | some c =>
      match (s.conns c).curStmt with
      | none => s
      | some st => s.leave c r (st.handleRawResponse (s.reals r) pktin)

/-- The next packet of the server is received. -/
def receive (s : RealConnectionPool) (r : Nat) : RealConnectionPool :=
  if (s.reals r).isOpen = true then
    match (s.reals r).stream with
    | [] => s
    | pktin :: rest =>
        (s.setReal r { s.reals r with stream := rest }).onReceivePacket r pktin
  else s

/-- `OnEventIOClose` after `Close`: `HandleClose` calls back, and the pool lets go. -/
def onClose (s : RealConnectionPool) (r : Nat) : RealConnectionPool :=
  if (s.reals r).closed = true then
    { s with
      reals := Function.update s.reals r { s.reals r with connect := false }
      free := s.free.filter (· ≠ r)
      busy := s.busy.filter (· ≠ r) }
  else s

inductive Action where
  | authSuccess
  | create
  | createStatement (c : Nat) (sql : String)
  | createPreparedStatement (c : Nat) (sql : String)
  | setParam (c : Nat)
  | execute (c : Nat)
  | destroy (c : Nat)
  | serve (r : Nat) (reply : Reply)
  | receive (r : Nat)
  | close (r : Nat)
  | ioClose (r : Nat)

/-- The steps of a pool whose process has not been aborted. -/
def act (s : RealConnectionPool) : Action → RealConnectionPool
  | .authSuccess => s.onAuthSuccess
  | .create => s.create
  | .createStatement c sql =>
      if (s.conns c).alive = true then s.createStatement c sql (.statement .statementNew) else s
  | .createPreparedStatement c sql =>
      if (s.conns c).alive = true then s.createStatement c sql (.prepared ⟨.prepareNew, 0, 0⟩)
      else s
  | .setParam c => if (s.conns c).alive = true then s.setParam c else s
  | .execute c => if (s.conns c).alive = true then s.execute c else s
  | .destroy c =>
      if (s.conns c).alive = true ∧ c ∉ s.aquireList then s.destroy c else s
  | .serve r reply => s.setReal r ((s.reals r).serve reply)
  | .receive r => s.receive r
  | .close r => s.setReal r { s.reals r with closed := true }
  | .ioClose r => s.onClose r

def step (s : RealConnectionPool) (a : Action) : RealConnectionPool :=
  if s.aborted = true then s else s.act a

/-- A `Connection` is destroyed, and a statement is executed, only if no packet is owed by
    the server on the open `RealConnection` that they have. -/
def Answered (s : RealConnectionPool) : Action → Prop
  | .destroy c | .execute c =>
      ∀ r ∈ (s.conns c).realconn, (s.reals r).isOpen = true → (s.reals r).Settled
  | _ => True

instance (r : RealConnection) : Decidable r.Settled :=
  inferInstanceAs (Decidable (r.sent = [] ∧ r.stream = []))

instance decidableAnswered (s : RealConnectionPool) (a : Action) : Decidable (s.Answered a) := by
  cases a <;> unfold Answered <;> infer_instance

end RealConnectionPool

end Jengine.Dbo
