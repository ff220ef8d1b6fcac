import Jengine.Cluster.Message
import Jengine.Lib.Guarded
import Jengine.Lua.Value

/-!
# Values in messages

`write_lua_value` and `read_lua_value` (`base/lua/cluster/lua-cluster.cpp`) with the part of
the Lua C API that they use.  A Lua stack is a list with its top first, and `room` is the
number of slots it has: nothing calls `lua_checkstack`, and a push without a free slot is
undefined.  Such a push is `none` here, like an error that is raised.

A table is a tree, not a reference to one.  The writer copies the value to the top of the
stack and does not change it, and the reader changes only the table that it has just made.
-/

namespace Jengine.Lua

open Jengine.Lib

variable {β : Type}

/-- A stack and the bytes of a message: those written so far, or those still to be read. -/
abbrev Op (β : Type) := StateT (List (Value β) × List UInt8) Option

/-! ### The stack -/

/-- The place of an index in the list: from the bottom, or from the top if it is negative. -/
def position (L : List (Value β)) : Int → Nat
  | .ofNat i => if i ≤ L.length then L.length - i else L.length
  | .negSucc i => i

def index (idx : Int) : Op β (Value β) := fun (L, m) =>
  L[position L idx]?.map fun v => (v, (L, m))

/-- The value at an index changes. -/
def replace (idx : Int) (v : Value β) : Op β Unit := fun (L, m) =>
  some ((), (L.set (position L idx) v, m))

def pop (n : Nat) : Op β Unit := fun (L, m) => some ((), (L.drop n, m))

def popValue : Op β (Value β)
  | ([], _) => none
  | (v :: L, m) => some (v, (L, m))

section Api

variable (room : Nat)

def push (v : Value β) : Op β Unit := fun (L, m) =>
  if L.length < room then some ((), (v :: L, m)) else none

def pushvalue (idx : Int) : Op β Unit := do push room (← index idx)

/-- `lua_rawlen`: a border of a table, or the length of a string. -/
def rawlen (idx : Int) : Op Nat Nat := do
  match ← index idx with
  | .table border _ => return border
  | .scalar (.string bs) => return bs.length
  | _ => return 0

def rawgeti (idx : Int) (i : Nat) : Op β Unit := do
  match ← index idx with
  | .table _ es => push room (Value.lookup es (.ofNat i))
  | _ => failure

/-- The entries after a key; nil is before the first of them. -/
def following (es : List (Scalar × Value β)) : Value β → Option (List (Scalar × Value β))
  | .nil => some es
  | .scalar k =>
      match es.dropWhile fun e => !e.1.rawEqual k with
      | [] => none
      | _ :: rest => some rest
  | _ => none

/-- `lua_next`. -/
def next (idx : Int) : Op β Bool := do
  match ← index idx with
  | .table _ es =>
      match following es (← popValue) with
      | some ((k, v) :: _) =>
          push room (.scalar k)
          push room v
          return true
      | some [] => return false
      | none => failure
  | _ => failure

def newtable : Op Unit Unit := push room (.table () [])

def rawseti (idx : Int) (i : Nat) : Op β Unit := do
  match ← index (-1), ← index idx with
  | v, .table border es =>
      replace idx (.table border (Value.update es (.ofNat i) v))
      pop 1
  | _, _ => failure

/-- `lua_rawset`, for keys that a `Value` may have: nil and NaN raise an error. -/
def rawset (idx : Int) : Op β Unit := do
  match ← index (-1), ← index (-2), ← index idx with
  | v, .scalar k, .table border es =>
      if k.isKey then
        replace idx (.table border (Value.update es k v))
        pop 2
      else failure
  | _, _, _ => failure

/-! ### The message -/

def putByte (bs : List UInt8) : Op β Unit := fun (L, m) => some ((), (L, m ++ bs))

def writeSByte (v : UInt8) : Op β Unit := putByte [v]
def writeBoolean (v : Bool) : Op β Unit := putByte [if v then 1 else 0]
def writeUShort (v : Nat) : Op β Unit := putByte (toLE 2 (UInt16.ofNat v).toNat)
def writeDouble (bits : UInt64) : Op β Unit := putByte (toLE 8 bits.toNat)
def writeLong (v : UInt64) : Op β Unit := putByte (toLE 8 v.toNat)

def writeBits (v : List UInt8) : Op β Unit := do
  let len := UInt16.ofNat v.length
  writeUShort len.toNat
  putByte (v.take len.toNat)

def fetch {α : Type} (r : Cluster.Reader α) : Op β α := fun (L, m) =>
  (r m).map fun (a, m) => (a, (L, m))

def readUShort : Op β Nat := UInt16.toNat <$> fetch Cluster.Reader.readUShort
def readSByte : Op β UInt8 := fetch Cluster.Reader.readByte
def readBoolean : Op β Bool := (· == 1) <$> fetch Cluster.Reader.readByte
def readDouble : Op β UInt64 := UInt64.ofNat <$> fetch (Cluster.Reader.readInt 8)
def readLong : Op β UInt64 := UInt64.ofNat <$> fetch (Cluster.Reader.readInt 8)
def readString : Op β (List UInt8) := fetch Cluster.Reader.readString

/-! ### Writing -/

/-- `case LUA_TTABLE` of the writer; `write` is the writer itself. -/
def writeTable (write : Int → Op Nat Unit) (fuel : Nat) : Op Nat Unit := do
  let len ← rawlen (-1)
  writeUShort len
  (List.range' 1 len).forM fun i => do
    rawgeti room (-1) i
    write (-1)
    pop 1
  push room .nil
  let len1 ← whileM (next room (-2)) (fun len1 => do pop 1; return len1 + 1) fuel 0
  writeUShort len1
  push room .nil
  whileM (next room (-2)) (fun () => do write (-2); write (-1); pop 1) fuel ()

def writeLuaValue : Nat → Int → Op Nat Unit
  | 0, _ => failure
  | fuel + 1, idx => do
      pushvalue room idx
      let v ← index (-1)
      writeSByte v.type
      match v with
      | .nil => pure ()
      | .scalar (.number bits) => writeDouble bits
      | .scalar (.boolean b) => writeBoolean b
      | .scalar (.string bs) => writeBits bs
      | .table .. => writeTable room (writeLuaValue fuel) fuel
      | .scalar (.lightuserdata p) => writeLong p
      | .unsupported _ => failure
      pop 1

/-! ### Reading -/

/-- `case LUA_TTABLE` of the reader; `read` is the reader itself. -/
def readTable (read : Op Unit Unit) : Op Unit Unit := do
  newtable room
  let len ← readUShort
  (List.range' 1 len).forM fun i => do
    read
    rawseti (-2) i
  let len ← readUShort
  (List.range len).forM fun _ => do
    read
    read
    rawset (-3)

/-- The string is pushed as `c_str()`, and a type that is not listed pushes nothing. -/
def readLuaValue : Nat → Op Unit Unit
  | 0 => failure
  | fuel + 1 => do
      match ← readSByte with
      | 0 => push room .nil
      | 3 => push room (.scalar (.number (← readDouble)))
      | 1 => push room (.scalar (.boolean (← readBoolean)))
      | 4 => push room (.scalar (Scalar.string (← readString)).cstr)
      | 5 => readTable room (readLuaValue fuel)
      | 2 => push room (.scalar (.lightuserdata (← readLong)))
      | _ => pure ()

end Api

end Jengine.Lua
