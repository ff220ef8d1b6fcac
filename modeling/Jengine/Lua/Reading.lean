import Jengine.Lua.Writing

/-!
# What is read back

`Value.readBack` is the value that `read_lua_value` makes of the bytes of a value, and
`Value.readNeed` the number of stack slots that it takes.
-/

namespace Jengine.Lua

open Jengine.Lib Jengine.Gateway

namespace Value

/-- The array part: the elements up to the border, nil or not. -/
def rebuildArray (border : Nat) (es : List (Scalar × Value Unit)) : List (Scalar × Value Unit) :=
  (List.range' 1 border).foldl (fun table i => update table (.ofNat i) (lookup es (.ofNat i))) []

/-- The table made of an array part and of all entries. -/
def rebuild (border : Nat) (es : List (Scalar × Value Unit)) : List (Scalar × Value Unit) :=
  es.foldl (fun table e => update table e.1.cstr e.2) (rebuildArray border es)

mutual
def readBack : Value Nat → Value Unit
  | .nil => .nil
  | .scalar x => .scalar x.cstr
  | .table border es => .table () (rebuild border (readBacks es))
  | .unsupported t => .unsupported t
def readBacks : List (Scalar × Value Nat) → List (Scalar × Value Unit)
  | [] => []
  | (k, v) :: es => (k, readBack v) :: readBacks es
end

mutual
/-- The value, and for a table a key, a value and what these need. -/
def readNeed : Value Nat → Nat
  | .nil => 1
  | .scalar _ => 1
  | .table _ es => readNeeds es
  | .unsupported _ => 1
def readNeeds : List (Scalar × Value Nat) → Nat
  | [] => 1
  | (_, v) :: es => max (2 + readNeed v) (readNeeds es)
end

theorem readBacks_eq (es : List (Scalar × Value Nat)) :
    readBacks es = es.map fun e => (e.1, readBack e.2) := by
  induction es with
  | nil => rfl
  | cons e es ih => rw [readBacks, ih, List.map_cons]

theorem lookup_readBacks (es : List (Scalar × Value Nat)) (k : Scalar) :
    lookup (readBacks es) k = readBack (lookup es k) := by
  rw [readBacks_eq, lookup, find_map, lookup]
  cases find es k with
  | none => rfl
  | some v => rfl

theorem readNeeds_le_iff (es : List (Scalar × Value Nat)) (k n : Nat) :
    k + readNeeds es ≤ n ↔ k + 1 ≤ n ∧ ∀ e ∈ es, k + 2 + readNeed e.2 ≤ n := by
  induction es with
  | nil => simp [readNeeds]
  | cons e es ih =>
      have hmax : k + max (2 + readNeed e.2) (readNeeds es) ≤ n ↔
          k + 2 + readNeed e.2 ≤ n ∧ k + readNeeds es ≤ n := by omega
      rw [readNeeds, hmax, ih, List.forall_mem_cons]
      tauto

end Value

open Value

/-! ### The data of a scalar -/

section Fields

variable {β : Type} (L : List (Value β)) (rest : List UInt8)

theorem fetch_eq {α : Type} {r : Cluster.Reader α} {m m' : List UInt8} {a : α}
    (h : r m = some (a, m')) : fetch r (L, m) = some (a, (L, m')) := by
  rw [fetch, h, Option.map_some]

theorem readSByte_cons (b : UInt8) : readSByte (L, b :: rest) = some (b, (L, rest)) := by
  apply fetch_eq
  have hbyte : toLE 1 b.toNat = [b] := by
    simp [toLE]
  have hint := Cluster.Reader.readInt_toLE (show b.toNat < 256 ^ 1 from b.toNat_lt) rest
  rw [hbyte, List.singleton_append] at hint
  show ((Cluster.Reader.readInt 1 (b :: rest)).bind fun p => some (UInt8.ofNat p.1, p.2)) = _
  rw [hint, Option.bind_some, UInt8.ofNat_toNat]

theorem readUShort_toLE {n : Nat} (h : n < 65536) :
    readUShort (L, toLE 2 (UInt16.ofNat n).toNat ++ rest) = some (n, (L, rest)) := by
  have hfetch := fetch_eq L (Cluster.Reader.readUShort_toLE (UInt16.ofNat n) rest)
  show ((fetch Cluster.Reader.readUShort (L, toLE 2 (UInt16.ofNat n).toNat ++ rest)).bind
    fun p => some (p.1.toNat, p.2)) = _
  rw [hfetch, Option.bind_some, UInt16.toNat_ofNat_of_lt' h]

theorem readDouble_toLE (bits : UInt64) :
    readDouble (L, toLE 8 bits.toNat ++ rest) = some (bits, (L, rest)) := by
  have hfetch := fetch_eq L
    (Cluster.Reader.readInt_toLE (show bits.toNat < 256 ^ 8 from bits.toNat_lt) rest)
  show ((fetch (Cluster.Reader.readInt 8) (L, toLE 8 bits.toNat ++ rest)).bind
    fun p => some (UInt64.ofNat p.1, p.2)) = _
  rw [hfetch, Option.bind_some, UInt64.ofNat_toNat]

theorem readBoolean_cons (b : Bool) :
    readBoolean (L, (if b then 1 else 0) :: rest) = some (b, (L, rest)) := by
  show ((readSByte (L, (if b then 1 else 0) :: rest)).bind fun p => some (p.1 == 1, p.2)) = _
  rw [readSByte_cons, Option.bind_some]
  cases b with
  | true => rfl
  | false => rfl

theorem readString_bytes {bs : List UInt8} (h : bs.length ≤ 65535) :
    readString (L, toLE 2 (UInt16.ofNat bs.length).toNat ++
      bs.take (UInt16.ofNat bs.length).toNat ++ rest) = some (bs, (L, rest)) := by
  apply fetch_eq
  have hlen : (UInt16.ofNat bs.length).toNat = u32 bs.length := by
    rw [UInt16.toNat_ofNat_of_lt' (show bs.length < 65536 by omega)]
    exact (Nat.mod_eq_of_lt (by omega)).symm
  rw [show bs.take (UInt16.ofNat bs.length).toNat = bs.take (u32 bs.length) by rw [hlen]]
  exact Cluster.Reader.readString_encodeString h rest

end Fields

/-! ### The reader -/

section Reader

variable (room : Nat)

/-- `read` turns the bytes `bs` into the value `w`, if `n` slots are free. -/
def Reads (read : Op Unit Unit) (bs : List UInt8) (n : Nat) (w : Value Unit) : Prop :=
  ∀ L rest, Returns read (L, bs ++ rest) (L.length + n ≤ room) () (w :: L, rest)

theorem reads_nil (fuel : Nat) : Reads room (readLuaValue room (fuel + 1)) [0] 1 .nil := by
  intro L rest
  rw [readLuaValue]
  apply Returns.step (readSByte_cons L rest 0)
  exact returns_push room .nil L rest

theorem reads_scalar (fuel : Nat) {x : Scalar} (hshort : x.short = true) :
    Reads room (readLuaValue room (fuel + 1)) x.bytes 1 (.scalar x.cstr) := by
  intro L rest
  rw [readLuaValue]
  cases x with
  | boolean b =>
      apply Returns.step (readSByte_cons L _ 1)
      apply Returns.step (readBoolean_cons L rest b)
      exact returns_push room _ L rest
  | number bits =>
      apply Returns.step (readSByte_cons L _ 3)
      apply Returns.step (readDouble_toLE L rest bits)
      exact returns_push room _ L rest
  | lightuserdata p =>
      apply Returns.step (readSByte_cons L _ 2)
      apply Returns.step (readDouble_toLE L rest p)
      exact returns_push room _ L rest
  | string bs =>
      apply Returns.step (readSByte_cons L _ 4)
      apply Returns.step (readString_bytes L rest (of_decide_eq_true hshort))
      exact returns_push room _ L rest

section Table

variable {read : Op Unit Unit} (border : Nat) {es : List (Scalar × Value Nat)}
  (L : List (Value Unit)) (rest : List UInt8)

theorem returns_readArray (hnil : Reads room read [0] 1 .nil)
    (hvalues : ∀ e ∈ es, Reads room read (bytes e.2) (readNeed e.2) (readBack e.2)) :
    Returns ((List.range' 1 border).forM fun i => do
        read
        rawseti (-2) i)
      (.table () [] :: L,
        ((List.range' 1 border).flatMap fun i => bytes (lookup es (.ofNat i))) ++ rest)
      (∀ i ∈ List.range' 1 border, L.length + 1 + readNeed (lookup es (.ofNat i)) ≤ room) ()
      (.table () (rebuildArray border (readBacks es)) :: L, rest) := by
  have hlookup : ∀ i, Reads room read (bytes (lookup es (.ofNat i)))
      (readNeed (lookup es (.ofNat i))) (readBack (lookup es (.ofNat i))) := by
    intro i
    rcases lookup_eq es (.ofNat i) with hlookup | ⟨e, he, hlookup⟩
    · rw [hlookup]
      exact hnil
    · rw [hlookup]
      exact hvalues e he
  let array (done : List Nat) : List (Scalar × Value Unit) := done.foldl
    (fun table i => update table (.ofNat i) (lookup (readBacks es) (.ofNat i))) []
  refine Returns.forM (S := fun done left =>
    (.table () (array done) :: L,
      (left.flatMap fun i => bytes (lookup es (.ofNat i))) ++ rest))
    (P := fun i => L.length + 1 + readNeed (lookup es (.ofNat i)) ≤ room) _ ?_
  intro done i left _
  have hread := hlookup i (.table () (array done) :: L)
    ((left.flatMap fun i => bytes (lookup es (.ofNat i))) ++ rest)
  have hnext : array (done ++ [i]) =
      update (array done) (.ofNat i) (readBack (lookup es (.ofNat i))) := by
    simp only [array, List.foldl_append, List.foldl_cons, List.foldl_nil, lookup_readBacks]
  rw [hnext, List.flatMap_cons, List.append_assoc]
  exact hread.last rfl

theorem rawset_eq {k : Scalar} (hkey : k.isKey = true) (v : Value Unit)
    (entries : List (Scalar × Value Unit)) (m : List UInt8) :
    rawset (-3) (v :: .scalar k :: .table () entries :: L, m) =
      some ((), (.table () (update entries k v) :: L, m)) := by
  have hrun : rawset (-3) (v :: .scalar k :: .table () entries :: L, m) =
      (if k.isKey then do replace (-3) (.table () (update entries k v)); pop 2 else failure :
        Op Unit Unit) (v :: .scalar k :: .table () entries :: L, m) := rfl
  rw [hrun, if_pos hkey]
  rfl

theorem returns_readPairs (entries : List (Scalar × Value Unit))
    (hkeys : ∀ e ∈ es, e.1.isKey = true)
    (hscalar : ∀ e ∈ es, Reads room read e.1.bytes 1 (.scalar e.1.cstr))
    (hvalues : ∀ e ∈ es, Reads room read (bytes e.2) (readNeed e.2) (readBack e.2)) :
    Returns ((List.range es.length).forM fun _ => do
        read
        read
        rawset (-3))
      (.table () entries :: L, (es.flatMap fun e => e.1.bytes ++ bytes e.2) ++ rest)
      (∀ e ∈ es, L.length + 2 + readNeed e.2 ≤ room) ()
      (.table () ((readBacks es).foldl (fun table e => update table e.1.cstr e.2) entries) :: L,
        rest) := by
  let body : Op Unit Unit := do
    read
    read
    rawset (-3)
  have hcount : ((List.range es.length).forM fun _ => body) = es.forM fun _ => body :=
    forM_const body List.length_range
  show Returns ((List.range es.length).forM fun _ => body) _ _ _ _
  rw [hcount]
  let table (done : List (Scalar × Value Nat)) : List (Scalar × Value Unit) :=
    (readBacks done).foldl (fun table e => update table e.1.cstr e.2) entries
  refine Returns.forM (S := fun done left =>
    (.table () (table done) :: L, (left.flatMap fun e => e.1.bytes ++ bytes e.2) ++ rest))
    (P := fun e => L.length + 2 + readNeed e.2 ≤ room) _ ?_
  intro done e left hsplit
  have hmem : e ∈ es := by
    rw [hsplit]
    exact List.mem_append_right _ List.mem_cons_self
  have hkey := hscalar e hmem (.table () (table done) :: L)
    (bytes e.2 ++ ((left.flatMap fun e => e.1.bytes ++ bytes e.2) ++ rest))
  have hvalue := hvalues e hmem (.scalar e.1.cstr :: .table () (table done) :: L)
    ((left.flatMap fun e => e.1.bytes ++ bytes e.2) ++ rest)
  have hset := rawset_eq L ((Scalar.isKey_cstr e.1).trans (hkeys e hmem)) (readBack e.2)
    (table done) ((left.flatMap fun e => e.1.bytes ++ bytes e.2) ++ rest)
  have hnext : table (done ++ [e]) = update (table done) e.1.cstr (readBack e.2) := by
    simp only [table, readBacks_eq, List.map_append, List.map_cons, List.map_nil,
      List.foldl_append, List.foldl_cons, List.foldl_nil]
  have hround : Returns body (.table () (table done) :: L, e.1.bytes ++
      (bytes e.2 ++ ((left.flatMap fun e => e.1.bytes ++ bytes e.2) ++ rest)))
      (L.length + 1 + 1 ≤ room ∧ L.length + 1 + 1 + readNeed e.2 ≤ room) ()
      (.table () (table (done ++ [e])) :: L,
        (left.flatMap fun e => e.1.bytes ++ bytes e.2) ++ rest) := by
    rw [hnext]
    apply hkey.bind
    exact hvalue.last hset
  rw [List.flatMap_cons, List.append_assoc, List.append_assoc]
  apply hround.congr
  omega

theorem returns_readTable (hborder : border < 65536) (hlength : es.length < 65536)
    (hkeys : ∀ e ∈ es, e.1.isKey = true) (hisborder : IsBorder border es)
    (hnil : Reads room read [0] 1 .nil)
    (hscalar : ∀ e ∈ es, Reads room read e.1.bytes 1 (.scalar e.1.cstr))
    (hvalues : ∀ e ∈ es, Reads room read (bytes e.2) (readNeed e.2) (readBack e.2)) :
    Returns (readTable room read) (L, tableBytes border (entryBytes es) ++ rest)
      (L.length + readNeeds es ≤ room) () (readBack (.table border es) :: L, rest) := by
  have hall : Returns (readTable room read) (L, tableBytes border (entryBytes es) ++ rest)
      (L.length + 1 ≤ room ∧
        (∀ i ∈ List.range' 1 border, L.length + 1 + readNeed (lookup es (.ofNat i)) ≤ room) ∧
          ∀ e ∈ es, L.length + 2 + readNeed e.2 ≤ room) ()
      (readBack (.table border es) :: L, rest) := by
    rw [tableBytes_eq, List.append_assoc, List.append_assoc, List.append_assoc, readTable]
    apply (returns_push room _ L _).bind
    apply Returns.step (readUShort_toLE _ _ hborder)
    apply (returns_readArray room border L _ hnil hvalues).bind
    apply Returns.step (readUShort_toLE _ _ hlength)
    exact returns_readPairs room L rest (rebuildArray border (readBacks es)) hkeys hscalar hvalues
  apply hall.congr
  rw [readNeeds_le_iff]
  constructor
  · rintro ⟨hnew, -, hpairs⟩
    exact ⟨hnew, hpairs⟩
  · rintro ⟨hnew, hpairs⟩
    refine ⟨hnew, ?_, hpairs⟩
    intro i hi
    rcases lookup_eq es (.ofNat i) with hlookup | ⟨e, he, hlookup⟩
    · obtain ⟨e, he⟩ := hisborder.exists_mem hi
      have := hpairs e he
      rw [hlookup, readNeed]
      omega
    · have := hpairs e he
      rw [hlookup]
      omega

end Table

/-- With `readNeed` slots free, the reader turns the bytes of a value into `readBack` of it and
    reads nothing else; otherwise it runs out of slots. -/
theorem reads_of_wellFormed {v : Value Nat} (hwell : WellFormed v) (hfit : BordersFit v) :
    ∀ {fuel : Nat}, size v ≤ fuel →
      Reads room (readLuaValue room fuel) (bytes v) (readNeed v) (readBack v) := by
  induction v using Value.induct with
  | hnil =>
      intro fuel hfuel
      obtain ⟨fuel, rfl⟩ := Nat.exists_eq_succ_of_ne_zero (Nat.ne_of_gt hfuel)
      exact reads_nil room fuel
  | hscalar x =>
      intro fuel hfuel
      obtain ⟨fuel, rfl⟩ := Nat.exists_eq_succ_of_ne_zero (Nat.ne_of_gt hfuel)
      cases hwell with
      | scalar hshort => exact reads_scalar room fuel hshort
  | hunsupported t => cases hwell
  | htable border es ih =>
      intro fuel hfuel L rest
      cases hwell with
      | table hlength hkeys hshort hdistinct hisborder hnonnil hwell =>
      cases hfit with
      | table hborder hfit =>
          rw [size] at hfuel
          have hpos := length_lt_sizes es
          obtain ⟨fuel, rfl⟩ : ∃ n, fuel = n + 2 := ⟨fuel - 2, by omega⟩
          have hvalues : ∀ e ∈ es, Reads room (readLuaValue room (fuel + 1)) (bytes e.2)
              (readNeed e.2) (readBack e.2) := by
            intro e he
            have := size_lt_sizes he
            exact ih e he (hwell e he) (hfit e he) (by omega)
          rw [readLuaValue, bytes, List.cons_append]
          apply Returns.step (readSByte_cons L _ 5)
          exact returns_readTable room border L rest hborder hlength hkeys hisborder
            (reads_nil room fuel) (fun e he => reads_scalar room fuel (hshort e he)) hvalues

end Reader

end Jengine.Lua
