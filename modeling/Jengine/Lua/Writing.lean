import Jengine.Lua.LuaCluster

/-!
# What is written

`Value.bytes` is what `write_lua_value` appends to a message for a value, and `Value.need` the
number of stack slots that it takes.  With fewer free slots the writer fails.
-/

namespace Jengine.Lua

open Jengine.Lib

/-- The type code and the data of a scalar. -/
def Scalar.bytes : Scalar → List UInt8
  | .boolean b => [1, if b then 1 else 0]
  | .lightuserdata p => 2 :: toLE 8 p.toNat
  | .number bits => 3 :: toLE 8 bits.toNat
  | .string bs =>
      4 :: (toLE 2 (UInt16.ofNat bs.length).toNat ++ bs.take (UInt16.ofNat bs.length).toNat)

namespace Value

/-- The bytes of a table from those of its values. -/
def tableBytes (border : Nat) (bss : List (Scalar × List UInt8)) : List UInt8 :=
  toLE 2 (UInt16.ofNat border).toNat ++
    ((List.range' 1 border).flatMap (fun i => (find bss (.ofNat i)).getD [0]) ++
      (toLE 2 (UInt16.ofNat bss.length).toNat ++ bss.flatMap fun e => e.1.bytes ++ e.2))

mutual
def bytes : Value Nat → List UInt8
  | .nil => [0]
  | .scalar x => x.bytes
  | .table border es => 5 :: tableBytes border (entryBytes es)
  | .unsupported _ => []
def entryBytes : List (Scalar × Value Nat) → List (Scalar × List UInt8)
  | [] => []
  | (k, v) :: es => (k, bytes v) :: entryBytes es
end

mutual
/-- A copy of the value, and for a table a key, a value and what these need. -/
def need : Value Nat → Nat
  | .nil => 1
  | .scalar _ => 1
  | .table _ es => needs es
  | .unsupported _ => 1
def needs : List (Scalar × Value Nat) → Nat
  | [] => 2
  | (_, v) :: es => max (3 + need v) (needs es)
end

mutual
/-- A bound for the recursion and for the loops. -/
def size : Value Nat → Nat
  | .nil => 1
  | .scalar _ => 1
  | .table _ es => 1 + sizes es
  | .unsupported _ => 1
def sizes : List (Scalar × Value Nat) → Nat
  | [] => 1
  | (_, v) :: es => size v + (1 + sizes es)
end

theorem entryBytes_eq (es : List (Scalar × Value Nat)) :
    entryBytes es = es.map fun e => (e.1, bytes e.2) := by
  induction es with
  | nil => rfl
  | cons e es ih => rw [entryBytes, ih, List.map_cons]

theorem bytes_lookup (es : List (Scalar × Value Nat)) (k : Scalar) :
    (find (entryBytes es) k).getD [0] = bytes (lookup es k) := by
  rw [entryBytes_eq, find_map, lookup]
  cases find es k with
  | none => rfl
  | some v => rfl

theorem tableBytes_eq (border : Nat) (es : List (Scalar × Value Nat)) :
    tableBytes border (entryBytes es) = toLE 2 (UInt16.ofNat border).toNat ++
      ((List.range' 1 border).flatMap (fun i => bytes (lookup es (.ofNat i))) ++
        (toLE 2 (UInt16.ofNat es.length).toNat ++
          es.flatMap fun e => e.1.bytes ++ bytes e.2)) := by
  rw [tableBytes]
  simp only [bytes_lookup]
  rw [entryBytes_eq, List.length_map, List.flatMap_map]

theorem needs_le_iff (es : List (Scalar × Value Nat)) (k n : Nat) :
    k + needs es ≤ n ↔ k + 2 ≤ n ∧ ∀ e ∈ es, k + 3 + need e.2 ≤ n := by
  induction es with
  | nil => simp [needs]
  | cons e es ih =>
      have hmax : k + max (3 + need e.2) (needs es) ≤ n ↔
          k + 3 + need e.2 ≤ n ∧ k + needs es ≤ n := by omega
      rw [needs, hmax, ih, List.forall_mem_cons]
      tauto

theorem one_le_need (v : Value Nat) : 1 ≤ need v := by
  cases v with
  | nil | scalar | unsupported => exact le_rfl
  | table border es =>
      have h := ((needs_le_iff es 0 (0 + needs es)).mp le_rfl).1
      rw [need]
      omega

theorem length_lt_sizes (es : List (Scalar × Value Nat)) : es.length < sizes es := by
  induction es with
  | nil => decide
  | cons e es ih =>
      rw [sizes, List.length_cons]
      omega

theorem size_lt_sizes {es : List (Scalar × Value Nat)} {e : Scalar × Value Nat} (he : e ∈ es) :
    size e.2 < sizes es := by
  induction es with
  | nil => exact absurd he List.not_mem_nil
  | cons e' es ih =>
      rw [sizes]
      rcases List.mem_cons.mp he with rfl | he
      · omega
      · have := ih he
        omega

end Value

open Value

/-! ### The calls -/

section Calls

variable {β : Type} (room : Nat)

theorem returns_push (v : Value β) (L : List (Value β)) (m : List UInt8) :
    Returns (push room v) (L, m) (L.length + 1 ≤ room) () (v :: L, m) where
  ok h := if_pos h
  fails h := if_neg h

theorem returns_pushvalue {idx : Int} {L : List (Value β)} {v : Value β}
    (h : L[position L idx]? = some v) (m : List UInt8) :
    Returns (pushvalue room idx) (L, m) (L.length + 1 ≤ room) () (v :: L, m) := by
  have hindex : index idx (L, m) = some (v, (L, m)) := by rw [index, h, Option.map_some]
  exact .step hindex (returns_push room v L m)

theorem returns_rawgeti (border : β) (es : List (Scalar × Value β)) (i : Nat)
    (L : List (Value β)) (m : List UInt8) :
    Returns (rawgeti room (-1) i) (.table border es :: L, m) (L.length + 2 ≤ room) ()
      (lookup es (.ofNat i) :: .table border es :: L, m) := by
  have hrun : rawgeti room (-1) i (.table border es :: L, m) =
      push room (lookup es (.ofNat i)) (.table border es :: L, m) := rfl
  exact (returns_push room _ _ m).of_eq hrun

/-- The key that `lua_next` is given after these entries. -/
def lastKey (done : List (Scalar × Value β)) : Value β :=
  match done.getLast? with
  | none => .nil
  | some e => .scalar e.1

theorem lastKey_append (done : List (Scalar × Value β)) (e : Scalar × Value β) :
    lastKey (done ++ [e]) = .scalar e.1 := by
  rw [lastKey, List.getLast?_append, List.getLast?_singleton, Option.some_or]

/-- `lua_next` enumerates the entries in their order, every one once. -/
theorem following_lastKey {done rest : List (Scalar × Value β)}
    (hkeys : ∀ e ∈ done, e.1.isKey = true)
    (hdistinct : Distinct done) :
    following (done ++ rest) (lastKey done) = some rest := by
  rcases List.eq_nil_or_concat done with rfl | ⟨before, e, rfl⟩
  · rfl
  · rw [List.concat_eq_append] at hkeys hdistinct ⊢
    rw [lastKey_append, following, List.append_assoc]
    rw [Distinct, List.pairwise_append] at hdistinct
    have hself : e.1.rawEqual e.1 = true :=
      Scalar.rawEqual_refl (hkeys e (List.mem_append_right _ (List.mem_singleton_self e)))
    have hbefore : ∀ d ∈ before, (!d.1.rawEqual e.1) = true := by
      intro d hd
      rw [hdistinct.2.2 d hd e (List.mem_singleton_self e)]
      rfl
    rw [List.dropWhile_append_of_pos hbefore, List.singleton_append, List.dropWhile_cons, hself]
    rfl

/-- What is left of `lua_next` after it has popped the key. -/
theorem next_eq (border : β) (es : List (Scalar × Value β)) (key : Value β) (L : List (Value β))
    (m : List UInt8) :
    next room (-2) (key :: .table border es :: L, m) =
      (match following es key with
        | some ((k, v) :: _) => do push room (.scalar k); push room v; return true
        | some [] => return false
        | none => failure : Op β Bool) (.table border es :: L, m) := rfl

theorem returns_next {border : β} {es rest : List (Scalar × Value β)} {key : Value β}
    {e : Scalar × Value β} (h : following es key = some (e :: rest)) (L : List (Value β))
    (m : List UInt8) :
    Returns (next room (-2)) (key :: .table border es :: L, m) (L.length + 3 ≤ room) true
      (e.2 :: .scalar e.1 :: .table border es :: L, m) := by
  have hkey := returns_push room (.scalar e.1) (.table border es :: L) m
  have hvalue := returns_push room e.2 (.scalar e.1 :: .table border es :: L) m
  have hboth := hkey.bind (f := fun _ => push room e.2 >>= fun _ => pure true) (hvalue.last rfl)
  have hrun := next_eq room border es key L m
  rw [h] at hrun
  apply (hboth.of_eq hrun).congr
  simp only [List.length_cons]
  omega

theorem next_last {border : β} {es : List (Scalar × Value β)} {key : Value β}
    (h : following es key = some []) (L : List (Value β)) (m : List UInt8) :
    next room (-2) (key :: .table border es :: L, m) =
      some (false, (.table border es :: L, m)) := by
  rw [next_eq, h]
  rfl

end Calls

/-! ### The writer -/

section Writer

variable (room : Nat)

/-- `write` appends `bs` for the value `v` at any index, if `n` slots are free. -/
def Writes (write : Int → Op Nat Unit) (v : Value Nat) (n : Nat) (bs : List UInt8) : Prop :=
  ∀ idx L m, L[position L idx]? = some v →
    Returns (write idx) (L, m) (L.length + n ≤ room) () (L, m ++ bs)

theorem writes_nil (fuel : Nat) : Writes room (writeLuaValue room (fuel + 1)) .nil 1 [0] := by
  intro idx L m h
  rw [writeLuaValue]
  exact (returns_pushvalue room h m).last rfl

theorem writes_scalar (fuel : Nat) (x : Scalar) :
    Writes room (writeLuaValue room (fuel + 1)) (.scalar x) 1 x.bytes := by
  intro idx L m h
  rw [writeLuaValue]
  apply (returns_pushvalue room h m).last
  cases x with
  | boolean b =>
      show some ((), (L, m ++ [1] ++ [if b then 1 else 0])) = _
      rw [List.append_assoc]
      rfl
  | number bits =>
      show some ((), (L, m ++ [3] ++ toLE 8 bits.toNat)) = _
      rw [List.append_assoc]
      rfl
  | lightuserdata p =>
      show some ((), (L, m ++ [2] ++ toLE 8 p.toNat)) = _
      rw [List.append_assoc]
      rfl
  | string bs =>
      show some ((), (L, m ++ [4] ++
        toLE 2 (UInt16.ofNat (UInt16.ofNat bs.length).toNat).toNat ++
        bs.take (UInt16.ofNat bs.length).toNat)) = _
      rw [UInt16.ofNat_toNat, List.append_assoc, List.append_assoc]
      rfl

section Table

variable {write : Int → Op Nat Unit} (border : Nat) {es : List (Scalar × Value Nat)}
  (L : List (Value Nat)) (m : List UInt8)

theorem returns_writeArray (hnil : Writes room write .nil 1 [0])
    (hvalues : ∀ e ∈ es, Writes room write e.2 (need e.2) (bytes e.2)) :
    Returns ((List.range' 1 border).forM fun i => do
        rawgeti room (-1) i
        write (-1)
        pop 1) (.table border es :: L, m)
      (∀ i ∈ List.range' 1 border, L.length + 2 + need (lookup es (.ofNat i)) ≤ room) ()
      (.table border es :: L,
        m ++ (List.range' 1 border).flatMap fun i => bytes (lookup es (.ofNat i))) := by
  have hget : ∀ i, Writes room write (lookup es (.ofNat i)) (need (lookup es (.ofNat i)))
      (bytes (lookup es (.ofNat i))) := by
    intro i
    rcases lookup_eq es (.ofNat i) with hlookup | ⟨e, he, hlookup⟩
    · rw [hlookup]
      exact hnil
    · rw [hlookup]
      exact hvalues e he
  let S (done _ : List Nat) : List (Value Nat) × List UInt8 :=
    (.table border es :: L, m ++ done.flatMap fun i => bytes (lookup es (.ofNat i)))
  have hloop := Returns.forM (S := S)
    (P := fun i => L.length + 2 + need (lookup es (.ofNat i)) ≤ room) (List.range' 1 border)
    (f := fun i => do rawgeti room (-1) i; write (-1); pop 1) ?_
  · rw [show S [] (List.range' 1 border) = (.table border es :: L, m) by simp [S]] at hloop
    exact hloop
  · intro done i rest _
    have hpush := returns_rawgeti room border es i L
      (m ++ done.flatMap fun i => bytes (lookup es (.ofNat i)))
    have hwrite := hget i (-1) (lookup es (.ofNat i) :: .table border es :: L)
      (m ++ done.flatMap fun i => bytes (lookup es (.ofNat i))) rfl
    have hboth := hpush.bind (f := fun _ => write (-1) >>= fun _ => pop 1) (hwrite.last rfl)
    have hnext : S (done ++ [i]) rest = (.table border es :: L,
        m ++ (done.flatMap fun i => bytes (lookup es (.ofNat i))) ++
          bytes (lookup es (.ofNat i))) := by
      simp only [S, List.flatMap_append, List.flatMap_singleton, List.append_assoc]
    rw [hnext]
    apply hboth.congr
    simp only [List.length_cons]
    have := one_le_need (lookup es (.ofNat i))
    omega

theorem following_of_split {done rest : List (Scalar × Value Nat)}
    (hkeys : ∀ e ∈ es, e.1.isKey = true) (hdistinct : Distinct es) (hsplit : es = done ++ rest) :
    following es (lastKey done) = some rest := by
  subst hsplit
  apply following_lastKey
  · exact fun e he => hkeys e (List.mem_append_left _ he)
  · exact (List.pairwise_append.mp hdistinct).1

theorem returns_count (hkeys : ∀ e ∈ es, e.1.isKey = true) (hdistinct : Distinct es)
    {fuel : Nat} (hfuel : es.length < fuel) :
    Returns (whileM (next room (-2)) (fun len1 => do pop 1; return len1 + 1) fuel 0)
      (.nil :: .table border es :: L, m) (∀ e ∈ es, L.length + 3 ≤ room) es.length
      (.table border es :: L, m) := by
  have hloop := Returns.whileM (c := next room (-2))
    (P := fun _ => L.length + 3 ≤ room) (Q := fun _ => True)
    (S := fun done => (lastKey done :: .table border es :: L, m))
    (M := fun _ e => (e.2 :: .scalar e.1 :: .table border es :: L, m))
    (A := List.length) (f := fun len1 => do pop 1; return len1 + 1) es ?_ ?_
    (next_last room (following_of_split hkeys hdistinct (List.append_nil es).symm) L m) hfuel
  · apply hloop.congr
    simp only [and_true]
  · intro done e rest hsplit
    exact returns_next room (following_of_split hkeys hdistinct hsplit) L m
  · intro done e rest hsplit
    rw [lastKey_append, List.length_append, List.length_singleton]
    exact .always rfl

theorem returns_writePairs (hkeys : ∀ e ∈ es, e.1.isKey = true) (hdistinct : Distinct es)
    (hscalar : ∀ x, Writes room write (.scalar x) 1 x.bytes)
    (hvalues : ∀ e ∈ es, Writes room write e.2 (need e.2) (bytes e.2))
    {fuel : Nat} (hfuel : es.length < fuel) :
    Returns (whileM (next room (-2)) (fun () => do write (-2); write (-1); pop 1) fuel ())
      (.nil :: .table border es :: L, m) (∀ e ∈ es, L.length + 3 + need e.2 ≤ room) ()
      (.table border es :: L, m ++ es.flatMap fun e => e.1.bytes ++ bytes e.2) := by
  let out (done : List (Scalar × Value Nat)) : List UInt8 :=
    m ++ done.flatMap fun e => e.1.bytes ++ bytes e.2
  have hloop := Returns.whileM (c := next room (-2))
    (P := fun _ => L.length + 3 ≤ room)
    (Q := fun e => L.length + 4 ≤ room ∧ L.length + 3 + need e.2 ≤ room)
    (S := fun done => (lastKey done :: .table border es :: L, out done))
    (M := fun done e => (e.2 :: .scalar e.1 :: .table border es :: L, out done))
    (A := fun _ => ()) (f := fun () => do write (-2); write (-1); pop 1) es ?_ ?_
    (next_last room (following_of_split hkeys hdistinct (List.append_nil es).symm) L _) hfuel
  · rw [show out [] = m from List.append_nil m] at hloop
    apply hloop.congr
    apply forall₂_congr
    intro e _
    have := one_le_need e.2
    omega
  · intro done e rest hsplit
    exact returns_next room (following_of_split hkeys hdistinct hsplit) L (out done)
  · intro done e rest hsplit
    have hmem : e ∈ es := by
      rw [hsplit]
      exact List.mem_append_right _ List.mem_cons_self
    have hkey := hscalar e.1 (-2) (e.2 :: .scalar e.1 :: .table border es :: L) (out done) rfl
    have hvalue := hvalues e hmem (-1) (e.2 :: .scalar e.1 :: .table border es :: L)
      (out done ++ e.1.bytes) rfl
    have hnext : out (done ++ [e]) = out done ++ e.1.bytes ++ bytes e.2 := by
      simp only [out, List.flatMap_append, List.flatMap_singleton, List.append_assoc]
    rw [lastKey_append, hnext]
    exact hkey.bind (f := fun _ => write (-1) >>= fun _ => pop 1) (hvalue.last rfl)

theorem returns_writeTable (hkeys : ∀ e ∈ es, e.1.isKey = true) (hdistinct : Distinct es)
    (hborder : IsBorder border es) (hnil : Writes room write .nil 1 [0])
    (hscalar : ∀ x, Writes room write (.scalar x) 1 x.bytes)
    (hvalues : ∀ e ∈ es, Writes room write e.2 (need e.2) (bytes e.2))
    {fuel : Nat} (hfuel : es.length < fuel) :
    Returns (writeTable room write fuel) (.table border es :: L, m) (L.length + needs es ≤ room) ()
      (.table border es :: L, m ++ tableBytes border (entryBytes es)) := by
  have hpush := returns_push room .nil (.table border es :: L)
  have harray := returns_writeArray room border L (m ++ toLE 2 (UInt16.ofNat border).toNat)
    hnil hvalues
  have hall : Returns (writeTable room write fuel) (.table border es :: L, m)
      ((∀ i ∈ List.range' 1 border, L.length + 2 + need (lookup es (.ofNat i)) ≤ room) ∧
        L.length + 1 + 1 ≤ room ∧ (∀ e ∈ es, L.length + 3 ≤ room) ∧ L.length + 1 + 1 ≤ room ∧
          ∀ e ∈ es, L.length + 3 + need e.2 ≤ room) ()
      (.table border es :: L, m ++ tableBytes border (entryBytes es)) := by
    rw [tableBytes_eq, ← List.append_assoc, ← List.append_assoc, ← List.append_assoc, writeTable]
    apply Returns.step rfl
    apply Returns.step rfl
    apply harray.bind
    apply (hpush _).bind
    apply (returns_count room border L _ hkeys hdistinct hfuel).bind
    apply Returns.step rfl
    exact (hpush _).bind (returns_writePairs room border L _ hkeys hdistinct hscalar hvalues hfuel)
  apply hall.congr
  rw [needs_le_iff]
  constructor
  · rintro ⟨-, hcopy, -, -, hpairs⟩
    exact ⟨hcopy, hpairs⟩
  · rintro ⟨hcopy, hpairs⟩
    refine ⟨?_, hcopy, ?_, hcopy, hpairs⟩
    · intro i hi
      rcases lookup_eq es (.ofNat i) with hlookup | ⟨e, he, hlookup⟩
      · obtain ⟨e, he⟩ := hborder.exists_mem hi
        have := hpairs e he
        rw [hlookup, need]
        have := one_le_need e.2
        omega
      · have := hpairs e he
        rw [hlookup]
        omega
    · intro e he
      have := hpairs e he
      omega

end Table

/-- With `need` slots free, the writer appends the bytes of the value and leaves the stack as
    it was; otherwise it runs out of slots. -/
theorem writes_of_wellFormed {v : Value Nat} (hwell : WellFormed v) :
    ∀ {fuel : Nat}, size v ≤ fuel → Writes room (writeLuaValue room fuel) v (need v) (bytes v) := by
  induction v using Value.induct with
  | hnil =>
      intro fuel hfuel
      obtain ⟨fuel, rfl⟩ := Nat.exists_eq_succ_of_ne_zero (Nat.ne_of_gt hfuel)
      exact writes_nil room fuel
  | hscalar x =>
      intro fuel hfuel
      obtain ⟨fuel, rfl⟩ := Nat.exists_eq_succ_of_ne_zero (Nat.ne_of_gt hfuel)
      exact writes_scalar room fuel x
  | hunsupported t => cases hwell
  | htable border es ih =>
      intro fuel hfuel idx L m h
      cases hwell with
      | table hlength hkeys hshort hdistinct hborder hnonnil hwell =>
          rw [size] at hfuel
          have hpos := length_lt_sizes es
          -- One unit of fuel is for the table and one for what is in it.
          obtain ⟨fuel, rfl⟩ : ∃ n, fuel = n + 2 := ⟨fuel - 2, by omega⟩
          have hvalues : ∀ e ∈ es, Writes room (writeLuaValue room (fuel + 1)) e.2 (need e.2)
              (bytes e.2) := by
            intro e he
            have := size_lt_sizes he
            exact ih e he (hwell e he) (by omega)
          have htable := returns_writeTable room border L (m ++ [5]) hkeys hdistinct hborder
            (writes_nil room fuel) (writes_scalar room fuel) hvalues
            (show es.length < fuel + 1 by omega)
          have hall : Returns (writeLuaValue room (fuel + 2) idx) (L, m)
              (L.length + 1 ≤ room ∧ L.length + needs es ≤ room) ()
              (L, m ++ bytes (.table border es)) := by
            rw [writeLuaValue, bytes, List.append_cons]
            apply (returns_pushvalue room h m).bind
            apply Returns.step rfl
            apply Returns.step rfl
            exact htable.last rfl
          apply hall.congr
          rw [need]
          constructor
          · exact fun h => h.2
          · intro h
            have htwo := ((needs_le_iff es L.length room).mp h).1
            exact ⟨by omega, h⟩

end Writer

end Jengine.Lua
