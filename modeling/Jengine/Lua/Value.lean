import Mathlib.Algebra.Ring.Nat
import Mathlib.Data.List.Pairwise
import Mathlib.Data.List.TakeWhile

/-!
# Lua values

The values that scripts send each other, as trees: a table holds its entries in the order
in which `lua_next` gives them.  `Value` has a parameter for what else is known of a table.
For a table that is written it is the border that `lua_rawlen` returns, which may be any;
of a table that is being read nothing is known.
-/

namespace Jengine.Lua

/-- The values that may be keys of a table here.  A number is the bit pattern of a `double`. -/
inductive Scalar where
  | boolean (b : Bool)
  | number (bits : UInt64)
  | string (bs : List UInt8)
  | lightuserdata (p : UInt64)
deriving DecidableEq

/-- The types whose values cannot be sent. -/
inductive Unsupported where
  | function | userdata | thread
deriving DecidableEq

inductive Value (β : Type) where
  | nil
  | scalar (x : Scalar)
  | table (border : β) (entries : List (Scalar × Value β))
  | unsupported (t : Unsupported)

/-- `lua_type`: the constants `LUA_TNIL` to `LUA_TTHREAD`. -/
def Value.type {β : Type} : Value β → UInt8
  | .nil => 0
  | .scalar (.boolean _) => 1
  | .scalar (.lightuserdata _) => 2
  | .scalar (.number _) => 3
  | .scalar (.string _) => 4
  | .table .. => 5
  | .unsupported .function => 6
  | .unsupported .userdata => 7
  | .unsupported .thread => 8

/-! ### Numbers -/

def isNaN (bits : UInt64) : Bool := decide ((0xFFE0000000000000 : UInt64) < bits <<< 1)

def isZero (bits : UInt64) : Bool := bits == 0 || bits == 0x8000000000000000

/-- Equality of numbers: that of `double`. -/
def sameNumber (a b : UInt64) : Bool := !isNaN a && !isNaN b && (a == b || (isZero a && isZero b))

/-- The `double` that a natural number below `2 ^ 53` is converted to. -/
def doubleOfNat (n : Nat) : UInt64 :=
  if n = 0 then 0
  else UInt64.ofNat ((1023 + n.log2) * 2 ^ 52 + (n - 2 ^ n.log2) * 2 ^ (52 - n.log2))

/-! ### Keys and tables -/

namespace Scalar

/-- `lua_rawequal`. -/
def rawEqual : Scalar → Scalar → Bool
  | .number a, .number b => sameNumber a b
  | x, y => x == y

/-- Whether a table may have this key. -/
def isKey : Scalar → Bool
  | .number bits => !isNaN bits
  | _ => true

/-- The key of an array element. -/
def ofNat (i : Nat) : Scalar := .number (doubleOfNat i)

/-- What `c_str()` shows of a string: the bytes before the first zero. -/
def cstr : Scalar → Scalar
  | .string bs => .string (bs.takeWhile (· != 0))
  | x => x

/-- No zero byte in a string. -/
def noZero : Scalar → Bool
  | .string bs => !bs.contains 0
  | _ => true

/-- A string of at most 65535 bytes. -/
def short : Scalar → Bool
  | .string bs => bs.length ≤ 65535
  | _ => true

theorem rawEqual_refl {x : Scalar} (h : x.isKey = true) : x.rawEqual x = true := by
  cases x with
  | number bits =>
      simp only [isKey, Bool.not_eq_true'] at h
      simp [rawEqual, sameNumber, h]
  | boolean | string | lightuserdata => simp [rawEqual]

/-- Only the two zeros are equal and different. -/
theorem eq_of_rawEqual {x y : Scalar} (h : x.rawEqual y = true)
    (hzero : ∀ bits, y = .number bits → isZero bits = false) : x = y := by
  cases x <;> cases y <;> simp_all [rawEqual, sameNumber]

theorem rawEqual_comm (x y : Scalar) : x.rawEqual y = y.rawEqual x := by
  cases x <;> cases y <;> simp [rawEqual, sameNumber, Bool.and_comm, BEq.comm]

theorem cstr_of_noZero {x : Scalar} (h : x.noZero = true) : x.cstr = x := by
  cases x with
  | string bs =>
      rw [noZero, Bool.not_eq_true', List.contains_eq_mem, decide_eq_false_iff_not] at h
      rw [cstr, List.takeWhile_eq_self_iff.mpr]
      intro b hb
      rw [bne_iff_ne]
      rintro rfl
      exact h hb
  | boolean | number | lightuserdata => rfl

theorem noZero_cstr (x : Scalar) : x.cstr.noZero = true := by
  cases x with
  | string bs =>
      rw [cstr, noZero, Bool.not_eq_true', List.contains_eq_mem, decide_eq_false_iff_not]
      intro hmem
      have := List.mem_takeWhile_imp hmem
      simp at this
  | boolean | number | lightuserdata => rfl

theorem isKey_cstr (x : Scalar) : x.cstr.isKey = x.isKey := by
  cases x <;> rfl

end Scalar

section Entries

variable {α : Type}

/-- The value of a key. -/
def find (es : List (Scalar × α)) (k : Scalar) : Option α :=
  (es.find? fun e => e.1.rawEqual k).map Prod.snd

theorem find_map {γ : Type} (f : α → γ) (es : List (Scalar × α)) (k : Scalar) :
    find (es.map fun e => (e.1, f e.2)) k = (find es k).map f := by
  induction es with
  | nil => rfl
  | cons e es ih =>
      simp only [find, List.map_cons, List.find?_cons] at ih ⊢
      cases e.1.rawEqual k with
      | true => rfl
      | false => exact ih

theorem mem_of_find {es : List (Scalar × α)} {k : Scalar} {a : α} (h : find es k = some a) :
    ∃ k', (k', a) ∈ es ∧ k'.rawEqual k = true := by
  rw [find, Option.map_eq_some_iff] at h
  obtain ⟨⟨k', a'⟩, hfind, rfl⟩ := h
  have hequal := List.find?_some hfind
  exact ⟨k', List.mem_of_find?_eq_some hfind, hequal⟩

end Entries

namespace Value

variable {β : Type}

/-- `lua_rawget`, on the entries of a table. -/
def lookup (es : List (Scalar × Value β)) (k : Scalar) : Value β := (find es k).getD .nil

/-- `lua_rawset`, on the entries of a table: nil removes an entry. -/
def update (es : List (Scalar × Value β)) (k : Scalar) (v : Value β) : List (Scalar × Value β) :=
  match v with
  | .nil => es.filter fun e => !e.1.rawEqual k
  | v =>
      if es.any fun e => e.1.rawEqual k then
        es.map fun e => if e.1.rawEqual k then (e.1, v) else e
      else es ++ [(k, v)]

theorem update_of_ne_nil {v : Value β} (h : v ≠ .nil) (es : List (Scalar × Value β))
    (k : Scalar) : update es k v =
      if es.any fun e => e.1.rawEqual k then
        es.map fun e => if e.1.rawEqual k then (e.1, v) else e
      else es ++ [(k, v)] := by
  cases v with
  | nil => exact absurd rfl h
  | scalar | table | unsupported => rfl

/-- `border` is a border of the table: its element is there, and the next is not. -/
def IsBorder (border : Nat) (es : List (Scalar × Value β)) : Prop :=
  (border = 0 ∨ find es (.ofNat border) ≠ none) ∧ find es (.ofNat (border + 1)) = none

/-- Two keys of a table are different. -/
def Distinct (es : List (Scalar × Value β)) : Prop :=
  es.Pairwise fun e e' => e.1.rawEqual e'.1 = false

/-- The entry of a key is the only one. -/
theorem Distinct.eq {es : List (Scalar × Value β)} (h : Distinct es) {e e' : Scalar × Value β}
    (he : e ∈ es) (he' : e' ∈ es) (hequal : e.1.rawEqual e'.1 = true) : e = e' := by
  by_contra hne
  have hsymm : Std.Symm fun e e' : Scalar × Value β => e.1.rawEqual e'.1 = false :=
    ⟨fun e e' h => (Scalar.rawEqual_comm e'.1 e.1).trans h⟩
  have hdifferent := List.Pairwise.forall h he he' hne
  rw [hequal] at hdifferent
  cases hdifferent

theorem lookup_eq (es : List (Scalar × Value β)) (k : Scalar) :
    lookup es k = .nil ∨ ∃ e ∈ es, lookup es k = e.2 := by
  rw [lookup]
  rcases hfind : find es k with _ | v
  · exact Or.inl rfl
  · obtain ⟨k', hmem, -⟩ := mem_of_find hfind
    exact Or.inr ⟨(k', v), hmem, rfl⟩

/-- A table with an array part has an entry. -/
theorem IsBorder.exists_mem {border i : Nat} {es : List (Scalar × Value β)}
    (h : IsBorder border es) (hi : i ∈ List.range' 1 border) : ∃ e, e ∈ es := by
  have hpos : border ≠ 0 := by
    have := List.mem_range'_1.mp hi
    omega
  obtain ⟨v, hv⟩ := Option.ne_none_iff_exists'.mp (h.1.resolve_left hpos)
  obtain ⟨k, hmem, -⟩ := mem_of_find hv
  exact ⟨(k, v), hmem⟩

/-- What a script may send: tables have fewer than 65536 entries and any border, and strings
    have at most 65535 bytes. -/
inductive WellFormed : Value Nat → Prop where
  | nil : WellFormed .nil
  | scalar {x} (hshort : x.short = true) : WellFormed (.scalar x)
  | table {border es} (hlength : es.length < 65536) (hkeys : ∀ e ∈ es, e.1.isKey = true)
      (hshort : ∀ e ∈ es, e.1.short = true) (hdistinct : Distinct es)
      (hborder : IsBorder border es) (hvalues : ∀ e ∈ es, e.2 ≠ .nil)
      (hwell : ∀ e ∈ es, WellFormed e.2) : WellFormed (.table border es)

/-- Every border fits into the 16 bits that are written. -/
inductive BordersFit : Value Nat → Prop where
  | nil : BordersFit .nil
  | scalar {x} : BordersFit (.scalar x)
  | table {border es} (hborder : border < 65536) (hfit : ∀ e ∈ es, BordersFit e.2) :
      BordersFit (.table border es)

/-- No string of the value has a zero byte. -/
inductive NoZero : Value Nat → Prop where
  | nil : NoZero .nil
  | scalar {x} (hzero : x.noZero = true) : NoZero (.scalar x)
  | table {border es} (hkeys : ∀ e ∈ es, e.1.noZero = true) (hvalues : ∀ e ∈ es, NoZero e.2) :
      NoZero (.table border es)

/-- Structural equality: the same keys, each once, with equal values. -/
inductive Same : Value Nat → Value Unit → Prop where
  | nil : Same .nil .nil
  | scalar (x) : Same (.scalar x) (.scalar x)
  | table {border es es'} (hdistinct : Distinct es')
      (hkeys : ∀ k, k ∈ es.map Prod.fst ↔ k ∈ es'.map Prod.fst)
      (hvalues : ∀ k v w, (k, v) ∈ es → (k, w) ∈ es' → Same v w) :
      Same (.table border es) (.table () es')

/-- Induction over a value. -/
theorem induct {P : Value β → Prop} (hnil : P .nil) (hscalar : ∀ x, P (.scalar x))
    (htable : ∀ border es, (∀ e ∈ es, P e.2) → P (.table border es))
    (hunsupported : ∀ t, P (.unsupported t)) (v : Value β) : P v := by
  apply @Value.rec β P (fun es => ∀ e ∈ es, P e.2) (fun e => P e.2)
  · exact hnil
  · exact hscalar
  · exact htable
  · exact hunsupported
  · exact fun e he => absurd he List.not_mem_nil
  · intro e es hhead htail e' he'
    rcases List.mem_cons.mp he' with rfl | he'
    · exact hhead
    · exact htail e' he'
  · exact fun k v hv => hv

end Value

end Jengine.Lua
