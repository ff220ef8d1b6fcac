import Mathlib.Algebra.Ring.Int.Defs
import Mathlib.Data.List.TakeWhile

/-!
# Decimal numbers in ASCII

The decimal text of a number and what the C library makes of a text: `strtol` and `strtoll` in
base ten, both with a result of 64 bits.  The text of a number is read as that number where it
is in range, and as the nearest number that is where it is not.
-/

namespace Jengine.Lib

/-- The digits of a number, as they are printed. -/
def decimal (n : Nat) : List UInt8 := (Nat.toDigits 10 n).map fun c => UInt8.ofNat c.toNat

/-- A number with its sign, as it is printed. -/
def decimalInt (v : Int) : List UInt8 :=
  if v < 0 then 45 :: decimal v.natAbs else decimal v.natAbs

/-- `isdigit`. -/
def isDigit (c : UInt8) : Bool := 48 ≤ c.toNat && c.toNat ≤ 57

/-- `isspace`. -/
def isSpace (c : UInt8) : Bool := c.toNat == 32 || (9 ≤ c.toNat && c.toNat ≤ 13)

/-- The number that digits stand for. -/
def digitsValue (ds : List UInt8) : Nat := ds.foldl (fun v c => 10 * v + (c.toNat - 48)) 0

/-- The nearest number of 64 bits. -/
def clamp64 (v : Int) : Int := max (-2 ^ 63) (min (2 ^ 63 - 1) v)

/-- `strtoll` in base ten, and `strtol` where a `long` has 64 bits: white space, a sign, and as
    many digits as there are. -/
def strtoll (txt : List UInt8) : Int :=
  match txt.dropWhile isSpace with
  | 45 :: ds => clamp64 (-digitsValue (ds.takeWhile isDigit))
  | 43 :: ds => clamp64 (digitsValue (ds.takeWhile isDigit))
  | ds => clamp64 (digitsValue (ds.takeWhile isDigit))

theorem toNat_byte_of_isDigit {c : Char} (h : c.isDigit) :
    (UInt8.ofNat c.toNat).toNat = c.toNat ∧ 48 ≤ c.toNat ∧ c.toNat ≤ 57 := by
  have hdigit : 48 ≤ c.toNat ∧ c.toNat ≤ 57 := by
    simpa [Char.isDigit, UInt32.le_iff_toNat_le] using h
  exact ⟨UInt8.toNat_ofNat_of_lt' (Nat.lt_of_le_of_lt hdigit.2 (by decide)), hdigit⟩

theorem isDigit_of_mem_decimal {n : Nat} {c : UInt8} (h : c ∈ decimal n) : isDigit c := by
  obtain ⟨d, hd, rfl⟩ := List.mem_map.mp h
  obtain ⟨heq, hlo, hhi⟩ := toNat_byte_of_isDigit
    (Nat.isDigit_of_mem_toDigits (by decide) (by decide) hd)
  rw [isDigit, heq]
  simp [hlo, hhi]

theorem decimal_ne_nil (n : Nat) : decimal n ≠ [] := by
  unfold decimal
  exact fun h => Nat.toDigits_ne_nil (List.map_eq_nil_iff.mp h)

/-- The digits of a number stand for it. -/
theorem digitsValue_decimal (n : Nat) : digitsValue (decimal n) = n := by
  have hfold : ∀ (cs : List Char) (v : Nat), (∀ c ∈ cs, c.isDigit) →
      (cs.map fun c => UInt8.ofNat c.toNat).foldl (fun v c => 10 * v + (c.toNat - 48)) v =
        Nat.ofDigitChars 10 cs v := by
    intro cs
    induction cs with
    | nil => exact fun v _ => Nat.ofDigitChars_nil.symm
    | cons c cs ih =>
        intro v h
        obtain ⟨heq, -⟩ := toNat_byte_of_isDigit (h c List.mem_cons_self)
        rw [List.map_cons, List.foldl_cons, heq, Nat.ofDigitChars_cons,
          ih _ fun d hd => h d (List.mem_cons_of_mem c hd)]
        rfl
  rw [digitsValue, decimal, hfold _ _ fun c hc =>
    Nat.isDigit_of_mem_toDigits (by decide) (by decide) hc]
  exact Nat.ofDigitChars_toDigits (by decide) (by decide)

theorem takeWhile_decimal (n : Nat) : (decimal n).takeWhile isDigit = decimal n :=
  List.takeWhile_eq_self_iff.mpr fun _ hc => isDigit_of_mem_decimal hc

/-- The text of a number is read as the nearest number of 64 bits. -/
theorem strtoll_decimalInt (v : Int) : strtoll (decimalInt v) = clamp64 v := by
  unfold decimalInt
  split
  · have hneg : -((v.natAbs : Nat) : Int) = v := by omega
    rw [strtoll, List.dropWhile_cons_of_neg (by decide)]
    simp only [takeWhile_decimal, digitsValue_decimal, hneg]
  · have hpos : ((v.natAbs : Nat) : Int) = v := by omega
    rcases hdec : decimal v.natAbs with _ | ⟨c, cs⟩
    · exact absurd hdec (decimal_ne_nil _)
    · have hc : isDigit c := isDigit_of_mem_decimal (hdec ▸ List.mem_cons_self)
      have hrange : 48 ≤ c.toNat ∧ c.toNat ≤ 57 := by simpa [isDigit] using hc
      have hspace : isSpace c = false := by
        rw [isSpace]
        simp only [Bool.or_eq_false_iff, beq_eq_false_iff_ne, Bool.and_eq_false_iff,
          decide_eq_false_iff_not]
        omega
      have hsign : ∀ k : UInt8, k.toNat < 48 → c ≠ k := fun k hk heq => by
        rw [heq] at hrange
        omega
      rw [strtoll, List.dropWhile_cons_of_neg (by simp [hspace])]
      split
      · rename_i heq
        exact absurd (List.cons.inj heq).1 (hsign 45 (by decide))
      · rename_i heq
        exact absurd (List.cons.inj heq).1 (hsign 43 (by decide))
      · rw [← hdec, takeWhile_decimal, digitsValue_decimal, hpos]

theorem clamp64_of_range {v : Int} (hlo : -2 ^ 63 ≤ v) (hhi : v < 2 ^ 63) : clamp64 v = v := by
  unfold clamp64
  omega

end Jengine.Lib
