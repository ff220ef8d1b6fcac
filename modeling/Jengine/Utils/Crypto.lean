import Jengine.Lib.Decimal
import Jengine.Lib.Lines
import Jengine.Lib.Regroup
import Mathlib.Algebra.Order.Floor.Div
import Mathlib.Algebra.Ring.Nat
import Mathlib.GroupTheory.GroupAction.Ring

/-!
# Base64

`base64_encode` and `base64_decode` (`base/utils/crypto.cpp`).  Both shift the input into an
accumulator of 32 bits that is never cleared, and count the bits that have not been written yet.

`base64_encode` makes the output first, all padding, and writes over it; two assertions at the
end compare the place it got to with the length.  A `size_t` has 64 bits.
-/

namespace Jengine.Utils

open Jengine.Lib
open Regroup (value Regrouped)

/-- How a call ends that does not return. -/
inductive Stop where
  /-- `std::length_error` is thrown. -/
  | lengthError (what : String)
  /-- `std::invalid_argument` is thrown. -/
  | invalidArgument (what : String)
  /-- An assertion fails. -/
  | assertion
  /-- A write behind the end of the output. -/
  | outOfRange
deriving DecidableEq, Repr

/-- `b64_table`. -/
def b64Table : List UInt8 :=
  ascii "ABCDEFGHIJKLMNOPQRSTUVWXYZabcdefghijklmnopqrstuvwxyz0123456789+/"

/-- `reverse_table`. -/
def reverseTable : List Nat := [
  64, 64, 64, 64, 64, 64, 64, 64, 64, 64, 64, 64, 64, 64, 64, 64,
  64, 64, 64, 64, 64, 64, 64, 64, 64, 64, 64, 64, 64, 64, 64, 64,
  64, 64, 64, 64, 64, 64, 64, 64, 64, 64, 64, 62, 64, 64, 64, 63,
  52, 53, 54, 55, 56, 57, 58, 59, 60, 61, 64, 64, 64, 64, 64, 64,
  64,  0,  1,  2,  3,  4,  5,  6,  7,  8,  9, 10, 11, 12, 13, 14,
  15, 16, 17, 18, 19, 20, 21, 22, 23, 24, 25, 64, 64, 64, 64, 64,
  64, 26, 27, 28, 29, 30, 31, 32, 33, 34, 35, 36, 37, 38, 39, 40,
  41, 42, 43, 44, 45, 46, 47, 48, 49, 50, 51, 64, 64, 64, 64, 64]

/-- The character at an index into `b64_table`. -/
def b64Char (i : Nat) : UInt8 := (b64Table[i]?).getD 0

/-- `=`. -/
def padding : UInt8 := 61

/-! ### The two functions -/

/-- `retval` and `outpos`. -/
structure Output where
  retval : List UInt8
  outpos : Nat

/-- `retval[outpos++] = c`. -/
def Output.put (out : Output) (c : UInt8) : Except Stop Output :=
  if out.outpos < out.retval.length then .ok ⟨out.retval.set out.outpos c, out.outpos + 1⟩
  else .error .outOfRange

/-- The inner loop of `base64_encode`. -/
def drain (accumulator : UInt32) (bitsCollected : Nat) (out : Output) :
    Except Stop (Nat × Output) :=
  if 6 ≤ bitsCollected then do
    let out ← out.put
      (b64Char ((accumulator >>> UInt32.ofNat (bitsCollected - 6)) &&& 0x3f).toNat)
    drain accumulator (bitsCollected - 6) out
  else
    .ok (bitsCollected, out)
termination_by bitsCollected

/-- The outer loop. -/
def encodeLoop : List UInt8 → UInt32 → Nat → Output → Except Stop (UInt32 × Nat × Output)
  | [], accumulator, bitsCollected, out => .ok (accumulator, bitsCollected, out)
  | c :: cs, accumulator, bitsCollected, out => do
      let accumulator := accumulator <<< 8 ||| c.toUInt32
      let (bitsCollected, out) ← drain accumulator (bitsCollected + 8) out
      encodeLoop cs accumulator bitsCollected out

/-- `assert`. -/
def assert (p : Prop) [Decidable p] : Except Stop Unit := if p then .ok () else .error .assertion

/-- The assertions at the end. -/
def Output.finish (out : Output) : Except Stop (List UInt8) := do
  assert ((out.retval.length + (2 ^ 64 - 2)) % 2 ^ 64 ≤ out.outpos)
  assert (out.outpos ≤ out.retval.length)
  return out.retval

/-- The bits that are missing, and the end. -/
def encodeEnd (accumulator : UInt32) (bitsCollected : Nat) (out : Output) :
    Except Stop (List UInt8) :=
  if 0 < bitsCollected then do
    assert (bitsCollected < 6)
    let out ← out.put
      (b64Char ((accumulator <<< UInt32.ofNat (6 - bitsCollected)) &&& 0x3f).toNat)
    out.finish
  else
    out.finish

/-- `base64_encode`. -/
def base64Encode (bindata : List UInt8) : Except Stop (List UInt8) :=
  if (2 ^ 64 - 1) / 4 * 3 < bindata.length then
    .error (.lengthError "Converting too large a string to base64.")
  else do
    let binlen := bindata.length
    let retval := List.replicate ((binlen + 2) % 2 ^ 64 / 3 * 4 % 2 ^ 64) padding
    let (accumulator, bitsCollected, out) ← encodeLoop bindata 0 0 ⟨retval, 0⟩
    encodeEnd accumulator bitsCollected out

/-- The loop of `base64_decode`.  A `char` from 128 on is negative, and not white space. -/
def decodeLoop : List UInt8 → UInt32 → Nat → List UInt8 → Except Stop (List UInt8)
  | [], _, _, retval => .ok retval
  | i :: is, accumulator, bitsCollected, retval =>
      let c : Int := i.toInt8.toInt
      if isSpace i ∨ i = padding then decodeLoop is accumulator bitsCollected retval
      else if 127 < c ∨ c < 0 ∨ 63 < (reverseTable[c.toNat]?).getD 0 then
        .error (.invalidArgument
          "This contains characters not legal in a base64 encoded string.")
      else
        let accumulator := accumulator <<< 6 ||| UInt32.ofNat ((reverseTable[c.toNat]?).getD 0)
        let bitsCollected := bitsCollected + 6
        if 8 ≤ bitsCollected then
          let bitsCollected := bitsCollected - 8
          decodeLoop is accumulator bitsCollected
            (retval ++ [((accumulator >>> UInt32.ofNat bitsCollected) &&& 0xff).toUInt8])
        else
          decodeLoop is accumulator bitsCollected retval

/-- `base64_decode`. -/
def base64Decode (ascdata : List UInt8) : Except Stop (List UInt8) := decodeLoop ascdata 0 0 []

/-! ### Encoding -/

theorem ok_bind {α β : Type} (a : α) (f : α → Except Stop β) : (Except.ok a >>= f) = f a := rfl

/-- The output with the digits `outs` written into it, out of `total`. -/
def Output.written (total : Nat) (outs : List Nat) : Output :=
  ⟨outs.map b64Char ++ List.replicate (total - outs.length) padding, outs.length⟩

theorem Output.length_written {total : Nat} {outs : List Nat} (h : outs.length ≤ total) :
    (written total outs).retval.length = total := by
  rw [written, List.length_append, List.length_map, List.length_replicate, Nat.add_sub_cancel' h]

theorem Output.put_written {total : Nat} {outs : List Nat} (h : outs.length < total) (d : Nat) :
    (written total outs).put (b64Char d) = .ok (written total (outs ++ [d])) := by
  obtain ⟨room, hroom⟩ : ∃ room, total - outs.length = room + 1 :=
    ⟨total - outs.length - 1, by omega⟩
  have hrest : total - (outs.length + 1) = room := by omega
  have hset : (outs.map b64Char ++ List.replicate (room + 1) padding).set outs.length (b64Char d) =
      (outs ++ [d]).map b64Char ++ List.replicate room padding := by
    rw [List.set_append_right _ _ (by rw [List.length_map]), List.length_map, Nat.sub_self,
      List.replicate_succ, List.set_cons_zero, List.map_append, List.map_singleton,
      List.append_assoc, List.singleton_append]
  rw [put, if_pos (by rwa [length_written h.le])]
  simp only [written, hroom, hset, List.length_append, List.length_singleton, hrest]

/-- Some bits out of the middle of the accumulator. -/
theorem toNat_bits (accumulator : UInt32) {count : Nat} (hcount : count < 32) {mask : UInt32}
    {w : Nat} (hmask : mask.toNat = 2 ^ w - 1) :
    ((accumulator >>> UInt32.ofNat count) &&& mask).toNat =
      accumulator.toNat / 2 ^ count % 2 ^ w := by
  have hshift : (UInt32.ofNat count).toNat % 32 = count := by
    rw [UInt32.toNat_ofNat_of_lt' (Nat.lt_of_lt_of_le hcount (by decide)),
      Nat.mod_eq_of_lt hcount]
  rw [UInt32.toNat_and, UInt32.toNat_shiftRight, hshift, hmask, Nat.and_two_pow_sub_one_eq_mod,
    Nat.shiftRight_eq_div_pow]

/-- A digit shifted into the accumulator. -/
theorem toNat_shift_or (accumulator d : UInt32) {w : UInt32} {n : Nat} (hw : w.toNat = n)
    (hn : n < 32) :
    (accumulator <<< w ||| d).toNat = accumulator.toNat <<< n % 2 ^ 32 ||| d.toNat := by
  rw [UInt32.toNat_or, UInt32.toNat_shiftLeft, hw, Nat.mod_eq_of_lt hn]

section

variable {ins outs : List Nat} {accumulator : UInt32} {bitsCollected total : Nat}

theorem drain_spec (h : Regrouped 8 6 ins outs accumulator.toNat bitsCollected)
    (hbits : bitsCollected < 32) (hroom : 8 * ins.length ≤ 6 * total) :
    ∃ bits outs', drain accumulator bitsCollected (.written total outs) =
        .ok (bits, .written total outs') ∧
      Regrouped 8 6 ins outs' accumulator.toNat bits ∧ bits < 6 := by
  induction bitsCollected using Nat.strongRecOn generalizing outs with
  | ind bitsCollected ih =>
      rw [drain]
      split
      · rename_i hsix
        have hlen := h.bits
        have hput : (Output.written total outs).put (b64Char _) = _ := Output.put_written (by omega)
          (accumulator.toNat / 2 ^ (bitsCollected - 6) % 2 ^ 6)
        rw [toNat_bits accumulator (w := 6) (by omega) (by decide), hput, ok_bind]
        rw [← Nat.sub_add_cancel hsix] at h
        exact ih (bitsCollected - 6) (by omega) h.emit (by omega)
      · exact ⟨bitsCollected, outs, rfl, h, by omega⟩

theorem encodeLoop_spec {cs : List UInt8}
    (h : Regrouped 8 6 ins outs accumulator.toNat bitsCollected) (hbits : bitsCollected < 6)
    (hroom : 8 * (ins.length + cs.length) ≤ 6 * total) :
    ∃ accumulator' bits outs', encodeLoop cs accumulator bitsCollected (.written total outs) =
        .ok (accumulator', bits, .written total outs') ∧
      Regrouped 8 6 (ins ++ cs.map UInt8.toNat) outs' accumulator'.toNat bits ∧ bits < 6 := by
  induction cs generalizing ins outs accumulator bitsCollected with
  | nil =>
      refine ⟨accumulator, bitsCollected, outs, rfl, ?_, hbits⟩
      rwa [List.map_nil, List.append_nil]
  | cons c cs ih =>
      rw [List.length_cons] at hroom
      have hpush : Regrouped 8 6 (ins ++ [c.toNat]) outs (accumulator <<< 8 ||| c.toUInt32).toNat
          (bitsCollected + 8) := by
        apply h.push
        rw [toNat_shift_or _ _ (n := 8) rfl (by decide), UInt8.toNat_toUInt32]
        exact Regroup.shift_or_mod c.toNat_lt (by omega)
      have hroom' : 8 * (ins ++ [c.toNat]).length ≤ 6 * total := by
        rw [List.length_append, List.length_singleton]
        omega
      obtain ⟨bits, outs', hdrain, hregroup, hlt⟩ := drain_spec hpush (by omega) hroom'
      obtain ⟨accumulator', bits', outs'', hloop, hregroup', hlt'⟩ := ih hregroup hlt
        (by rw [List.length_append, List.length_singleton]; omega)
      refine ⟨accumulator', bits', outs'', ?_, ?_, hlt'⟩
      · rw [encodeLoop]
        dsimp only
        rw [hdrain, ok_bind]
        exact hloop
      · rwa [List.append_assoc, List.singleton_append, ← List.map_cons] at hregroup'

/-- The bits that are left over, moved up to make a digit. -/
theorem toNat_rest (accumulator : UInt32) (hbits : bitsCollected < 6) :
    ((accumulator <<< UInt32.ofNat (6 - bitsCollected)) &&& 0x3f).toNat =
      accumulator.toNat % 2 ^ bitsCollected * 2 ^ (6 - bitsCollected) := by
  have hsplit : bitsCollected + (6 - bitsCollected) = 6 := Nat.add_sub_cancel' hbits.le
  have hshift : (UInt32.ofNat (6 - bitsCollected)).toNat = 6 - bitsCollected :=
    UInt32.toNat_ofNat_of_lt' (Nat.lt_of_le_of_lt (Nat.sub_le _ _) (by decide))
  have hmod : (accumulator.toNat <<< (6 - bitsCollected) % 2 ^ 32 ||| 0) %
      2 ^ (bitsCollected + (6 - bitsCollected)) = _ :=
    Regroup.shift_or_mod (Nat.two_pow_pos (6 - bitsCollected)) (by omega)
  rw [Nat.or_zero, hsplit, Nat.add_zero] at hmod
  rw [UInt32.toNat_and, UInt32.toNat_shiftLeft, hshift,
    Nat.mod_eq_of_lt (by omega : 6 - bitsCollected < 32), ← hmod]
  exact Nat.and_two_pow_sub_one_eq_mod _ 6

/-- The number of characters in the output. -/
def encodedLength (n : Nat) : Nat := (n + 2) / 3 * 4

/-- The assertions hold when all but at most two characters have been written. -/
theorem Output.finish_written {sextets : List Nat} (hle : sextets.length ≤ total)
    (hnear : total ≤ sextets.length + 2) (htwo : 2 ≤ total) (hfits : total < 2 ^ 64) :
    (written total sextets).finish = .ok (written total sextets).retval := by
  have hlen := length_written hle
  have hfirst : ((written total sextets).retval.length + (2 ^ 64 - 2)) % 2 ^ 64 ≤
      (written total sextets).outpos := by
    show _ ≤ sextets.length
    omega
  have hsecond : (written total sextets).outpos ≤ (written total sextets).retval.length := by
    rw [hlen]
    exact hle
  rw [finish, assert, assert, if_pos hfirst, if_pos hsecond]
  rfl

theorem encodeEnd_spec (h : Regrouped 8 6 ins outs accumulator.toNat bitsCollected)
    (hbits : bitsCollected < 6) (hpos : 0 < ins.length)
    (hfits : encodedLength ins.length < 2 ^ 64) :
    ∃ sextets pad, encodeEnd accumulator bitsCollected
        (.written (encodedLength ins.length) outs) =
        .ok (Output.written (encodedLength ins.length) sextets).retval ∧
      value 6 sextets = value 8 ins * 2 ^ pad ∧ 6 * sextets.length = 8 * ins.length + pad ∧
      pad < 6 ∧ ∀ d ∈ sextets, d < 2 ^ 6 := by
  have hlen := h.bits
  obtain ⟨total, htotal⟩ : ∃ total, encodedLength ins.length = total := ⟨_, rfl⟩
  rw [htotal] at hfits ⊢
  rw [encodedLength] at htotal
  by_cases hzero : bitsCollected = 0
  · subst hzero
    refine ⟨outs, 0, ?_, ?_, by omega, by omega, h.lt⟩
    · rw [encodeEnd, if_neg (Nat.lt_irrefl 0),
        Output.finish_written (by omega) (by omega) (by omega) hfits]
    · have hnumber := h.number
      rw [pow_zero, Nat.mod_one, Nat.add_zero, Nat.mul_one] at hnumber
      rw [pow_zero, Nat.mul_one]
      exact hnumber.symm
  · obtain ⟨hvalue, hlen', hlt⟩ := h.pad hbits.le
    refine ⟨_, 6 - bitsCollected, ?_, hvalue, ?_, by omega, ?_⟩
    · have hput : (Output.written total outs).put (b64Char _) = _ := Output.put_written (by omega)
        (accumulator.toNat % 2 ^ bitsCollected * 2 ^ (6 - bitsCollected))
      rw [encodeEnd, if_pos (Nat.pos_of_ne_zero hzero), assert, if_pos hbits,
        toNat_rest _ hbits, hput, ok_bind, ok_bind]
      exact Output.finish_written (by rw [List.length_append, List.length_singleton]; omega)
        (by rw [List.length_append, List.length_singleton]; omega) (by omega) hfits
    · rw [List.length_append, List.length_singleton, hlen']
    · intro d hd
      rcases List.mem_append.mp hd with hd | hd
      · exact h.lt d hd
      · rwa [List.mem_singleton.mp hd]

end

/-- What `base64_encode` returns: the digits of the input, and padding. -/
theorem base64Encode_spec {s : List UInt8} (hne : s ≠ [])
    (hsize : s.length ≤ (2 ^ 64 - 1) / 4 * 3) :
    ∃ sextets pad, base64Encode s =
        .ok (Output.written (encodedLength s.length) sextets).retval ∧
      value 6 sextets = value 8 (s.map UInt8.toNat) * 2 ^ pad ∧
      6 * sextets.length = 8 * s.length + pad ∧ pad < 6 ∧ ∀ d ∈ sextets, d < 2 ^ 6 := by
  have hfits : encodedLength s.length < 2 ^ 64 := by
    unfold encodedLength
    omega
  have hmake : (s.length + 2) % 2 ^ 64 / 3 * 4 % 2 ^ 64 = encodedLength s.length := by
    unfold encodedLength
    omega
  have hroom : 8 * (([] : List Nat).length + s.length) ≤ 6 * encodedLength s.length := by
    rw [encodedLength, List.length_nil]
    omega
  obtain ⟨accumulator, bits, outs, hloop, hregroup, hbits⟩ :=
    encodeLoop_spec (Regroup.regrouped_nil 8 6 (0 : UInt32).toNat) (by decide) hroom
  rw [List.nil_append] at hregroup
  have hend := encodeEnd_spec hregroup hbits
    (by rw [List.length_map]; exact List.length_pos_iff.mpr hne) (by rwa [List.length_map])
  rw [List.length_map] at hend
  obtain ⟨sextets, pad, hend, hrest⟩ := hend
  refine ⟨sextets, pad, ?_, hrest⟩
  have hstart : (⟨List.replicate (encodedLength s.length) padding, 0⟩ : Output) =
      .written (encodedLength s.length) [] := rfl
  unfold base64Encode
  dsimp only
  rw [if_neg (by omega), hmake, hstart, hloop, ok_bind]
  exact hend

/-! ### Decoding -/

/-- The characters of the alphabet are not skipped, and stand for their places. -/
theorem b64Char_spec {d : Nat} (hd : d < 2 ^ 6) :
    ¬(isSpace (b64Char d) ∨ b64Char d = padding) ∧
      (b64Char d).toInt8.toInt.toNat = (b64Char d).toNat ∧
      ¬(127 < (b64Char d).toInt8.toInt ∨ (b64Char d).toInt8.toInt < 0) ∧
      reverseTable[(b64Char d).toNat]? = some d ∧ b64Char d ∈ b64Table := by
  have hall : ∀ d : Fin (2 ^ 6), ¬(isSpace (b64Char d) ∨ b64Char d = padding) ∧
      (b64Char d).toInt8.toInt.toNat = (b64Char d).toNat ∧
      ¬(127 < (b64Char d).toInt8.toInt ∨ (b64Char d).toInt8.toInt < 0) ∧
      reverseTable[(b64Char d).toNat]? = some d.val ∧ b64Char d ∈ b64Table := by
    decide +kernel
  exact hall ⟨d, hd⟩

/-- Padding is skipped. -/
theorem decodeLoop_padding (accumulator : UInt32) (bitsCollected n : Nat) (retval : List UInt8) :
    decodeLoop (List.replicate n padding) accumulator bitsCollected retval = .ok retval := by
  induction n with
  | zero => rfl
  | succ n ih => rw [List.replicate_succ, decodeLoop, if_pos (.inr rfl), ih]

/-- The byte that is cut out of the accumulator. -/
theorem toUInt8_bits (accumulator : UInt32) {k : Nat} (hk : k < 32) :
    ((accumulator >>> UInt32.ofNat k) &&& 0xff).toUInt8 =
      UInt8.ofNat (accumulator.toNat / 2 ^ k % 2 ^ 8) := by
  have hmask : (0xff : UInt32).toNat = 2 ^ 8 - 1 := by decide
  rw [← toNat_bits accumulator hk hmask]
  rfl

/-- A character of the alphabet is legal, and its digit goes into the accumulator. -/
theorem decodeLoop_char {d : Nat} (hd : d < 2 ^ 6) (is : List UInt8) (accumulator : UInt32)
    {bitsCollected : Nat} (hbits : bitsCollected < 8) (retval : List UInt8) :
    decodeLoop (b64Char d :: is) accumulator bitsCollected retval =
      if 8 ≤ bitsCollected + 6 then
        decodeLoop is (accumulator <<< 6 ||| UInt32.ofNat d) (bitsCollected + 6 - 8)
          (retval ++ [UInt8.ofNat ((accumulator <<< 6 ||| UInt32.ofNat d).toNat /
            2 ^ (bitsCollected + 6 - 8) % 2 ^ 8)])
      else
        decodeLoop is (accumulator <<< 6 ||| UInt32.ofNat d) (bitsCollected + 6) retval := by
  obtain ⟨hskip, hindex, hrange, hreverse, -⟩ := b64Char_spec hd
  have hlegal : ¬(127 < (b64Char d).toInt8.toInt ∨ (b64Char d).toInt8.toInt < 0 ∨
      63 < (reverseTable[(b64Char d).toInt8.toInt.toNat]?).getD 0) := by
    rw [hindex, hreverse, Option.getD_some, ← or_assoc]
    exact not_or.mpr ⟨hrange, by omega⟩
  rw [decodeLoop, if_neg hskip, if_neg hlegal, hindex, hreverse, Option.getD_some]
  dsimp only
  rw [toUInt8_bits _ (by omega)]

theorem decodeLoop_spec {sextets ins outs : List Nat} {accumulator : UInt32}
    {bitsCollected : Nat} (h : Regrouped 6 8 ins outs accumulator.toNat bitsCollected)
    (hbits : bitsCollected < 8) (hsextets : ∀ d ∈ sextets, d < 2 ^ 6) (n : Nat) :
    ∃ accumulator' bits outs',
      decodeLoop (sextets.map b64Char ++ List.replicate n padding) accumulator bitsCollected
        (outs.map UInt8.ofNat) = .ok (outs'.map UInt8.ofNat) ∧
      Regrouped 6 8 (ins ++ sextets) outs' accumulator' bits ∧ bits < 8 := by
  induction sextets generalizing ins outs accumulator bitsCollected with
  | nil =>
      refine ⟨accumulator.toNat, bitsCollected, outs, decodeLoop_padding _ _ _ _, ?_, hbits⟩
      rwa [List.append_nil]
  | cons d ds ih =>
      obtain ⟨hd, hds⟩ := List.forall_mem_cons.mp hsextets
      have hdigit : (UInt32.ofNat d).toNat = d :=
        UInt32.toNat_ofNat_of_lt' (Nat.lt_of_lt_of_le hd (by decide))
      have hpush : Regrouped 6 8 (ins ++ [d]) outs (accumulator <<< 6 ||| UInt32.ofNat d).toNat
          (bitsCollected + 6) := by
        apply h.push
        rw [toNat_shift_or _ _ (n := 6) rfl (by decide), hdigit]
        exact Regroup.shift_or_mod hd (by omega)
      rw [List.map_cons, List.cons_append, decodeLoop_char hd _ _ hbits]
      split
      · rename_i height
        have hemit := hpush
        rw [← Nat.sub_add_cancel height] at hemit
        obtain ⟨accumulator', bits, outs', hloop, hregroup, hlt⟩ :=
          ih hemit.emit (by omega) hds
        refine ⟨accumulator', bits, outs', ?_, ?_, hlt⟩
        · rw [← hloop, List.map_append, List.map_singleton]
        · rwa [List.append_assoc, List.singleton_append] at hregroup
      · obtain ⟨accumulator', bits, outs', hloop, hregroup, hlt⟩ := ih hpush (by omega) hds
        refine ⟨accumulator', bits, outs', hloop, ?_, hlt⟩
        rwa [List.append_assoc, List.singleton_append] at hregroup

/-! ### What the two functions do to each other -/

/-- **A byte string that is not empty comes back.**  Its text is four characters for each three
    bytes begun, all of them of the alphabet but at most two `=` at the end. -/
theorem base64_roundtrip {s : List UInt8} (hne : s ≠ [])
    (hsize : s.length ≤ (2 ^ 64 - 1) / 4 * 3) :
    ∃ body n, base64Encode s = .ok (body ++ List.replicate n padding) ∧
      (body ++ List.replicate n padding).length = 4 * (s.length ⌈/⌉ 3) ∧
      (∀ c ∈ body, c ∈ b64Table) ∧ n ≤ 2 ∧
      base64Decode (body ++ List.replicate n padding) = .ok s := by
  obtain ⟨sextets, pad, hencode, hvalue, hlen, hpad, hlt⟩ := base64Encode_spec hne hsize
  have htotal : encodedLength s.length = 4 * (s.length ⌈/⌉ 3) := by
    rw [Nat.ceilDiv_eq_add_pred_div, encodedLength, Nat.mul_comm]
    rfl
  have hle : sextets.length ≤ encodedLength s.length := by
    unfold encodedLength
    omega
  refine ⟨sextets.map b64Char, encodedLength s.length - sextets.length, hencode, ?_, ?_, ?_, ?_⟩
  · exact (Output.length_written hle).trans htotal
  · intro c hc
    obtain ⟨d, hd, rfl⟩ := List.mem_map.mp hc
    exact (b64Char_spec (hlt d hd)).2.2.2.2
  · unfold encodedLength
    omega
  · obtain ⟨accumulator, bits, outs, hdecode, hregroup, hbits⟩ := decodeLoop_spec
      (Regroup.regrouped_nil 6 8 (0 : UInt32).toNat) (by decide) hlt
      (encodedLength s.length - sextets.length)
    rw [List.nil_append] at hregroup
    have hback : outs = s.map UInt8.toNat := hregroup.undo hbits (by omega)
      (by rw [hlen, List.length_map]) hvalue (by
        intro d hd
        obtain ⟨c, -, rfl⟩ := List.mem_map.mp hd
        exact c.toNat_lt)
    have hbytes : outs.map UInt8.ofNat = s := by
      rw [hback, List.map_map]
      exact (List.map_congr_left fun c _ => UInt8.ofNat_toNat).trans (List.map_id s)
    rwa [hbytes] at hdecode

/-- Three bytes with the high bit set, and one more. -/
theorem base64_roundtrip_four :
    ∃ body n, base64Encode [255, 254, 253, 128] = .ok (body ++ List.replicate n padding) ∧
      (body ++ List.replicate n padding).length = 4 * (4 ⌈/⌉ 3) ∧
      (∀ c ∈ body, c ∈ b64Table) ∧ n ≤ 2 ∧
      base64Decode (body ++ List.replicate n padding) = .ok [255, 254, 253, 128] :=
  base64_roundtrip (List.cons_ne_nil _ _) (by decide)

/-- No assertion fails and nothing is written behind the end of the output. -/
def Sound (r : Except Stop (List UInt8)) : Prop := r ≠ .error .assertion ∧ r ≠ .error .outOfRange

/-- The empty string: the length of the output less two wraps around. -/
theorem base64Encode_nil : base64Encode [] = .error .assertion := by decide +kernel

theorem sound_of_ne_nil {s : List UInt8} (hne : s ≠ []) : Sound (base64Encode s) := by
  by_cases hsize : s.length ≤ (2 ^ 64 - 1) / 4 * 3
  · obtain ⟨sextets, pad, hencode, -⟩ := base64Encode_spec hne hsize
    rw [hencode]
    exact ⟨nofun, nofun⟩
  · rw [base64Encode, if_pos (Nat.lt_of_not_le hsize)]
    exact ⟨nofun, nofun⟩

/-- **`base64_encode` keeps its assertions and the output iff it is given at least one byte.** -/
theorem base64Encode_sound_iff (s : List UInt8) : Sound (base64Encode s) ↔ s ≠ [] := by
  constructor
  · rintro h rfl
    exact h.1 base64Encode_nil
  · exact sound_of_ne_nil

theorem not_sound_nil : ¬ ∀ s, Sound (base64Encode s) :=
  fun h => (h []).1 base64Encode_nil

end Jengine.Utils
