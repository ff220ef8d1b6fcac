import Mathlib.Data.Nat.Digits.Defs

/-!
# Regrouping digits

A number is given by digits of `a` bits and wanted in digits of `b` bits, the most significant
first.  The usual loop takes one digit after the other into an accumulator, which keeps old bits
above the ones that still count, and takes a digit out whenever enough bits are there.  What is
true between the steps does not depend on how many digits there are, nor on what is above the
bits that count.
-/

namespace Jengine.Lib.Regroup

/-- The number that digits of `w` bits spell. -/
def value (w : Nat) (ds : List Nat) : Nat := Nat.ofDigits (2 ^ w) ds.reverse

@[simp] theorem value_nil (w : Nat) : value w [] = 0 := rfl

theorem value_concat (w : Nat) (ds : List Nat) (d : Nat) :
    value w (ds ++ [d]) = value w ds * 2 ^ w + d := by
  rw [value, List.reverse_append, List.reverse_singleton, List.singleton_append,
    Nat.ofDigits_cons, Nat.mul_comm, Nat.add_comm]
  rfl

/-- Digits are determined by their number and how many they are. -/
theorem value_inj {w : Nat} (hw : 0 < w) {xs ys : List Nat} (hlen : xs.length = ys.length)
    (hxs : ∀ d ∈ xs, d < 2 ^ w) (hys : ∀ d ∈ ys, d < 2 ^ w) (h : value w xs = value w ys) :
    xs = ys := by
  have hbase : 1 < 2 ^ w := Nat.one_lt_two_pow (Nat.pos_iff_ne_zero.mp hw)
  have hreverse := Nat.ofDigits_inj_of_len_eq hbase
    (by rw [List.length_reverse, List.length_reverse, hlen])
    (fun d hd => hxs d (List.mem_reverse.mp hd)) (fun d hd => hys d (List.mem_reverse.mp hd)) h
  exact List.reverse_inj.mp hreverse

/-- The digits `ins` of `a` bits have become the digits `outs` of `b` bits, and the `count` low
    bits of the accumulator are left. -/
structure Regrouped (a b : Nat) (ins outs : List Nat) (acc count : Nat) : Prop where
  bits : a * ins.length = b * outs.length + count
  number : value a ins = value b outs * 2 ^ count + acc % 2 ^ count
  lt : ∀ d ∈ outs, d < 2 ^ b

variable {a b : Nat} {ins outs : List Nat} {acc count : Nat}

theorem regrouped_nil (a b acc : Nat) : Regrouped a b [] [] acc 0 where
  bits := rfl
  number := by rw [pow_zero, Nat.mod_one]; rfl
  lt _ hd := absurd hd List.not_mem_nil

namespace Regrouped

/-- A digit goes in at the low end. -/
theorem push (h : Regrouped a b ins outs acc count) {d acc' : Nat}
    (hacc : acc' % 2 ^ (count + a) = acc % 2 ^ count * 2 ^ a + d) :
    Regrouped a b (ins ++ [d]) outs acc' (count + a) where
  bits := by
    rw [List.length_append, List.length_singleton, Nat.mul_succ, h.bits, Nat.add_assoc]
  number := by
    rw [value_concat, h.number, hacc, pow_add, Nat.add_mul, Nat.mul_assoc, Nat.add_assoc]
  lt := h.lt

/-- A digit comes out at the high end of the bits that count. -/
theorem emit (h : Regrouped a b ins outs acc (count + b)) :
    Regrouped a b ins (outs ++ [acc / 2 ^ count % 2 ^ b]) acc count where
  bits := by
    rw [List.length_append, List.length_singleton, Nat.mul_succ, h.bits, Nat.add_comm count b,
      Nat.add_assoc]
  number := by
    have hlow : acc % 2 ^ (count + b) = acc / 2 ^ count % 2 ^ b * 2 ^ count + acc % 2 ^ count := by
      rw [pow_add, Nat.mod_mul, Nat.mul_comm, Nat.add_comm]
    rw [h.number, value_concat, hlow, Nat.add_mul, Nat.mul_assoc, ← pow_add, Nat.add_comm b count,
      Nat.add_assoc]
  lt := by
    intro d hd
    rcases List.mem_append.mp hd with hd | hd
    · exact h.lt d hd
    · rw [List.mem_singleton.mp hd]
      exact Nat.mod_lt _ (Nat.two_pow_pos b)

/-- The bits that are left over make one more digit, with zeros behind them. -/
theorem pad (h : Regrouped a b ins outs acc count) (hcount : count ≤ b) :
    value b (outs ++ [acc % 2 ^ count * 2 ^ (b - count)]) = value a ins * 2 ^ (b - count) ∧
      b * (outs.length + 1) = a * ins.length + (b - count) ∧
      acc % 2 ^ count * 2 ^ (b - count) < 2 ^ b := by
  have hsplit : count + (b - count) = b := Nat.add_sub_cancel' hcount
  refine ⟨?_, ?_, ?_⟩
  · rw [value_concat, h.number, Nat.add_mul, Nat.mul_assoc, ← pow_add, hsplit]
  · rw [h.bits, Nat.mul_succ]
    omega
  · calc acc % 2 ^ count * 2 ^ (b - count)
        < 2 ^ count * 2 ^ (b - count) :=
          Nat.mul_lt_mul_of_pos_right (Nat.mod_lt _ (Nat.two_pow_pos count)) (Nat.two_pow_pos _)
      _ = 2 ^ b := by rw [← pow_add, hsplit]

/-- **Regrouping back gives the digits one started with**, where fewer than `a` bits have been
    put behind them. -/
theorem undo {xs : List Nat} {pad : Nat} (h : Regrouped b a ins outs acc count)
    (hcount : count < a) (hpad : pad < a) (hlen : b * ins.length = a * xs.length + pad)
    (hvalue : value b ins = value a xs * 2 ^ pad) (hxs : ∀ d ∈ xs, d < 2 ^ a) :
    outs = xs := by
  have hbits : a * outs.length + count = a * xs.length + pad := h.bits.symm.trans hlen
  have hlength : outs.length = xs.length := by
    have hdiv := congrArg (· / a) hbits
    simp only [Nat.mul_add_div (Nat.zero_lt_of_lt hpad), Nat.div_eq_of_lt hcount,
      Nat.div_eq_of_lt hpad, Nat.add_zero] at hdiv
    exact hdiv
  have hsame : count = pad := by
    rw [hlength] at hbits
    exact Nat.add_left_cancel hbits
  subst hsame
  have hdigits : value a outs = value a xs := by
    have hdiv := congrArg (· / 2 ^ count) (h.number.symm.trans hvalue)
    simp only [Nat.mul_comm _ (2 ^ count), Nat.mul_add_div (Nat.two_pow_pos count),
      Nat.div_eq_of_lt (Nat.mod_lt acc (Nat.two_pow_pos count)), Nat.add_zero,
      Nat.mul_div_cancel_left _ (Nat.two_pow_pos count)] at hdiv
    exact hdiv
  exact value_inj (Nat.zero_lt_of_lt hpad) hlength h.lt hxs hdigits

end Regrouped

/-- Shifting a digit into an accumulator of `width` bits. -/
theorem shift_or_mod {width acc d : Nat} (hd : d < 2 ^ a) (hfits : count + a ≤ width) :
    (acc <<< a % 2 ^ width ||| d) % 2 ^ (count + a) = acc % 2 ^ count * 2 ^ a + d := by
  have hwidth : 2 ^ width = 2 ^ (width - a) * 2 ^ a := by
    rw [← pow_add, Nat.sub_add_cancel (by omega)]
  have hshift : acc <<< a % 2 ^ width = (acc % 2 ^ (width - a)) <<< a := by
    rw [Nat.shiftLeft_eq, Nat.shiftLeft_eq, hwidth, Nat.mul_mod_mul_right]
  have hlow : acc % 2 ^ (width - a) % 2 ^ count = acc % 2 ^ count :=
    Nat.mod_mod_of_dvd _ (pow_dvd_pow 2 (by omega))
  rw [hshift, ← Nat.shiftLeft_add_eq_or_of_lt hd, Nat.shiftLeft_eq, Nat.add_comm count a, pow_add,
    Nat.mod_mul, Nat.mul_add_mod_of_lt hd, Nat.mul_comm (acc % _), Nat.mul_add_div
    (Nat.two_pow_pos a), Nat.div_eq_of_lt hd, Nat.add_zero, hlow, Nat.add_comm, Nat.mul_comm]

end Jengine.Lib.Regroup
