import Mathlib.Data.List.Basic

/-!
# Texts as bytes

The first character of a list of bytes, where one is encoded there, and what a list of bytes
looks like that is cut into characters from its front: `exists_text` takes off characters until
there are none left or a byte is reached where none starts, and `decodeChar?_drop` says what can
be read from the middle of a text.  A null byte is the character 0 and in no other encoding.
-/

namespace Jengine.Lib.Utf8

open String (utf8EncodeChar)

/-- The first character. -/
def decodeChar? (bs : List UInt8) : Option Char := bs.toByteArray.utf8DecodeChar? 0

def encode (cs : List Char) : List UInt8 := cs.flatMap utf8EncodeChar

/-- The null character. -/
def nul : Char := Char.ofNat 0

@[simp] theorem encode_nil : encode [] = [] := rfl

@[simp] theorem encode_cons (c : Char) (cs : List Char) :
    encode (c :: cs) = utf8EncodeChar c ++ encode cs := List.flatMap_cons

theorem length_encodeChar_pos (c : Char) : 0 < (utf8EncodeChar c).length :=
  List.length_pos_of_ne_nil String.utf8EncodeChar_ne_nil

theorem length_encodeChar_le (c : Char) : (utf8EncodeChar c).length ≤ 4 := by
  rw [String.length_utf8EncodeChar]
  exact c.utf8Size_le_four

theorem decodeChar?_encode (c : Char) (bs : List UInt8) :
    decodeChar? (utf8EncodeChar c ++ bs) = some c := by
  rw [decodeChar?, List.toByteArray_append, ByteArray.utf8DecodeChar?_utf8EncodeChar_append]

theorem decodeChar?_nul (bs : List UInt8) : decodeChar? (0 :: bs) = some nul :=
  decodeChar?_encode nul bs

theorem eq_encode_append {bs : List UInt8} {c : Char} (h : decodeChar? bs = some c) :
    ∃ rest, bs = utf8EncodeChar c ++ rest := by
  obtain ⟨l, hl⟩ := ByteArray.exists_of_utf8DecodeChar?_eq_some h
  have hlist := congrArg (fun b => b.data.toList) hl
  simp only [List.toList_data_toByteArray, ByteArray.toList_data_append] at hlist
  exact ⟨l.data.toList, hlist⟩

/-- No character starts at a byte that is not the first one of an encoding. -/
theorem decodeChar?_middle {c : Char} {i : Nat} (hpos : 0 < i)
    (hi : i < (utf8EncodeChar c).length) (bs : List UInt8) :
    decodeChar? ((utf8EncodeChar c ++ bs).drop i) = none := by
  rcases hdecode : decodeChar? ((utf8EncodeChar c ++ bs).drop i) with _ | d
  · rfl
  · obtain ⟨rest, hrest⟩ := eq_encode_append hdecode
    have hlen := length_encodeChar_pos d
    -- one byte would start an encoding and continue one
    have hbyte : (utf8EncodeChar c)[i] = (utf8EncodeChar d)[0] := by
      have hget := congrArg (fun l => l[0]?) hrest
      simp only [List.getElem?_drop, Nat.add_zero, List.getElem?_append_left hi,
        List.getElem?_append_left hlen, List.getElem?_eq_getElem hi,
        List.getElem?_eq_getElem hlen, Option.some.injEq] at hget
      exact hget
    have hstart : ((utf8EncodeChar d)[0]).IsUTF8FirstByte :=
      UInt8.isUTF8FirstByte_getElem_utf8EncodeChar.mpr rfl
    rw [← hbyte, UInt8.isUTF8FirstByte_getElem_utf8EncodeChar] at hstart
    exact absurd hstart (Nat.ne_of_gt hpos)

/-- A null byte is the null character. -/
theorem eq_nul_of_zero_mem {c : Char} (h : 0 ∈ utf8EncodeChar c) : c = nul := by
  obtain ⟨i, hi, hzero⟩ := List.getElem_of_mem h
  have hstart : ((utf8EncodeChar c)[i]).IsUTF8FirstByte := by
    rw [hzero]
    decide
  rw [UInt8.isUTF8FirstByte_getElem_utf8EncodeChar] at hstart
  subst hstart
  have hcons : (utf8EncodeChar c).drop 0 = 0 :: (utf8EncodeChar c).drop 1 := by
    rw [List.drop_eq_getElem_cons hi, hzero]
  have hdecode := decodeChar?_encode c []
  rw [List.append_nil, ← List.drop_zero (l := utf8EncodeChar c), hcons, decodeChar?_nul] at hdecode
  exact (Option.some.inj hdecode).symm

/-- What can be read from the middle of a text, whatever follows it: nothing, or one of its
    characters that is not behind its end. -/
theorem decodeChar?_drop (cs : List Char) (tail : List UInt8) {i : Nat}
    (hi : i < (encode cs).length) :
    decodeChar? ((encode cs ++ tail).drop i) = none ∨
      ∃ c ∈ cs, decodeChar? ((encode cs ++ tail).drop i) = some c ∧
        i + (utf8EncodeChar c).length ≤ (encode cs).length := by
  induction cs generalizing i with
  | nil => exact absurd hi (Nat.not_lt_zero i)
  | cons c cs ih =>
      rw [encode_cons, List.append_assoc]
      rw [encode_cons, List.length_append] at hi
      by_cases hfirst : i < (utf8EncodeChar c).length
      · rcases Nat.eq_zero_or_pos i with rfl | hpos
        · right
          refine ⟨c, List.mem_cons_self, decodeChar?_encode c _, ?_⟩
          rw [Nat.zero_add, List.length_append]
          exact Nat.le_add_right ..
        · left
          exact decodeChar?_middle hpos hfirst _
      · obtain ⟨j, rfl⟩ := Nat.exists_eq_add_of_le (Nat.le_of_not_lt hfirst)
        have hdrop : (utf8EncodeChar c ++ (encode cs ++ tail)).drop
            ((utf8EncodeChar c).length + j) = (encode cs ++ tail).drop j :=
          List.drop_length_add_append j
        rw [hdrop]
        rcases ih (i := j) (by omega) with hnone | ⟨d, hd, hsome, hle⟩
        · exact Or.inl hnone
        · refine Or.inr ⟨d, List.mem_cons_of_mem c hd, hsome, ?_⟩
          rw [List.length_append]
          omega

/-- A list of bytes is a text without the null character, up to its end, a null byte or a place
    where no character starts. -/
theorem exists_text (bs : List UInt8) :
    ∃ cs tail, (∀ c ∈ cs, c ≠ nul) ∧ bs = encode cs ++ tail ∧
      (decodeChar? tail = none ∨ ∃ rest, tail = 0 :: rest) := by
  induction hn : bs.length using Nat.strongRecOn generalizing bs with
  | ind n ih =>
      subst hn
      rcases hdecode : decodeChar? bs with _ | c
      · exact ⟨[], bs, fun c hc => absurd hc List.not_mem_nil, rfl, Or.inl hdecode⟩
      · obtain ⟨rest, rfl⟩ := eq_encode_append hdecode
        by_cases hc : c = nul
        · subst hc
          exact ⟨[], _, fun c hc => absurd hc List.not_mem_nil, rfl, Or.inr ⟨rest, rfl⟩⟩
        · have hshorter : rest.length < (utf8EncodeChar c ++ rest).length := by
            have hpos := length_encodeChar_pos c
            rw [List.length_append]
            omega
          obtain ⟨cs, tail, hcs, rfl, htail⟩ := ih rest.length hshorter rest rfl
          refine ⟨c :: cs, tail, ?_, by rw [encode_cons, List.append_assoc], htail⟩
          intro d hd
          rcases List.mem_cons.mp hd with rfl | hd
          · exact hc
          · exact hcs d hd

/-- A text without the null character has no null byte. -/
theorem zero_not_mem_encode {cs : List Char} (h : ∀ c ∈ cs, c ≠ nul) : 0 ∉ encode cs := by
  intro hmem
  obtain ⟨c, hc, hzero⟩ := List.mem_flatMap.mp hmem
  exact h c hc (eq_nul_of_zero_mem hzero)

end Jengine.Lib.Utf8
