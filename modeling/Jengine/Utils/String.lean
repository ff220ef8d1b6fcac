import Jengine.Lib.Utf8

/-!
# The number of characters of a string

`utf8strlen` (`base/utils/string.cpp`) asks `mbrlen` for the length of the next character, and
goes on by that many bytes until it is told 0.  That is what `mbrlen` says of a null character.
At the end of a string, where there are no bytes left, it says -2, and of bytes that are no
character -1: as a `size_t` both are greater than 0.

In a UTF-8 locale, `mbrlen` keeps the bytes of a character that is not complete yet.  What it
keeps after an error is not specified.
-/

namespace Jengine.Utils.Utf8

open Jengine.Lib.Utf8
open String (utf8EncodeChar)

/-- How a call ends that does not return. -/
inductive Stop where
  /-- A byte outside the string is read. -/
  | outOfBounds
  /-- The loop still runs when its fuel is used up. -/
  | running
deriving DecidableEq, Repr

/-! ### `mbrlen` -/

/-- The second bytes that may follow a first byte of three or four. -/
def secondByte (first second : UInt8) : Bool :=
  (if first = 0xE0 then 0xA0 else if first = 0xF0 then 0x90 else 0x80) ≤ second &&
    second ≤ (if first = 0xED then 0x9F else if first = 0xF4 then 0x8F else 0xBF)

/-- The bytes are the start of a character and not all of it. -/
def incomplete : List UInt8 → Bool
  | [] => true
  | [a] => 0xC2 ≤ a && a ≤ 0xF4
  | [a, b] => 0xE0 ≤ a && a ≤ 0xF4 && secondByte a b
  | [a, b, c] => 0xF0 ≤ a && a ≤ 0xF4 && secondByte a b && 0x80 ≤ c && c ≤ 0xBF
  | _ => false

/-- `mbstate_t`: the bytes of a character that is not complete. -/
structure MbState where
  pending : List UInt8
  isIncomplete : incomplete pending = true
  isNone : decodeChar? pending = none

/-- The initial state. -/
def MbState.init : MbState := ⟨[], rfl, rfl⟩

/-- `mbrlen` of the available bytes, with the state that an error leaves behind. -/
def mbrlen (afterError : MbState → List UInt8 → MbState) (s : MbState) (available : List UInt8) :
    UInt64 × MbState :=
  match h : decodeChar? (s.pending ++ available) with
  | some c =>
      if c = nul then (0, .init)
      else (UInt64.ofNat ((utf8EncodeChar c).length - s.pending.length), .init)
  | none =>
      if hinc : incomplete (s.pending ++ available) then (-2, ⟨s.pending ++ available, hinc, h⟩)
      else (-1, afterError s available)

/-! ### `utf8strlen` -/

section Strlen

variable (afterError : MbState → List UInt8 → MbState) (data : List UInt8)

/-- `mbrlen(begin, end - begin, &s)`, where `start` is how far `begin` is from `data.data()`. -/
def next (start : Int) (s : MbState) : Except Stop (UInt64 × MbState) :=
  if 0 ≤ start ∧ start ≤ data.length then .ok (mbrlen afterError s (data.drop start.toNat))
  else .error .outOfBounds

/-- The loop. -/
def strlenLoop : Nat → Int → Nat → UInt64 → MbState → Except Stop Nat
  | 0, _, _, _, _ => .error .running
  | fuel + 1, start, result, r, s =>
      if 0 < r then do
        let start := start + r.toInt64.toInt
        let (r, s) ← next afterError data start s
        strlenLoop fuel start (result + 1) r s
      else .ok result

/-- `utf8strlen`. -/
def utf8strlen (fuel : Nat) : Except Stop Nat := do
  let (r, s) ← next afterError data 0 .init
  strlenLoop afterError data fuel 0 0 r s

/-- The call returns and reads only bytes of the string; and if they are a text without a null
    character, it returns the number of its characters. -/
def Right : Prop :=
  ∃ fuel n, utf8strlen afterError data fuel = .ok n ∧
    ∀ cs, (∀ c ∈ cs, c ≠ nul) → data = encode cs → n = cs.length

end Strlen

/-- There is a null byte, and what is in front of the first one is a text. -/
def NullAfterText (data : List UInt8) : Prop :=
  ∃ cs rest, (∀ c ∈ cs, c ≠ nul) ∧ data = encode cs ++ 0 :: rest

/-! ### What `mbrlen` answers -/

variable {afterError : MbState → List UInt8 → MbState}

theorem mbrlen_some {s : MbState} {available : List UInt8} {c : Char}
    (h : decodeChar? (s.pending ++ available) = some c) :
    mbrlen afterError s available =
      if c = nul then (0, .init)
      else (UInt64.ofNat ((utf8EncodeChar c).length - s.pending.length), .init) := by
  rw [mbrlen]
  split
  · rename_i d hd
    rw [h] at hd
    cases hd
    rfl
  · rename_i hnone
    rw [h] at hnone
    cases hnone

theorem mbrlen_invalid {s : MbState} {available : List UInt8}
    (h : decodeChar? (s.pending ++ available) = none)
    (hinvalid : incomplete (s.pending ++ available) = false) :
    mbrlen afterError s available = (-1, afterError s available) := by
  rw [mbrlen]
  split
  · rename_i d hd
    rw [h] at hd
    cases hd
  · rw [dif_neg (by rw [hinvalid]; exact Bool.false_ne_true)]

theorem mbrlen_none (afterError : MbState → List UInt8 → MbState) {s : MbState}
    {available : List UInt8}
    (h : decodeChar? (s.pending ++ available) = none) :
    (mbrlen afterError s available).1 = -2 ∨ (mbrlen afterError s available).1 = -1 := by
  rw [mbrlen]
  split
  · rename_i d hd
    rw [h] at hd
    cases hd
  · split
    · exact Or.inl rfl
    · exact Or.inr rfl

theorem not_secondByte_zero (a : UInt8) : secondByte a 0 = false := by
  rw [secondByte]
  split
  · rfl
  · split
    · rfl
    · rfl

/-- The null byte is in no character that is not complete. -/
theorem zero_not_mem_incomplete {bs : List UInt8} (h : incomplete bs = true) : 0 ∉ bs := by
  intro hmem
  match bs, h, hmem with
  | [a], h, hmem =>
      rw [List.mem_singleton] at hmem
      subst hmem
      exact absurd h (by decide)
  | [a, b], h, hmem =>
      rw [incomplete, Bool.and_eq_true, Bool.and_eq_true] at h
      simp only [List.mem_cons, List.not_mem_nil, or_false] at hmem
      rcases hmem with rfl | rfl
      · exact absurd h.1.1 (by decide)
      · exact absurd h.2 (by rw [not_secondByte_zero]; decide)
  | [a, b, c], h, hmem =>
      rw [incomplete, Bool.and_eq_true, Bool.and_eq_true, Bool.and_eq_true, Bool.and_eq_true] at h
      simp only [List.mem_cons, List.not_mem_nil, or_false] at hmem
      rcases hmem with rfl | rfl | rfl
      · exact absurd h.1.1.1.1 (by decide)
      · exact absurd h.1.1.2 (by rw [not_secondByte_zero]; decide)
      · exact absurd h.1.2 (by decide)

/-- The length of a character that the pending bytes are a start of. -/
theorem length_pending {s : MbState} {available : List UInt8} {c : Char}
    (h : decodeChar? (s.pending ++ available) = some c) :
    s.pending.length < (utf8EncodeChar c).length := by
  by_contra hle
  obtain ⟨rest, hrest⟩ := eq_encode_append h
  have hfront : utf8EncodeChar c <+: s.pending :=
    List.prefix_of_prefix_length_le ⟨rest, hrest.symm⟩ (List.prefix_append _ _)
      (Nat.le_of_not_lt hle)
  obtain ⟨more, hmore⟩ := hfront
  have hdecode := decodeChar?_encode c more
  rw [hmore, s.isNone] at hdecode
  cases hdecode

/-- A length of a character, as it is added to a pointer. -/
theorem toInt_ofNat {n : Nat} (h : n ≤ 4) : (UInt64.ofNat n).toInt64.toInt = n := by
  match n, h with
  | 0, _ => rfl
  | 1, _ => rfl
  | 2, _ => rfl
  | 3, _ => rfl
  | 4, _ => rfl

theorem ofNat_pos {n : Nat} (hpos : 0 < n) (h : n ≤ 4) : 0 < UInt64.ofNat n := by
  match n, h with
  | 1, _ => decide
  | 2, _ => decide
  | 3, _ => decide
  | 4, _ => decide

/-! ### Strings without a result -/

/-- Every call of `mbrlen` inside the string answers something else than 0, and keeps the
    invariant of the position and the state. -/
def Keeps (afterError : MbState → List UInt8 → MbState) (data : List UInt8)
    (I : Int → MbState → Prop) : Prop :=
  ∀ (start : Int) (s : MbState), 0 ≤ start → start ≤ data.length → I start s →
    0 < (mbrlen afterError s (data.drop start.toNat)).1 ∧
      I (start + (mbrlen afterError s (data.drop start.toNat)).1.toInt64.toInt)
        (mbrlen afterError s (data.drop start.toNat)).2

/-- **The rule for a loop that never returns.** -/
theorem Keeps.strlenLoop_ne_ok {data : List UInt8} {I : Int → MbState → Prop}
    (h : Keeps afterError data I) (fuel : Nat) :
    ∀ {start : Int} {result : Nat} {r : UInt64} {s : MbState} {n : Nat}, 0 < r →
      I (start + r.toInt64.toInt) s →
        strlenLoop afterError data fuel start result r s ≠ .ok n := by
  induction fuel with
  | zero =>
      intro start result r s n _ _ hrun
      cases hrun
  | succ fuel ih =>
      intro start result r s n hr hinv
      simp only [strlenLoop, if_pos hr, next]
      split
      · rename_i hbounds
        obtain ⟨hpos, hinv'⟩ := h _ s hbounds.1 hbounds.2 hinv
        exact ih hpos hinv'
      · intro hrun
        cases hrun

theorem Keeps.utf8strlen_ne_ok {data : List UInt8} {I : Int → MbState → Prop}
    (h : Keeps afterError data I) (hinit : I 0 .init) (fuel n : Nat) :
    utf8strlen afterError data fuel ≠ .ok n := by
  have hbounds : (0 : Int) ≤ 0 ∧ (0 : Int) ≤ data.length := by omega
  obtain ⟨hpos, hinv⟩ := h 0 .init hbounds.1 hbounds.2 hinit
  simp only [utf8strlen, next, if_pos hbounds]
  exact h.strlenLoop_ne_ok fuel hpos hinv

/-- Without a null byte no call of `mbrlen` answers 0, whatever the states are. -/
theorem keeps_of_no_null {data : List UInt8} (h : 0 ∉ data) :
    Keeps afterError data fun _ _ => True := by
  intro start s _ _ _
  refine ⟨?_, trivial⟩
  rcases hdecode : decodeChar? (s.pending ++ data.drop start.toNat) with _ | c
  · rcases mbrlen_none afterError hdecode with hr | hr
    · rw [hr]
      decide
    · rw [hr]
      decide
  · have hlen := length_pending hdecode
    have hle := length_encodeChar_le c
    have hc : c ≠ nul := by
      rintro rfl
      obtain ⟨rest, hrest⟩ := eq_encode_append hdecode
      have hmem : 0 ∈ s.pending ++ data.drop start.toNat := by
        rw [hrest]
        exact List.mem_cons_self
      rcases List.mem_append.mp hmem with hmem | hmem
      · exact zero_not_mem_incomplete s.isIncomplete hmem
      · exact h (List.mem_of_mem_drop hmem)
    rw [mbrlen_some hdecode, if_neg hc]
    exact ofNat_pos (by omega) (by omega)

/-- Where something that is no character comes before a null byte, and an error leaves the
    initial state behind, the position stays in front of that place. -/
theorem keeps_of_invalid {cs : List Char} {tail : List UInt8} (hcs : ∀ c ∈ cs, c ≠ nul)
    (hnone : decodeChar? tail = none) (hzero : 0 ∈ tail) :
    Keeps (fun _ _ => .init) (encode cs ++ tail)
      fun start s => start ≤ (encode cs).length ∧ s = .init := by
  rintro start s hpos - ⟨hle, rfl⟩
  obtain ⟨i, rfl⟩ := Int.eq_ofNat_of_zero_le hpos
  rw [Int.toNat_natCast]
  have hi : i ≤ (encode cs).length := by omega
  -- nothing is read at the place itself, nor in the middle of a character
  have hcases : decodeChar? ((encode cs ++ tail).drop i) = none ∨
      ∃ c ∈ cs, decodeChar? ((encode cs ++ tail).drop i) = some c ∧
        i + (utf8EncodeChar c).length ≤ (encode cs).length := by
    rcases Nat.lt_or_eq_of_le hi with hlt | rfl
    · exact decodeChar?_drop cs tail hlt
    · rw [List.drop_left]
      exact Or.inl hnone
  rcases hcases with hdecode | ⟨c, hc, hdecode, hend⟩
  · have hinvalid : incomplete ((encode cs ++ tail).drop i) = false := by
      rw [Bool.eq_false_iff]
      intro hinc
      refine zero_not_mem_incomplete hinc ?_
      rw [List.drop_append_of_le_length hi]
      exact List.mem_append_right _ hzero
    rw [mbrlen_invalid (s := .init) hdecode hinvalid]
    refine ⟨by decide, ?_, rfl⟩
    have hback : (-1 : UInt64).toInt64.toInt = -1 := by decide
    rw [hback]
    omega
  · rw [mbrlen_some (s := .init) hdecode, if_neg (hcs c hc)]
    have hlen : MbState.init.pending.length = 0 := rfl
    have hle4 := length_encodeChar_le c
    rw [hlen, Nat.sub_zero]
    refine ⟨ofNat_pos (length_encodeChar_pos c) hle4, ?_, rfl⟩
    rw [toInt_ofNat hle4]
    omega

/-- Where the call returns whatever an error leaves behind, the string has a null byte after a
    text. -/
theorem nullAfterText_of_right {data : List UInt8} (h : ∀ afterError, Right afterError data) :
    NullAfterText data := by
  obtain ⟨fuel, n, hrun, -⟩ := h fun _ _ => .init
  obtain ⟨cs, tail, hcs, rfl, hnone | ⟨rest, rfl⟩⟩ := exists_text data
  · exfalso
    by_cases hzero : 0 ∈ tail
    · exact (keeps_of_invalid hcs hnone hzero).utf8strlen_ne_ok ⟨Int.natCast_nonneg _, rfl⟩
        fuel n hrun
    · have hdata : 0 ∉ encode cs ++ tail := by
        intro hmem
        rcases List.mem_append.mp hmem with hmem | hmem
        · exact zero_not_mem_encode hcs hmem
        · exact hzero hmem
      exact (keeps_of_no_null hdata).utf8strlen_ne_ok trivial fuel n hrun
  · exact ⟨cs, rest, hcs, rfl⟩

/-! ### Strings with a null byte after a text -/

/-- A call of `mbrlen` somewhere in the string. -/
theorem next_append (afterError : MbState → List UInt8 → MbState) (front bs : List UInt8)
    (s : MbState) :
    next afterError (front ++ bs) front.length s = .ok (mbrlen afterError s bs) := by
  have hbounds : (0 : Int) ≤ front.length ∧ (front.length : Int) ≤ (front ++ bs).length := by
    rw [List.length_append]
    omega
  rw [next, if_pos hbounds, Int.toNat_natCast, List.drop_left]

theorem mbrlen_null (afterError : MbState → List UInt8 → MbState) (rest : List UInt8) :
    mbrlen afterError .init (0 :: rest) = (0, .init) := by
  have hdecode : decodeChar? (MbState.init.pending ++ 0 :: rest) = some nul := decodeChar?_nul rest
  rw [mbrlen_some hdecode, if_pos rfl]

theorem mbrlen_char (afterError : MbState → List UInt8 → MbState) {c : Char} (hc : c ≠ nul)
    (bs : List UInt8) :
    mbrlen afterError .init (utf8EncodeChar c ++ bs) =
      (UInt64.ofNat (utf8EncodeChar c).length, .init) := by
  have hdecode : decodeChar? (MbState.init.pending ++ (utf8EncodeChar c ++ bs)) = some c :=
    decodeChar?_encode c bs
  rw [mbrlen_some hdecode, if_neg hc]
  rfl

/-- From the start of a character on, the loop counts the characters up to the null byte. -/
theorem strlenLoop_text (afterError : MbState → List UInt8 → MbState) (rest : List UInt8)
    (cs : List Char) :
    ∀ (front : List UInt8) (result : Nat), (∀ c ∈ cs, c ≠ nul) →
      ∃ fuel n, strlenLoop afterError (front ++ (encode cs ++ 0 :: rest)) fuel front.length result
        (mbrlen afterError .init (encode cs ++ 0 :: rest)).1
        (mbrlen afterError .init (encode cs ++ 0 :: rest)).2 = .ok n := by
  induction cs with
  | nil =>
      intro front result _
      refine ⟨1, result, ?_⟩
      rw [encode_nil, List.nil_append, mbrlen_null, strlenLoop, if_neg (by decide)]
  | cons c cs ih =>
      intro front result hcs
      have hle := length_encodeChar_le c
      obtain ⟨fuel, n, hrun⟩ := ih (front ++ utf8EncodeChar c) (result + 1)
        fun d hd => hcs d (List.mem_cons_of_mem c hd)
      have hdata : encode (c :: cs) ++ 0 :: rest =
          utf8EncodeChar c ++ (encode cs ++ 0 :: rest) := by
        rw [encode_cons, List.append_assoc]
      have hstart : (front.length : Int) +
          (UInt64.ofNat (utf8EncodeChar c).length).toInt64.toInt =
            (front ++ utf8EncodeChar c).length := by
        rw [toInt_ofNat hle, List.length_append, Int.natCast_add]
      refine ⟨fuel + 1, n, ?_⟩
      rw [hdata, mbrlen_char afterError (hcs c List.mem_cons_self), ← List.append_assoc front]
      simp only [strlenLoop, if_pos (ofNat_pos (length_encodeChar_pos c) hle), hstart, next_append]
      exact hrun

theorem right_of_nullAfterText {data : List UInt8} (h : NullAfterText data)
    (afterError : MbState → List UInt8 → MbState) : Right afterError data := by
  obtain ⟨cs, rest, hcs, rfl⟩ := h
  obtain ⟨fuel, n, hrun⟩ := strlenLoop_text afterError rest cs [] 0 hcs
  have hfirst : next afterError (encode cs ++ 0 :: rest) 0 .init =
      .ok (mbrlen afterError .init (encode cs ++ 0 :: rest)) := next_append afterError [] _ .init
  refine ⟨fuel, n, ?_, ?_⟩
  · simp only [utf8strlen, hfirst]
    exact hrun
  · intro ds hds htext
    have hmem : 0 ∈ encode ds := by
      rw [← htext]
      exact List.mem_append_right _ List.mem_cons_self
    exact absurd hmem (zero_not_mem_encode hds)

/-- **The number of characters.**  Whatever an error leaves behind, `utf8strlen` returns, reads
    only the string and counts what it should, iff the string has a null byte and what is in
    front of the first one is a text. -/
theorem utf8strlen_right_iff (data : List UInt8) :
    (∀ afterError, Right afterError data) ↔ NullAfterText data :=
  ⟨nullAfterText_of_right, right_of_nullAfterText⟩

/-- The text "a". -/
theorem not_utf8strlen_right_a : ¬ ∀ afterError, Right afterError [0x61] := by
  intro hright
  obtain ⟨cs, rest, -, hdata⟩ := nullAfterText_of_right hright
  have hmem : (0 : UInt8) ∈ [(0x61 : UInt8)] := by
    rw [hdata]
    exact List.mem_append_right _ List.mem_cons_self
  exact absurd hmem (by decide)

end Jengine.Utils.Utf8
