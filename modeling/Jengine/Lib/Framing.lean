import Mathlib.Data.List.Basic

/-!
# Framing a stream that arrives in pieces

A framing says what the front of a buffer holds: the start of a frame that is
not complete yet, a complete frame of a given length, or something no later
byte can repair.  The two stability fields are what makes the answer
independent of how the stream was cut: a verdict other than `wait` is not
changed by more input.

`parse` cuts a whole buffer.  `parse_append` is the result that the clients of
this module use: parsing a stream once is the same as parsing its first part,
keeping the unconsumed rest and going on with it when the second part arrives.
-/

namespace Jengine.Lib

/-- What the front of a buffer holds. -/
inductive Verdict where
  | wait
  | frame (n : Nat)
  | bad
deriving DecidableEq, Repr

/-- A framing of streams over `α`. -/
structure Framing (α : Type) where
  verdict : List α → Verdict
  frame_bounds : ∀ {b n}, verdict b = .frame n → 0 < n ∧ n ≤ b.length
  frame_stable : ∀ {b n} (c : List α), verdict b = .frame n → verdict (b ++ c) = .frame n
  bad_stable : ∀ {b} (c : List α), verdict b = .bad → verdict (b ++ c) = .bad

/-- The frames cut off a buffer, whether the cutting ended at a bad front, and
    what was left of the buffer. -/
structure Parsed (α : Type) where
  frames : List (List α)
  bad : Bool
  rest : List α
deriving DecidableEq, Repr

namespace Framing

variable {α : Type} (F : Framing α)

/-- Cut at most `fuel` frames off the front of a buffer. -/
def parseFuel : Nat → List α → Parsed α
  | 0, b => ⟨[], false, b⟩
  | fuel + 1, b =>
      match F.verdict b with
      | .wait => ⟨[], false, b⟩
      | .bad => ⟨[], true, b⟩
      | .frame n =>
          let r := parseFuel fuel (b.drop n)
          ⟨b.take n :: r.frames, r.bad, r.rest⟩

/-- Cut a buffer into frames.  Every frame takes at least one cell, so the
    length of the buffer is enough fuel. -/
def parse (b : List α) : Parsed α := F.parseFuel (b.length + 1) b

/-- Any two amounts of fuel that exceed the length of the buffer agree. -/
theorem parseFuel_eq_of_lt : ∀ (fuel fuel' : Nat) (b : List α),
    b.length < fuel → b.length < fuel' → F.parseFuel fuel b = F.parseFuel fuel' b := by
  intro fuel
  induction fuel with
  | zero => intro fuel' b h _; omega
  | succ fuel ih =>
      intro fuel' b h h'
      obtain ⟨fuel', rfl⟩ : ∃ k, fuel' = k + 1 := ⟨fuel' - 1, by omega⟩
      simp only [parseFuel]
      rcases hv : F.verdict b with _ | n | _
      · rfl
      · obtain ⟨hpos, hle⟩ := F.frame_bounds hv
        have hlen : (b.drop n).length = b.length - n := List.length_drop
        simp only [ih fuel' (b.drop n) (by omega) (by omega)]
      · rfl

theorem parse_of_wait {b : List α} (h : F.verdict b = .wait) : F.parse b = ⟨[], false, b⟩ := by
  simp only [parse, parseFuel, h]

theorem parse_of_bad {b : List α} (h : F.verdict b = .bad) : F.parse b = ⟨[], true, b⟩ := by
  simp only [parse, parseFuel, h]

theorem parse_of_frame {b : List α} {n : Nat} (h : F.verdict b = .frame n) :
    F.parse b =
      ⟨b.take n :: (F.parse (b.drop n)).frames, (F.parse (b.drop n)).bad,
        (F.parse (b.drop n)).rest⟩ := by
  obtain ⟨hpos, hle⟩ := F.frame_bounds h
  have hlen : (b.drop n).length = b.length - n := List.length_drop
  have hfuel : F.parseFuel b.length (b.drop n) = F.parse (b.drop n) :=
    F.parseFuel_eq_of_lt _ _ _ (by omega) (by omega)
  conv_lhs => simp only [parse, parseFuel, h]
  rw [hfuel]

/-- What parsing goes on to when `c` arrives after the input parsed to `r`. -/
def resume (r : Parsed α) (c : List α) : Parsed α :=
  if r.bad then ⟨r.frames, true, r.rest ++ c⟩
  else ⟨r.frames ++ (F.parse (r.rest ++ c)).frames, (F.parse (r.rest ++ c)).bad,
    (F.parse (r.rest ++ c)).rest⟩

/-- **Segmentation does not matter.**  Parsing a stream at once is parsing its
    first part and resuming with the second. -/
theorem parse_append (b c : List α) : F.parse (b ++ c) = F.resume (F.parse b) c := by
  induction hn : b.length using Nat.strongRecOn generalizing b with
  | ind len ih =>
      subst hn
      rcases hv : F.verdict b with _ | n | _
      · rw [F.parse_of_wait hv]
        simp [resume]
      · obtain ⟨hpos, hle⟩ := F.frame_bounds hv
        have hlen : (b.drop n).length = b.length - n := List.length_drop
        have hstep := ih (b.drop n).length (by omega) (b.drop n) rfl
        rw [F.parse_of_frame (F.frame_stable c hv), List.drop_append_of_le_length hle,
          List.take_append_of_le_length hle, hstep, F.parse_of_frame hv]
        simp only [resume]
        split <;> simp
      · rw [F.parse_of_bad hv, F.parse_of_bad (F.bad_stable c hv)]
        simp [resume]

/-- A buffer without a frame is left as it is. -/
theorem rest_of_no_frame {b : List α} (h : (F.parse b).frames = []) : (F.parse b).rest = b := by
  rcases hv : F.verdict b with _ | n | _
  · rw [F.parse_of_wait hv]
  · rw [F.parse_of_frame hv] at h
    cases h
  · rw [F.parse_of_bad hv]

/-- Where no front is bad, parsing goes on with the rest. -/
theorem parse_append_of_ne_bad (hbad : ∀ b, F.verdict b ≠ .bad) (b c : List α) :
    (F.parse (b ++ c)).frames = (F.parse b).frames ++ (F.parse ((F.parse b).rest ++ c)).frames ∧
      (F.parse (b ++ c)).rest = (F.parse ((F.parse b).rest ++ c)).rest := by
  have hnever : ∀ b, (F.parse b).bad = false := by
    intro b
    induction hn : b.length using Nat.strongRecOn generalizing b with
    | ind len ih =>
        subst hn
        rcases hv : F.verdict b with _ | n | _
        · rw [F.parse_of_wait hv]
        · obtain ⟨hpos, hle⟩ := F.frame_bounds hv
          have hlen : (b.drop n).length = b.length - n := List.length_drop
          rw [F.parse_of_frame hv]
          exact ih (b.drop n).length (by omega) (b.drop n) rfl
        · exact absurd hv (hbad b)
  rw [F.parse_append, resume, if_neg (by rw [hnever]; exact Bool.false_ne_true)]
  exact ⟨rfl, rfl⟩

end Framing

end Jengine.Lib
