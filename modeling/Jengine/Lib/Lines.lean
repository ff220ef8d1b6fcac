import Mathlib.Data.List.Infix

/-!
# The head of a text message

The lines of a head end in CR LF, and an empty line ends the head; what follows is the body.
`splitHead` reads such a message from left to right and takes the first line end it meets.
A line without a line end inside comes back as it was put in.
-/

namespace Jengine.Lib

/-- The bytes of a text. -/
def ascii (s : String) : List UInt8 := s.toList.map fun c => UInt8.ofNat c.toNat

def crlf : List UInt8 := [13, 10]

/-- The lines up to the first empty one, and the bytes behind it; `line` has been read already. -/
def splitHead (line : List UInt8) : List UInt8 → Option (List (List UInt8) × List UInt8)
  | [] => none
  | b :: rest =>
      if b = 10 ∧ line.getLast? = some 13 then
        if line = [13] then some ([], rest)
        else (splitHead [] rest).map fun r => (line.dropLast :: r.1, r.2)
      else splitHead (line ++ [b]) rest

/-- One more line is read to its end. -/
theorem splitHead_crlf (line q : List UInt8) (h : ¬ crlf <:+: line ++ q) (rest : List UInt8) :
    splitHead line (q ++ crlf ++ rest) =
      if line ++ q = [] then some ([], rest)
      else (splitHead [] rest).map fun r => ((line ++ q) :: r.1, r.2) := by
  induction q generalizing line with
  | nil =>
      rw [List.nil_append, List.append_nil, show crlf ++ rest = 13 :: 10 :: rest from rfl,
        splitHead, if_neg fun h13 => absurd h13.1 (by decide), splitHead,
        if_pos ⟨rfl, List.getLast?_concat⟩, List.dropLast_concat]
      simp only [List.append_eq_singleton_iff, List.cons_ne_self, and_false, or_false, and_true]
  | cons b q ih =>
      have hmove : line ++ b :: q = line ++ [b] ++ q := (List.append_cons line b q)
      have hinside : ¬ (b = 10 ∧ line.getLast? = some 13) := by
        rintro ⟨rfl, hlast⟩
        obtain ⟨front, rfl⟩ := List.getLast?_eq_some_iff.mp hlast
        exact h ⟨front, q, by rw [List.append_assoc, List.append_assoc]; rfl⟩
      rw [List.cons_append, List.cons_append, splitHead, if_neg hinside, hmove]
      exact ih _ (hmove ▸ h)

theorem splitHead_line {line : List UInt8} (h : ¬ crlf <:+: line) (hne : line ≠ [])
    (rest : List UInt8) :
    splitHead [] (line ++ crlf ++ rest) =
      (splitHead [] rest).map fun r => (line :: r.1, r.2) := by
  have hread := splitHead_crlf [] line h rest
  rwa [List.nil_append, if_neg hne] at hread

theorem splitHead_blank (rest : List UInt8) : splitHead [] (crlf ++ rest) = some ([], rest) :=
  splitHead_crlf [] [] (by decide) rest

/-- The first line goes no further than the first line end. -/
theorem length_first_le {line bs l body a r : List UInt8} {ls : List (List UInt8)}
    (h : splitHead line bs = some (l :: ls, body)) (hbs : line ++ bs = a ++ crlf ++ r)
    (hle : line.length ≤ a.length + 1) : l.length ≤ a.length := by
  induction bs generalizing line with
  | nil => cases h
  | cons b bs ih =>
      rw [splitHead] at h
      split at h
      · split at h
        · cases h
        · obtain ⟨r', -, heq⟩ := Option.map_eq_some_iff.mp h
          obtain rfl : line.dropLast = l := (List.cons.inj (Prod.mk.inj heq).1).1
          rw [List.length_dropLast]
          omega
      · rename_i hinside
        refine ih h ((List.append_cons line b bs).symm.trans hbs) ?_
        rw [List.length_append, List.length_singleton]
        -- the cursor does not step over a line end
        have hne : line.length ≠ a.length + 1 := by
          intro heq
          have hsplit : line ++ b :: bs = (a ++ [13]) ++ 10 :: r := by
            rw [hbs, List.append_assoc, List.append_assoc]
            rfl
          obtain ⟨rfl, htail⟩ := List.append_inj hsplit (by simpa using heq)
          exact hinside ⟨(List.cons.inj htail).1, List.getLast?_concat⟩
        omega

/-! ### Where there is no line end -/

theorem no_crlf_of_not_mem {q : List UInt8} (h : 13 ∉ q) : ¬ crlf <:+: q :=
  fun hcrlf => h (hcrlf.subset List.mem_cons_self)

/-- No line end goes over a byte that is none of its two. -/
theorem crlf_infix_append {a b : List UInt8} {c : UInt8} (h13 : c ≠ 13) (h10 : c ≠ 10)
    (h : crlf <:+: a ++ c :: b) : crlf <:+: a ∨ crlf <:+: b := by
  induction a with
  | nil =>
      rcases List.infix_cons_iff.mp h with hp | hi
      · exact absurd (List.cons_prefix_cons.mp hp).1.symm h13
      · exact Or.inr hi
  | cons x a ih =>
      rcases List.infix_cons_iff.mp h with hp | hi
      · obtain ⟨rfl, hp10⟩ := List.cons_prefix_cons.mp hp
        cases a with
        | nil => exact absurd (List.cons_prefix_cons.mp hp10).1.symm h10
        | cons y a =>
            obtain ⟨rfl, -⟩ := List.cons_prefix_cons.mp hp10
            exact Or.inl ⟨[], a, rfl⟩
      · exact (ih hi).imp_left fun hi => List.infix_cons hi

end Jengine.Lib
