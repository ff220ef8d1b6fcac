import Jengine.Cluster.ProcessName
import Mathlib.Algebra.Ring.Nat

/-!
# The indices of the matching of process names

`is_process_name_match` (`base/cluster/nodemonitor.h`) once more, with the indices `m` and `p` of
its loop, where `Jengine.Cluster.ProcessName` has what is left of the two strings.  Every
character that is read is looked up in its string.

The last character of the matcher is at `length() - 1`, which as a `size_t` is the greatest
number of all where the matcher is empty.
-/

namespace Jengine.Cluster.NameIndices

/-- How a call ends that does not return. -/
inductive Stop where
  /-- An index that is not smaller than the length of its string. -/
  | outOfRange
  /-- The loop still runs when its fuel is used up. -/
  | running
deriving DecidableEq, Repr

/-- `s[i]`. -/
def charAt (s : Name) (i : Nat) : Except Stop UInt8 :=
  match s[i]? with
  | some c => .ok c
  | none => .error .outOfRange

/-- `length() - 1`. -/
def lastIndex (length : Nat) : Nat := (length + (2 ^ 64 - 1)) % 2 ^ 64

section Model

variable (matcher processName : Name)

/-- The loop: the indices it ends with, unless it returns false. -/
def matchLoopAt : Nat → Nat → Nat → Bool → Except Stop (Option (Nat × Nat))
  | 0, _, _, _ => .error .running
  | fuel + 1, m, p, star =>
      if m < matcher.length ∧ p < processName.length then
        if star then do
          let c ← charAt processName p
          if c = atSign then matchLoopAt fuel m p false
          else matchLoopAt fuel m (p + 1) star
        else do
          let c ← charAt matcher m
          if c = starSign then matchLoopAt fuel (m + 1) p true
          else do
            let a ← charAt matcher m
            let b ← charAt processName p
            if a = b then matchLoopAt fuel (m + 1) (p + 1) star
            else .ok none
      else .ok (some (m, p))

/-- What follows the loop. -/
def tailAt (m p : Nat) : Except Stop Bool :=
  if m < matcher.length then
    let rest := matcher.length - m
    if rest = 2 then do
      let a ← charAt matcher m
      if a = atSign then do
        let b ← charAt matcher (m + 1)
        .ok (b == starSign)
      else .ok false
    else .ok false
  else if p < processName.length then do
    let c ← charAt matcher (lastIndex matcher.length)
    .ok (c == starSign)
  else .ok true

/-- `is_process_name_match`. -/
def isProcessNameMatchAt (fuel : Nat) : Except Stop Bool := do
  match ← matchLoopAt matcher processName fuel 0 0 false with
  | none => .ok false
  | some (m, p) => tailAt matcher processName m p

/-- The call returns, and every index is smaller than the length of the string it is used on. -/
def Safe : Prop := ∃ fuel b, isProcessNameMatchAt matcher processName fuel = .ok b

end Model

variable {matcher processName : Name}

theorem charAt_of_lt {s : Name} {i : Nat} (h : i < s.length) : charAt s i = .ok s[i] := by
  rw [charAt, List.getElem?_eq_getElem h]

theorem ok_bind {α β : Type} (a : α) (f : α → Except Stop β) : (Except.ok a >>= f) = f a := rfl

/-- The last index is one of the string, unless the string is empty. -/
theorem lastIndex_lt {n : Nat} (h : 0 < n) : lastIndex n < n := by
  unfold lastIndex
  omega

theorem lastIndex_eq {n : Nat} (hpos : 0 < n) (hlt : n < 2 ^ 64) : lastIndex n = n - 1 := by
  unfold lastIndex
  omega

/-- **The loop.**  It ends, all its indices are in range, and what it leaves of the two strings
    is what the loop over the strings themselves leaves. -/
theorem matchLoopAt_spec (matcher processName : Name) (fuel : Nat) :
    ∀ (m p : Nat) (star : Bool),
      2 * (matcher.length - m) + (processName.length - p) + star.toNat < fuel →
      ∃ r, matchLoopAt matcher processName fuel m p star = .ok r ∧
        matchLoop star (matcher.drop m) (processName.drop p) =
          r.map fun e => (matcher.drop e.1, processName.drop e.2) := by
  induction fuel with
  | zero => exact fun m p star h => absurd h (Nat.not_lt_zero _)
  | succ fuel ih =>
      intro m p star hfuel
      by_cases hin : m < matcher.length ∧ p < processName.length
      · obtain ⟨hm, hp⟩ := hin
        have hmatcher := List.drop_eq_getElem_cons hm
        have hname := List.drop_eq_getElem_cons hp
        rw [matchLoopAt, if_pos ⟨hm, hp⟩, charAt_of_lt hm, charAt_of_lt hp, hmatcher, hname]
        cases star with
        | true =>
            rw [Bool.toNat_true] at hfuel
            rw [if_pos rfl, ok_bind, matchLoop, if_pos rfl]
            split
            · obtain ⟨r, hrun, hspec⟩ := ih m p false (by rw [Bool.toNat_false]; omega)
              refine ⟨r, hrun, ?_⟩
              rw [← hspec, hmatcher, hname]
            · obtain ⟨r, hrun, hspec⟩ := ih m (p + 1) true (by rw [Bool.toNat_true]; omega)
              refine ⟨r, hrun, ?_⟩
              rw [← hspec, hmatcher]
        | false =>
            rw [Bool.toNat_false] at hfuel
            rw [if_neg Bool.false_ne_true, ok_bind, matchLoop, if_neg Bool.false_ne_true]
            split
            · obtain ⟨r, hrun, hspec⟩ := ih (m + 1) p true (by rw [Bool.toNat_true]; omega)
              refine ⟨r, hrun, ?_⟩
              rw [← hspec, hname]
            · rw [ok_bind, ok_bind]
              split
              · exact ih (m + 1) (p + 1) false (by rw [Bool.toNat_false]; omega)
              · exact ⟨none, rfl, rfl⟩
      · refine ⟨some (m, p), by rw [matchLoopAt, if_neg hin], ?_⟩
        by_cases hm : m < matcher.length
        · have hp : processName.drop p = [] :=
            List.drop_eq_nil_of_le (Nat.le_of_not_lt fun hp => hin ⟨hm, hp⟩)
          rw [hp, matchLoop_nil_right, Option.map_some, hp]
        · have hm : matcher.drop m = [] := List.drop_eq_nil_of_le (Nat.le_of_not_lt hm)
          rw [hm, matchLoop_nil_left, Option.map_some, hm]

/-- Something is left of the matcher: it is compared to `@*`. -/
theorem tailAt_rest (processName : Name) {m : Nat} (p : Nat) (hm : m < matcher.length) :
    ∃ b, tailAt matcher processName m p = .ok b ∧
      (b = true ↔ matcher.drop m = [atSign, starSign]) := by
  rw [tailAt, if_pos hm]
  dsimp only
  split
  · rename_i hrest
    have hm' : m + 1 < matcher.length := by omega
    have hdrop : matcher.drop m = [matcher[m], matcher[m + 1]] := by
      rw [List.drop_eq_getElem_cons hm, List.drop_eq_getElem_cons hm',
        List.drop_eq_nil_of_le (by omega)]
    rw [charAt_of_lt hm, charAt_of_lt hm', ok_bind, hdrop]
    split
    · rename_i hat
      refine ⟨_, rfl, ?_⟩
      rw [beq_iff_eq, hat, List.cons.injEq, List.cons.injEq]
      exact ⟨fun h => ⟨rfl, h, rfl⟩, fun h => h.2.1⟩
    · rename_i hat
      refine ⟨_, rfl, iff_of_false Bool.false_ne_true ?_⟩
      exact fun h => hat (List.cons.inj h).1
  · rename_i hrest
    refine ⟨_, rfl, iff_of_false Bool.false_ne_true fun h => hrest ?_⟩
    rw [← List.length_drop, h]
    rfl

/-- Something is left of the name only: the last character of the matcher is read. -/
theorem tailAt_over {m p : Nat} (hm : matcher.length ≤ m) (hp : p < processName.length)
    (hne : matcher ≠ []) :
    ∃ b, tailAt matcher processName m p = .ok b ∧
      (matcher.length < 2 ^ 64 → (b = true ↔ matcher.getLast? = some starSign)) := by
  have hpos : 0 < matcher.length := List.length_pos_of_ne_nil hne
  have hlast := lastIndex_lt hpos
  rw [tailAt, if_neg (Nat.not_lt.mpr hm), if_pos hp, charAt_of_lt hlast, ok_bind]
  refine ⟨_, rfl, fun hlt => ?_⟩
  rw [List.getLast?_eq_getElem?, ← lastIndex_eq hpos hlt, List.getElem?_eq_getElem hlast,
    beq_iff_eq, Option.some.injEq]

/-- **The indices are right.**  Unless the matcher is empty and the name is not, the call returns
    with every index in range, and what it returns is the match. -/
theorem isProcessNameMatchAt_spec (h : matcher ≠ [] ∨ processName = []) :
    ∃ fuel b, isProcessNameMatchAt matcher processName fuel = .ok b ∧
      (matcher.length < 2 ^ 64 → b = isProcessNameMatch matcher processName) := by
  obtain ⟨r, hrun, hloop⟩ := matchLoopAt_spec matcher processName
    (2 * matcher.length + processName.length + 1) 0 0 false (by rw [Bool.toNat_false]; omega)
  rw [List.drop_zero, List.drop_zero] at hloop
  refine ⟨2 * matcher.length + processName.length + 1, ?_⟩
  rw [isProcessNameMatchAt, hrun, ok_bind]
  match r, hloop with
  | none, hloop => exact ⟨false, rfl, fun _ => (isProcessNameMatch_of_none hloop).symm⟩
  | some (m, p), hloop =>
      rw [Option.map_some] at hloop
      by_cases hm : m < matcher.length
      · have hms : matcher.drop m ≠ [] := by
          rw [List.drop_eq_getElem_cons hm]
          exact List.cons_ne_nil _ _
        obtain ⟨b, htail, hb⟩ := tailAt_rest processName p hm
        refine ⟨b, htail, fun _ => Bool.eq_iff_iff.mpr ?_⟩
        rw [hb, isProcessNameMatch_of_rest hms hloop]
      · have hms : matcher.drop m = [] := List.drop_eq_nil_of_le (Nat.le_of_not_lt hm)
        rw [hms] at hloop
        by_cases hp : p < processName.length
        · have hps : processName.drop p ≠ [] := by
            rw [List.drop_eq_getElem_cons hp]
            exact List.cons_ne_nil _ _
          have hne : matcher ≠ [] := h.resolve_right fun hnil => by
            rw [hnil] at hp
            exact absurd hp (Nat.not_lt_zero p)
          obtain ⟨b, htail, hb⟩ := tailAt_over (Nat.le_of_not_lt hm) hp hne
          refine ⟨b, htail, fun hlt => Bool.eq_iff_iff.mpr ?_⟩
          rw [hb hlt, isProcessNameMatch_of_over hps hloop]
        · have hps : processName.drop p = [] := List.drop_eq_nil_of_le (Nat.le_of_not_lt hp)
          rw [hps] at hloop
          refine ⟨true, ?_, fun _ => (isProcessNameMatch_of_done hloop).symm⟩
          show tailAt matcher processName m p = .ok true
          rw [tailAt, if_neg hm, if_neg hp]

/-- With an empty matcher the character before its first one is read. -/
theorem isProcessNameMatchAt_empty (hne : processName ≠ []) (fuel : Nat) (b : Bool) :
    isProcessNameMatchAt [] processName fuel ≠ .ok b := by
  have hpos : 0 < processName.length := List.length_pos_of_ne_nil hne
  cases fuel with
  | zero =>
      intro h
      cases h
  | succ fuel =>
      have hloop : matchLoopAt [] processName (fuel + 1) 0 0 false = .ok (some (0, 0)) := by
        rw [matchLoopAt, if_neg fun h => Nat.not_lt_zero 0 h.1]
      have htail : tailAt [] processName 0 0 = .error .outOfRange := by
        rw [tailAt, List.length_nil, if_neg (Nat.lt_irrefl 0), if_pos hpos]
        rfl
      rw [isProcessNameMatchAt, hloop, ok_bind]
      show tailAt [] processName 0 0 ≠ .ok b
      rw [htail]
      intro h
      cases h

/-- **Indices in range.**  The call returns and no index is too large, unless the matcher is
    empty and the name is not. -/
theorem safe_iff (matcher processName : Name) :
    Safe matcher processName ↔ matcher ≠ [] ∨ processName = [] := by
  constructor
  · rintro ⟨fuel, b, hrun⟩
    by_contra hnot
    rw [not_or, not_not] at hnot
    obtain ⟨rfl, hne⟩ := hnot
    exact isProcessNameMatchAt_empty hne fuel b hrun
  · intro h
    obtain ⟨fuel, b, hrun, -⟩ := isProcessNameMatchAt_spec h
    exact ⟨fuel, b, hrun⟩

/-- The empty matcher, and the name `a`. -/
theorem not_safe_empty : ¬ Safe [] [97] := by
  rintro ⟨fuel, b, hrun⟩
  exact isProcessNameMatchAt_empty (List.cons_ne_nil _ _) fuel b hrun

end Jengine.Cluster.NameIndices
