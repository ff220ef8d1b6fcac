import Jengine.Cluster.MailboxID
import Mathlib.Data.List.Basic

/-!
# Process names

`is_process_name_match` (`base/cluster/nodemonitor.h`): a process is registered as `x` or
as `x@y`, and is looked for by a pattern of one of four styles, `base`, `base@*`,
`base@node` and `prefix*@node`.

The two indices of the loop are modelled by what is left of the two strings.
-/

namespace Jengine.Cluster

/-- `'@'`. -/
def atSign : UInt8 := 64

/-- `'*'`. -/
def starSign : UInt8 := 42

/-- The loop of `is_process_name_match`, with the flag `star`: what it leaves of the matcher
    and of the name, unless it returns false. -/
def matchLoop (star : Bool) : Name → Name → Option (Name × Name)
  | m :: ms, p :: ps =>
      if star then
        if p = atSign then matchLoop false (m :: ms) (p :: ps)
        else matchLoop true (m :: ms) ps
      else if m = starSign then matchLoop true ms (p :: ps)
      else if m = p then matchLoop false ms ps
      else none
  | ms, ps => some (ms, ps)
termination_by ms ps => 2 * ms.length + ps.length + star.toNat

/-- `is_process_name_match`. -/
def isProcessNameMatch (matcher processName : Name) : Bool :=
  match matchLoop false matcher processName with
  | none => false
  | some (m :: ms, _) => m :: ms == [atSign, starSign]
  | some ([], _ :: _) => matcher.getLast? == some starSign
  | some ([], []) => true

/-! ### The loop -/

theorem matchLoop_nil_left (star : Bool) (ps : Name) : matchLoop star [] ps = some ([], ps) := by
  unfold matchLoop
  rfl

theorem matchLoop_nil_right (star : Bool) (ms : Name) : matchLoop star ms [] = some (ms, []) := by
  unfold matchLoop
  cases ms with
  | nil => rfl
  | cons m ms => rfl

/-- Characters that are the same on both sides are passed over. -/
theorem matchLoop_same {c : UInt8} (h : c ≠ starSign) (ms ps : Name) :
    matchLoop false (c :: ms) (c :: ps) = matchLoop false ms ps := by
  rw [matchLoop, if_neg Bool.false_ne_true, if_neg h, if_pos rfl]

theorem matchLoop_other {m p : UInt8} (h : m ≠ starSign) (hmp : m ≠ p) (ms ps : Name) :
    matchLoop false (m :: ms) (p :: ps) = none := by
  rw [matchLoop, if_neg Bool.false_ne_true, if_neg h, if_neg hmp]

theorem matchLoop_star (ms : Name) (p : UInt8) (ps : Name) :
    matchLoop false (starSign :: ms) (p :: ps) = matchLoop true ms (p :: ps) := by
  rw [matchLoop, if_neg Bool.false_ne_true, if_pos rfl]

/-- After a star the name is passed over up to the next `'@'`. -/
theorem matchLoop_skip {s : Name} (hs : atSign ∉ s) (m : UInt8) (ms ps : Name) :
    matchLoop true (m :: ms) (s ++ ps) = matchLoop true (m :: ms) ps := by
  induction s with
  | nil => rfl
  | cons c s ih =>
      have hc : c ≠ atSign := fun h => hs (h ▸ List.mem_cons_self)
      rw [List.cons_append, matchLoop, if_pos rfl, if_neg hc]
      exact ih fun h => hs (List.mem_cons_of_mem c h)

theorem matchLoop_stop (m : UInt8) (ms ps : Name) :
    matchLoop true (m :: ms) (atSign :: ps) = matchLoop false (m :: ms) (atSign :: ps) := by
  rw [matchLoop, if_pos rfl, if_pos rfl]

/-- How the loop gets on in a literal part of the matcher: it passes over it, it ends in it
    with the name, or it fails. -/
theorem matchLoop_literal_cases {w : Name} (hw : starSign ∉ w) (ms ps : Name) :
    (∃ r, ps = w ++ r ∧ matchLoop false (w ++ ms) ps = matchLoop false ms r) ∨
    (∃ v, v ≠ [] ∧ w = ps ++ v ∧ matchLoop false (w ++ ms) ps = some (v ++ ms, [])) ∨
    (¬w <+: ps ∧ ¬ps <+: w ∧ matchLoop false (w ++ ms) ps = none) := by
  induction w generalizing ps with
  | nil => exact Or.inl ⟨ps, rfl, rfl⟩
  | cons c w ih =>
      have hc : c ≠ starSign := fun h => hw (h ▸ List.mem_cons_self)
      cases ps with
      | nil => exact Or.inr (Or.inl ⟨c :: w, List.cons_ne_nil c w, rfl, matchLoop_nil_right _ _⟩)
      | cons p ps =>
          by_cases hp : c = p
          · subst hp
            rw [List.cons_append, matchLoop_same hc, List.cons_prefix_cons, List.cons_prefix_cons]
            rcases ih (fun h => hw (List.mem_cons_of_mem c h)) ps with
              ⟨r, hr, hrun⟩ | ⟨v, hv, hr, hrun⟩ | ⟨hshort, hlong, hnone⟩
            · exact Or.inl ⟨r, by rw [hr, List.cons_append], hrun⟩
            · exact Or.inr (Or.inl ⟨v, hv, by rw [hr, List.cons_append], hrun⟩)
            · exact Or.inr (Or.inr ⟨fun h => hshort h.2, fun h => hlong h.2, hnone⟩)
          · refine Or.inr (Or.inr ⟨fun h => ?_, fun h => ?_, matchLoop_other hc hp _ _⟩)
            · exact hp (List.cons_prefix_cons.mp h).1
            · exact hp (List.cons_prefix_cons.mp h).1.symm

/-! ### The tail cases -/

theorem isProcessNameMatch_of_none {matcher name : Name}
    (h : matchLoop false matcher name = none) : isProcessNameMatch matcher name = false := by
  unfold isProcessNameMatch
  rw [h]

/-- Something is left of the matcher. -/
theorem isProcessNameMatch_of_rest {matcher name ms ps : Name} (hms : ms ≠ [])
    (h : matchLoop false matcher name = some (ms, ps)) :
    isProcessNameMatch matcher name = true ↔ ms = [atSign, starSign] := by
  obtain ⟨m, ms, rfl⟩ := List.exists_cons_of_ne_nil hms
  unfold isProcessNameMatch
  rw [h]
  exact beq_iff_eq

/-- Something is left of the name only. -/
theorem isProcessNameMatch_of_over {matcher name ps : Name} (hps : ps ≠ [])
    (h : matchLoop false matcher name = some ([], ps)) :
    isProcessNameMatch matcher name = true ↔ matcher.getLast? = some starSign := by
  obtain ⟨p, ps, rfl⟩ := List.exists_cons_of_ne_nil hps
  unfold isProcessNameMatch
  rw [h]
  exact beq_iff_eq

theorem isProcessNameMatch_of_done {matcher name : Name}
    (h : matchLoop false matcher name = some ([], [])) :
    isProcessNameMatch matcher name = true := by
  unfold isProcessNameMatch
  rw [h]

/-! ### The four styles -/

/-- A matcher without a star matches itself only: styles 1 and 3. -/
theorem isProcessNameMatch_literal {w : Name} (hw : starSign ∉ w) (name : Name) :
    isProcessNameMatch w name = true ↔ name = w := by
  have hcases := matchLoop_literal_cases hw [] name
  simp only [List.append_nil, matchLoop_nil_left] at hcases
  rcases hcases with ⟨r, rfl, hrun⟩ | ⟨v, hv, hsplit, hrun⟩ | ⟨hshort, -, hnone⟩
  · rw [List.append_right_eq_self]
    by_cases hr : r = []
    · rw [hr] at hrun ⊢
      exact iff_of_true (isProcessNameMatch_of_done hrun) rfl
    · rw [isProcessNameMatch_of_over hr hrun]
      exact iff_of_false (fun h => hw (List.mem_of_getLast? h)) hr
  · have hstar : v ≠ [atSign, starSign] := fun h => hw (by simp [hsplit, h])
    have hname : name ≠ w := by simpa [hsplit] using hv
    rw [isProcessNameMatch_of_rest hv hrun]
    exact iff_of_false hstar hname
  · rw [isProcessNameMatch_of_none hnone]
    exact iff_of_false Bool.false_ne_true fun h => hshort (h ▸ List.prefix_refl w)

/-- A matcher that ends in `@*`: style 2.  It matches what has something after the `'@'`. -/
theorem isProcessNameMatch_anywhere {w : Name} (hw : starSign ∉ w) (name : Name) :
    isProcessNameMatch (w ++ [atSign, starSign]) name = true ↔
      name = w ∨ ∃ y, y ≠ [] ∧ name = w ++ atSign :: y := by
  have hlit : starSign ∉ w ++ [atSign] := by simpa [hw] using (by decide : starSign ≠ atSign)
  have hmatcher : w ++ [atSign, starSign] = (w ++ [atSign]) ++ [starSign] := by simp
  have hafter : ∀ y, (w ++ [atSign]) ++ y = w ++ atSign :: y := by simp
  rw [hmatcher]
  rcases matchLoop_literal_cases hlit [starSign] name with
    ⟨r, rfl, hrun⟩ | ⟨v, hv, hsplit, hrun⟩ | ⟨hshort, hlong, hnone⟩
  · rw [hafter]
    cases r with
    | nil =>
        rw [matchLoop_nil_right] at hrun
        rw [← hafter, isProcessNameMatch_of_rest (by simp) hrun]
        simp
    | cons c r =>
        rw [matchLoop_star, matchLoop_nil_left, hafter] at hrun
        rw [isProcessNameMatch_of_over (List.cons_ne_nil c r) hrun]
        simp
  · rw [isProcessNameMatch_of_rest (by simp) hrun]
    -- What is left of the matcher is `@*` iff the name has ended before the `'@'`.
    constructor
    · intro hrest
      have hrest : v ++ [starSign] = [atSign] ++ [starSign] := hrest
      have hv1 := List.append_cancel_right hrest
      rw [hv1] at hsplit
      exact Or.inl (List.append_cancel_right hsplit).symm
    · rintro (rfl | ⟨y, -, rfl⟩)
      · rw [← List.append_cancel_left hsplit]
        rfl
      · have hlen := congrArg List.length hsplit
        have hpos := List.length_pos_of_ne_nil hv
        simp only [List.length_append, List.length_cons, List.length_nil] at hlen
        omega
  · rw [isProcessNameMatch_of_none hnone]
    refine iff_of_false Bool.false_ne_true ?_
    rintro (rfl | ⟨y, -, rfl⟩)
    · exact hlong (List.prefix_append _ _)
    · exact hshort ⟨y, hafter y⟩

/-- The result depends on what the loop leaves and on the last character of the matcher. -/
theorem isProcessNameMatch_congr {matcher matcher' name name' : Name}
    (hloop : matchLoop false matcher name = matchLoop false matcher' name')
    (hlast : matcher.getLast? = matcher'.getLast?) :
    isProcessNameMatch matcher name = isProcessNameMatch matcher' name' := by
  unfold isProcessNameMatch
  rw [hloop, hlast]

theorem append_at_inj {w x y z : Name} (hx : atSign ∉ x) (hz : atSign ∉ z)
    (h : w ++ atSign :: y = x ++ atSign :: z) : y = z :=
  ((List.append_cons_inj_of_notMem hx hz).mp h.symm).2.2.symm

/-- A matcher with a star before its `'@'`: style 4. -/
theorem isProcessNameMatch_wildcard {w node : Name} (hw : starSign ∉ w) (hnode : starSign ∉ node)
    (hat : atSign ∉ node) (hne : node ≠ []) (name : Name) :
    isProcessNameMatch (w ++ starSign :: atSign :: node) name = true ↔
      ∃ s, atSign ∉ s ∧ name = w ++ (s ++ atSign :: node) := by
  rcases matchLoop_literal_cases hw (starSign :: atSign :: node) name with
    ⟨r, rfl, hrun⟩ | ⟨v, hv, hsplit, hrun⟩ | ⟨hshort, -, hnone⟩
  · simp only [List.append_cancel_left_eq]
    cases r with
    | nil =>
        rw [matchLoop_nil_right] at hrun
        rw [isProcessNameMatch_of_rest (List.cons_ne_nil _ _) hrun]
        simp [starSign, atSign]
    | cons c r =>
        rw [matchLoop_star] at hrun
        by_cases hmem : atSign ∈ c :: r
        · obtain ⟨s, t, hr, hs⟩ := List.eq_append_cons_of_mem hmem
          rw [hr] at hrun ⊢
          rw [matchLoop_skip hs, matchLoop_stop, matchLoop_same (by decide)] at hrun
          have hlast : (w ++ starSign :: atSign :: node).getLast? = node.getLast? := by
            obtain ⟨m, ms, rfl⟩ := List.exists_cons_of_ne_nil hne
            rw [List.getLast?_append_of_ne_nil _ (List.cons_ne_nil _ _), List.getLast?_cons_cons,
              List.getLast?_cons_cons]
          rw [isProcessNameMatch_congr hrun hlast, isProcessNameMatch_literal hnode]
          constructor
          · rintro rfl
            exact ⟨s, hs, rfl⟩
          · rintro ⟨s', hs', heq⟩
            exact append_at_inj hs' hat heq
        · have hskip := matchLoop_skip hmem atSign node []
          rw [List.append_nil, matchLoop_nil_right] at hskip
          rw [hskip] at hrun
          rw [isProcessNameMatch_of_rest (List.cons_ne_nil _ _) hrun]
          refine iff_of_false ?_ ?_
          · intro hrest
            exact hnode (by simp [(List.cons_eq_cons.mp hrest).2])
          · rintro ⟨s, -, heq⟩
            exact hmem (by simp [heq])
  · have hlen := congrArg List.length hsplit
    have hpos := List.length_pos_of_ne_nil hv
    rw [isProcessNameMatch_of_rest (by simp) hrun]
    refine iff_of_false ?_ ?_
    · intro hrest
      have hlen' := congrArg List.length hrest
      simp only [List.length_append, List.length_cons, List.length_nil] at hlen'
      omega
    · rintro ⟨s, -, rfl⟩
      simp only [List.length_append, List.length_cons] at hlen
      omega
  · rw [isProcessNameMatch_of_none hnone]
    refine iff_of_false Bool.false_ne_true ?_
    rintro ⟨s, -, rfl⟩
    exact hshort (List.prefix_append _ _)

/-! ### Names of processes -/

/-- A part of a name or of a matcher. -/
def IsWord (w : Name) : Prop := w ≠ [] ∧ atSign ∉ w

/-- `x` or `x@y`. -/
def IsProcessName (name : Name) : Prop :=
  ∃ x, IsWord x ∧ (name = x ∨ ∃ y, IsWord y ∧ name = x ++ atSign :: y)

/-- There is something after the `'@'` of a process name. -/
theorem IsProcessName.ne_nil {w y : Name} (h : IsProcessName (w ++ atSign :: y)) : y ≠ [] := by
  obtain ⟨x, hx, hname | ⟨z, hz, hname⟩⟩ := h
  · exact absurd (hname ▸ List.mem_append_right w List.mem_cons_self) hx.2
  · rw [append_at_inj hx.2 hz.2 hname]
    exact hz.1

/-- **The four styles.**  What a matcher of each style matches among the process names. -/
theorem isProcessNameMatch_styles (base node pre name : Name) (hbase : starSign ∉ base)
    (hnode : IsWord node) (hstarNode : starSign ∉ node) (hpre : starSign ∉ pre)
    (hname : IsProcessName name) :
    (isProcessNameMatch base name = true ↔ name = base) ∧
    (isProcessNameMatch (base ++ [atSign, starSign]) name = true ↔
      name = base ∨ ∃ y, name = base ++ atSign :: y) ∧
    (isProcessNameMatch (base ++ atSign :: node) name = true ↔ name = base ++ atSign :: node) ∧
    (isProcessNameMatch (pre ++ starSign :: atSign :: node) name = true ↔
      ∃ s, atSign ∉ s ∧ name = pre ++ (s ++ atSign :: node)) := by
  refine ⟨isProcessNameMatch_literal hbase name, ?_, ?_, ?_⟩
  · rw [isProcessNameMatch_anywhere hbase]
    constructor
    · rintro (rfl | ⟨y, -, rfl⟩)
      · exact Or.inl rfl
      · exact Or.inr ⟨y, rfl⟩
    · rintro (rfl | ⟨y, rfl⟩)
      · exact Or.inl rfl
      · exact Or.inr ⟨y, hname.ne_nil, rfl⟩
  · apply isProcessNameMatch_literal
    simpa [hbase, hstarNode] using (by decide : starSign ≠ atSign)
  · exact isProcessNameMatch_wildcard hpre hstarNode hnode.2 hnode.1 name

/-- `a`, `a@*`, `a@b` and `a*@b` against `ac@b`. -/
theorem isProcessNameMatch_styles_acb :
    (isProcessNameMatch [97] [97, 99, 64, 98] = true ↔ ([97, 99, 64, 98] : Name) = [97]) ∧
    (isProcessNameMatch ([97] ++ [atSign, starSign]) [97, 99, 64, 98] = true ↔
      ([97, 99, 64, 98] : Name) = [97] ∨ ∃ y, ([97, 99, 64, 98] : Name) = [97] ++ atSign :: y) ∧
    (isProcessNameMatch ([97] ++ atSign :: [98]) [97, 99, 64, 98] = true ↔
      ([97, 99, 64, 98] : Name) = [97] ++ atSign :: [98]) ∧
    (isProcessNameMatch ([97] ++ starSign :: atSign :: [98]) [97, 99, 64, 98] = true ↔
      ∃ s, atSign ∉ s ∧ ([97, 99, 64, 98] : Name) = [97] ++ (s ++ atSign :: [98])) :=
  isProcessNameMatch_styles [97] [98] [97] [97, 99, 64, 98] (by decide)
    ⟨by decide, by decide⟩ (by decide) (by decide)
    ⟨[97, 99], ⟨by decide, by decide⟩, Or.inr ⟨[98], ⟨by decide, by decide⟩, rfl⟩⟩

end Jengine.Cluster
