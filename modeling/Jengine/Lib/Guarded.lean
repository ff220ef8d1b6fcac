import Mathlib.Data.List.Basic

/-!
# Computations that fail outside a condition

A computation with a state may fail, for want of a resource say.  `Returns` says what it
returns and where it gets, and exactly when it does.  The conditions of the parts of a
computation add up: those of a sequence are conjoined, and a loop needs the condition of
each of its rounds.
-/

namespace Jengine.Lib

variable {σ α β ι : Type}

/-- From `s`, `op` returns `a` and gets to `s'` if `P`, and fails otherwise. -/
structure Returns (op : StateT σ Option α) (s : σ) (P : Prop) (a : α) (s' : σ) : Prop where
  ok : P → op s = some (a, s')
  fails : ¬P → op s = none

namespace Returns

variable {op : StateT σ Option α} {s s' : σ} {a : α} {P Q : Prop}

theorem always (h : op s = some (a, s')) : Returns op s True a s' where
  ok _ := h
  fails hP := absurd trivial hP

theorem congr (h : Returns op s P a s') (hiff : P ↔ Q) : Returns op s Q a s' where
  ok hQ := h.ok (hiff.mpr hQ)
  fails hQ := h.fails fun hP => hQ (hiff.mp hP)

/-- The condition is that of what is left to do. -/
theorem of_eq {op' : StateT σ Option α} {s1 : σ} (heq : op s = op' s1) (h : Returns op' s1 P a s') :
    Returns op s P a s' where
  ok hP := heq.trans (h.ok hP)
  fails hP := heq.trans (h.fails hP)

/-- It succeeds only if the condition holds, and then with that result. -/
theorem of_some (h : Returns op s P a s') {r : α × σ} (hr : op s = some r) : P ∧ r = (a, s') := by
  by_cases hP : P
  · rw [h.ok hP, Option.some.injEq] at hr
    exact ⟨hP, hr.symm⟩
  · rw [h.fails hP] at hr
    cases hr

theorem bind {f : α → StateT σ Option β} {s1 s2 : σ} {b : β} (h : Returns op s P a s1)
    (hf : Returns (f a) s1 Q b s2) : Returns (op >>= f) s (P ∧ Q) b s2 := by
  have hrun : (op >>= f) s = (op s).bind fun p => f p.1 p.2 := rfl
  constructor
  · rintro ⟨hP, hQ⟩
    rw [hrun, h.ok hP, Option.bind_some]
    exact hf.ok hQ
  · intro hPQ
    by_cases hP : P
    · rw [hrun, h.ok hP, Option.bind_some]
      exact hf.fails fun hQ => hPQ ⟨hP, hQ⟩
    · rw [hrun, h.fails hP, Option.bind_none]

/-- A first step that never fails adds no condition. -/
theorem step {f : α → StateT σ Option β} {s1 s2 : σ} {b : β} (h : op s = some (a, s1))
    (hf : Returns (f a) s1 Q b s2) : Returns (op >>= f) s Q b s2 :=
  ((always h).bind hf).congr (by rw [true_and])

/-- Nor does a last one. -/
theorem last {f : α → StateT σ Option β} {s1 s2 : σ} {b : β} (h : Returns op s P a s1)
    (hf : f a s1 = some (b, s2)) : Returns (op >>= f) s P b s2 :=
  (h.bind (always hf)).congr (by rw [and_true])

end Returns

/-! ### Loops -/

/-- A loop over a list.  `S` is the state when some items are done and others are not. -/
theorem Returns.forM {f : ι → StateT σ Option Unit} {P : ι → Prop} {S : List ι → List ι → σ}
    (is : List ι)
    (hbody : ∀ done i rest, is = done ++ i :: rest →
      Returns (f i) (S done (i :: rest)) (P i) () (S (done ++ [i]) rest)) :
    Returns (is.forM f) (S [] is) (∀ i ∈ is, P i) () (S is []) := by
  have hfrom : ∀ rest done, is = done ++ rest →
      Returns (rest.forM f) (S done rest) (∀ i ∈ rest, P i) () (S is []) := by
    intro rest
    induction rest with
    | nil =>
        intro done hsplit
        rw [hsplit, List.append_nil]
        have hdone : (pure () : StateT σ Option Unit) (S done []) = some ((), S done []) := rfl
        apply (always hdone).congr
        simp
    | cons i rest ih =>
        intro done hsplit
        have htail := ih (done ++ [i]) (by rw [hsplit, List.append_assoc, List.singleton_append])
        apply ((hbody done i rest hsplit).bind htail).congr
        rw [List.forall_mem_cons]
  exact hfrom is [] rfl

/-- A loop that ignores its items only counts them. -/
theorem forM_const {is : List ι} {js : List α} (op : StateT σ Option Unit)
    (h : is.length = js.length) : (is.forM fun _ => op) = js.forM fun _ => op := by
  induction is generalizing js with
  | nil =>
      rw [List.eq_nil_of_length_eq_zero h.symm]
      rfl
  | cons i is ih =>
      obtain ⟨j, js, rfl⟩ := List.exists_cons_of_length_eq_add_one h.symm
      show (op >>= fun _ => is.forM fun _ => op) = (op >>= fun _ => js.forM fun _ => op)
      rw [ih (Nat.succ.inj h)]

/-- `while (c) f`, for at most so many rounds. -/
def whileM (c : StateT σ Option Bool) (f : α → StateT σ Option α) :
    Nat → α → StateT σ Option α
  | 0, _ => failure
  | fuel + 1, a => do
      if ← c then
        whileM c f fuel (← f a)
      else return a

/-- A loop whose condition takes one item after the other. -/
theorem Returns.whileM {c : StateT σ Option Bool} {f : α → StateT σ Option α}
    {P Q : ι → Prop} {S : List ι → σ} {M : List ι → ι → σ} {A : List ι → α} {fin : σ}
    (is : List ι)
    (hcond : ∀ done i rest, is = done ++ i :: rest →
      Returns c (S done) (P i) true (M done i))
    (hbody : ∀ done i rest, is = done ++ i :: rest →
      Returns (f (A done)) (M done i) (Q i) (A (done ++ [i])) (S (done ++ [i])))
    (hend : c (S is) = some (false, fin)) {fuel : Nat} (hfuel : is.length < fuel) :
    Returns (whileM c f fuel (A [])) (S []) (∀ i ∈ is, P i ∧ Q i) (A is) fin := by
  have hfrom : ∀ rest done, is = done ++ rest → ∀ fuel, rest.length < fuel →
      Returns (Lib.whileM c f fuel (A done)) (S done) (∀ i ∈ rest, P i ∧ Q i) (A is)
        fin := by
    intro rest
    induction rest with
    | nil =>
        intro done hsplit fuel hfuel
        obtain ⟨fuel, rfl⟩ := Nat.exists_eq_succ_of_ne_zero (Nat.ne_of_gt hfuel)
        rw [List.append_nil] at hsplit
        rw [← hsplit]
        let round (more : Bool) : StateT σ Option α :=
          if more then f (A is) >>= Lib.whileM c f fuel else return A is
        apply (step (f := round) hend (always rfl)).congr
        simp
    | cons i rest ih =>
        intro done hsplit fuel hfuel
        obtain ⟨fuel, rfl⟩ := Nat.exists_eq_succ_of_ne_zero (Nat.ne_zero_of_lt hfuel)
        have htail := ih (done ++ [i]) (by rw [hsplit, List.append_assoc, List.singleton_append])
          fuel (Nat.lt_of_succ_lt_succ hfuel)
        have hround := (hbody done i rest hsplit).bind htail
        let round (more : Bool) : StateT σ Option α :=
          if more then f (A done) >>= Lib.whileM c f fuel else return A done
        apply ((hcond done i rest hsplit).bind (f := round) hround).congr
        rw [List.forall_mem_cons, and_assoc]
  exact hfrom is [] rfl fuel hfuel

end Jengine.Lib
