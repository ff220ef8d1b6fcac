import Mathlib.Data.List.Basic

/-!
# Runs of a machine

A machine is a step function on states; everything the environment decides is
part of the action.  `run` takes the actions of a run one after the other, and
`Along P` says that every action is taken in a state where `P` allows it.  The
invariant rule derives what holds after a whole run from what one step keeps.
-/

namespace Jengine.Lib

variable {S A : Type} (step : S → A → S)

/-- The state after a sequence of actions. -/
def run (s : S) (as : List A) : S := as.foldl step s

@[simp] theorem run_nil (s : S) : run step s [] = s := rfl

@[simp] theorem run_cons (s : S) (a : A) (as : List A) :
    run step s (a :: as) = run step (step s a) as := rfl

theorem run_append (s : S) (as bs : List A) :
    run step s (as ++ bs) = run step (run step s as) bs := List.foldl_append

/-- Every action of the run is taken in a state that `P` allows it in. -/
def Along (P : S → A → Prop) : S → List A → Prop
  | _, [] => True
  | s, a :: as => P s a ∧ Along P (step s a) as

instance decidableAlong (P : S → A → Prop) [∀ s a, Decidable (P s a)] :
    ∀ s as, Decidable (Along step P s as)
  | _, [] => isTrue trivial
  | s, a :: as =>
      have := decidableAlong P (step s a) as
      inferInstanceAs (Decidable (P s a ∧ Along step P (step s a) as))

variable {step} {P : S → A → Prop}

theorem along_append {s : S} {as bs : List A} :
    Along step P s (as ++ bs) ↔ Along step P s as ∧ Along step P (run step s as) bs := by
  induction as generalizing s with
  | nil => simp [Along]
  | cons a as ih => simp only [List.cons_append, Along, ih, run_cons, and_assoc]

theorem along_and {Q : S → A → Prop} {s : S} {as : List A} :
    Along step (fun s a => P s a ∧ Q s a) s as ↔ Along step P s as ∧ Along step Q s as := by
  induction as generalizing s with
  | nil => simp [Along]
  | cons a as ih =>
      simp only [Along, ih]
      exact and_and_and_comm

/-- **The invariant rule.** -/
theorem run_invariant {I : S → Prop} (hstep : ∀ s a, I s → P s a → I (step s a)) {s : S}
    {as : List A} (hs : I s) (has : Along step P s as) : I (run step s as) := by
  induction as generalizing s with
  | nil => exact hs
  | cons a as ih => exact ih (hstep s a hs has.1) has.2

/-- What every step keeps holds after every run. -/
theorem run_keeps {I : S → Prop} (hstep : ∀ s a, I s → I (step s a)) {s : S} (hs : I s)
    (as : List A) : I (run step s as) := by
  induction as generalizing s with
  | nil => exact hs
  | cons a as ih => exact ih (hstep s a hs)

/-- **The simulation rule.**  A relation that every step of two machines keeps holds after
    every run. -/
theorem run_related {T : Type} {other : T → A → T} {R : S → T → Prop}
    (hstep : ∀ s t a, R s t → P s a → R (step s a) (other t a)) {s : S} {t : T} {as : List A}
    (hst : R s t) (has : Along step P s as) : R (run step s as) (run other t as) := by
  induction as generalizing s t with
  | nil => exact hst
  | cons a as ih => exact ih (hstep s t a hst has.1) has.2

/-- **The exchange rule.**  Two conditions that agree wherever the invariant holds are met
    along the same runs. -/
theorem along_congr {Q : S → A → Prop} {I : S → Prop}
    (hiff : ∀ s a, I s → (P s a ↔ Q s a)) (hstep : ∀ s a, I s → P s a → I (step s a)) {s : S}
    (hs : I s) (as : List A) : Along step P s as ↔ Along step Q s as := by
  induction as generalizing s with
  | nil => exact Iff.rfl
  | cons a as ih =>
      simp only [Along, ← hiff s a hs]
      exact and_congr_right fun hp => ih (hstep s a hs hp)

/-- **The breaking rule.**  Where every step that is not allowed breaks something for good, all
    steps of a run that ends unbroken are allowed. -/
theorem along_of_unbroken {I B : S → Prop} (hstep : ∀ s a, I s → P s a → I (step s a))
    (hbreak : ∀ s a, I s → ¬P s a → B (step s a)) (hstay : ∀ s a, B s → B (step s a)) {s : S}
    (hs : I s) (as : List A) (hend : ¬B (run step s as)) : Along step P s as := by
  induction as generalizing s with
  | nil => exact trivial
  | cons a as ih =>
      have hp : P s a := by
        by_contra hp
        exact hend (run_keeps hstay (hbreak s a hs hp) as)
      exact ⟨hp, ih (hstep s a hs hp) hend⟩

/-- A run is right at its end iff all its steps are allowed. -/
theorem run_iff_along {I Q B : S → Prop} (hstep : ∀ s a, I s → P s a → I (step s a))
    (hright : ∀ s, I s → Q s) (hbreak : ∀ s a, I s → ¬P s a → B (step s a))
    (hstay : ∀ s a, B s → B (step s a)) (hwrong : ∀ s, B s → ¬Q s) {s : S} (hs : I s)
    (as : List A) : Q (run step s as) ↔ Along step P s as := by
  constructor
  · exact fun hq => along_of_unbroken hstep hbreak hstay hs as fun hb => hwrong _ hb hq
  · exact fun has => hright _ (run_invariant hstep hs has)

end Jengine.Lib
