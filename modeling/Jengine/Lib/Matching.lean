import Mathlib.Logic.Function.Basic

/-!
# Matchings

Two tables of pointers that point at each other: `a` has `b` exactly when `b` has `a`.
Two objects without a partner can be linked, and a pair can be separated.
-/

namespace Jengine.Lib

variable {α β : Type}

/-- Each of the tables is the inverse of the other one. -/
def Matched (f : α → Option β) (g : β → Option α) : Prop := ∀ a b, f a = some b ↔ g b = some a

namespace Matched

variable {f : α → Option β} {g : β → Option α} {a a' : α} {b b' : β}

theorem right_unique (h : Matched f g) (hb : f a = some b) (hb' : f a' = some b) : a = a' :=
  Option.some.inj (((h a b).1 hb).symm.trans ((h a' b).1 hb'))

variable [DecidableEq α] [DecidableEq β]

theorem link (h : Matched f g) (ha : f a = none) (hb : g b = none) :
    Matched (Function.update f a (some b)) (Function.update g b (some a)) := by
  intro a' b'
  by_cases haa : a' = a
  · subst haa
    by_cases hbb : b' = b
    · subst hbb
      rw [Function.update_self, Function.update_self]
      simp
    · rw [Function.update_self, Function.update_of_ne hbb, ← h, ha]
      simp [Ne.symm hbb]
  · rw [Function.update_of_ne haa]
    by_cases hbb : b' = b
    · subst hbb
      rw [Function.update_self, h, hb]
      simp [Ne.symm haa]
    · rw [Function.update_of_ne hbb]
      exact h a' b'

theorem unlink (h : Matched f g) (hab : f a = some b) :
    Matched (Function.update f a none) (Function.update g b none) := by
  have hba : g b = some a := (h a b).1 hab
  intro a' b'
  by_cases haa : a' = a
  · subst haa
    rw [Function.update_self]
    by_cases hbb : b' = b
    · subst hbb
      rw [Function.update_self]
      simp
    · rw [Function.update_of_ne hbb, ← h, hab]
      simp [Ne.symm hbb]
  · rw [Function.update_of_ne haa]
    by_cases hbb : b' = b
    · subst hbb
      rw [Function.update_self, h, hba]
      simp [Ne.symm haa]
    · rw [Function.update_of_ne hbb]
      exact h a' b'

end Matched

end Jengine.Lib
