import Jengine.Lib.Tables

/-!
# Replaying edits

A copy of a table is kept up by sending it the edits that were made to the
table.  While edits are on their way the copy is behind; it is right when
replaying what is on its way gives the table.  An insertion keeps the entry
that is there, as `Table.emplace` does.
-/

namespace Jengine.Lib

variable {κ ν : Type} [DecidableEq κ]

/-- A change of one entry. -/
inductive Edit (κ ν : Type) where
  | put (k : κ) (v : ν)
  | del (k : κ)

namespace Edit

def key : Edit κ ν → κ
  | .put k _ => k
  | .del k => k

/-- The effect on what is stored. -/
def apply (f : κ → Option ν) : Edit κ ν → κ → Option ν
  | .put k v => fun k' => if k' = k then some ((f k).getD v) else f k'
  | .del k => fun k' => if k' = k then none else f k'

/-- The effect on a table. -/
def table (t : Table κ ν) : Edit κ ν → Table κ ν
  | .put k v => Table.emplace t k v
  | .del k => t.erase k

theorem lookup_table (t : Table κ ν) (e : Edit κ ν) (k : κ) :
    (e.table t).lookup k = e.apply (fun k => t.lookup k) k := by
  cases e with
  | put k' v => exact Table.lookup_emplace t k' v k
  | del k' => exact Table.lookup_erase_eq t k' k

theorem apply_of_ne {e : Edit κ ν} {k : κ} (h : k ≠ e.key) (f : κ → Option ν) :
    e.apply f k = f k := by
  cases e with
  | put k' v => exact if_neg h
  | del k' => exact if_neg h

end Edit

/-- The effect of edits one after the other. -/
def replay (f : κ → Option ν) (es : List (Edit κ ν)) : κ → Option ν := es.foldl Edit.apply f

theorem replay_nil (f : κ → Option ν) : replay f [] = f := rfl

theorem replay_cons (f : κ → Option ν) (e : Edit κ ν) (es : List (Edit κ ν)) :
    replay f (e :: es) = replay (e.apply f) es := rfl

theorem replay_append (f : κ → Option ν) (es es' : List (Edit κ ν)) :
    replay f (es ++ es') = replay (replay f es) es' := List.foldl_append

/-- New keys are added one after the other. -/
theorem replay_puts {l : List (Sigma fun _ : κ => ν)} (hnodup : l.NodupKeys)
    {f : κ → Option ν} (hnew : ∀ e ∈ l, f e.1 = none) (k : κ) :
    replay f (l.map fun e => .put e.1 e.2) k = (l.dlookup k).or (f k) := by
  induction l generalizing f with
  | nil => rfl
  | cons e l ih =>
    obtain ⟨k', v⟩ := e
    obtain ⟨hnotin, hrest⟩ := List.nodupKeys_cons.mp hnodup
    have hput : Edit.apply f (.put k' v) = fun k => if k = k' then some v else f k := by
      funext k
      simp only [Edit.apply, hnew ⟨k', v⟩ List.mem_cons_self, Option.getD_none]
    have hnew' : ∀ e ∈ l, (fun k => if k = k' then some v else f k) e.1 = none := by
      intro e he
      have hne : e.1 ≠ k' := by
        rintro rfl
        have hkey : e.1 ∈ l.keys := List.mem_keys_of_mem he
        exact hnotin hkey
      show (if e.1 = k' then some v else f e.1) = none
      rw [if_neg hne]
      exact hnew e (List.mem_cons_of_mem _ he)
    rw [List.map_cons, replay_cons, hput, ih hrest hnew']
    by_cases heq : k = k'
    · subst heq
      rw [List.dlookup_cons_eq, List.dlookup_eq_none.mpr hnotin]
      simp
    · rw [List.dlookup_cons_ne _ _ heq, if_neg heq]

/-- Sending all entries makes a copy out of nothing. -/
theorem replay_entries (t : Table κ ν) :
    replay (fun _ => none) (t.entries.map fun e => .put e.1 e.2) = fun k => t.lookup k := by
  funext k
  rw [replay_puts t.nodupKeys (fun _ _ => rfl), Option.or_none]
  rfl

end Jengine.Lib
