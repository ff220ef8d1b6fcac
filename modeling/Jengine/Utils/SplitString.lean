import Mathlib.Data.List.Basic

/-!
# Splitting a string

`split_string` (`base/utils/string.h`) cuts a string at a separator.  Its loop goes on while
there are characters left, so a separator at the end is the last thing it sees: the field behind
it, which is empty, is never cut off, and neither is the one field of the empty string.
-/

namespace Jengine.Utils.SplitString

/-- `str.find(separator, pos)`. -/
def find (str : List UInt8) (separator : UInt8) (pos : Nat) : Option Nat :=
  ((str.drop pos).findIdx? (· == separator)).map (pos + ·)

/-- `str.substr(pos, n)`. -/
def substr (str : List UInt8) (pos n : Nat) : List UInt8 := (str.drop pos).take n

theorem le_of_find {str : List UInt8} {separator : UInt8} {pos tag : Nat}
    (h : find str separator pos = some tag) : pos ≤ tag := by
  obtain ⟨i, -, rfl⟩ := Option.map_eq_some_iff.mp h
  exact Nat.le_add_right pos i

/-- `list.push_back(temp)`, unless empty fields are trimmed and this is one. -/
def push (trimEmpty : Bool) (list : List (List UInt8)) (temp : List UInt8) :
    List (List UInt8) :=
  if !trimEmpty || !temp.isEmpty then list ++ [temp] else list

/-- The loop of `split_string`, from a position on. -/
def splitLoop (str : List UInt8) (separator : UInt8) (trimEmpty : Bool) (pos : Nat)
    (list : List (List UInt8)) : List (List UInt8) :=
  if pos < str.length then
    match _htag : find str separator pos with
    | some tag =>
        let temp := substr str pos (tag - pos)
        splitLoop str separator trimEmpty (tag + 1) (push trimEmpty list temp)
    | none => push trimEmpty list (str.drop pos)
  else list
termination_by str.length - pos
decreasing_by
  have hle := le_of_find _htag
  omega

/-- `split_string`. -/
def splitString (str : List UInt8) (separator : UInt8) (trimEmpty : Bool) : List (List UInt8) :=
  splitLoop str separator trimEmpty 0 []

/-- All the fields, one more than there are separators, which joined give the string; and those
    of them that are not empty. -/
def Right (str : List UInt8) (separator : UInt8) : Prop :=
  splitString str separator false = str.splitOn separator ∧
    (splitString str separator false).length = str.count separator + 1 ∧
    [separator].intercalate (splitString str separator false) = str ∧
    splitString str separator true = (str.splitOn separator).filter fun f => !f.isEmpty

/-! ### What the loop finds -/

/-- The separator that is found is the first one. -/
theorem split_of_find {str : List UInt8} {separator : UInt8} {pos tag : Nat}
    (h : find str separator pos = some tag) :
    separator ∉ substr str pos (tag - pos) ∧
      str.drop pos = substr str pos (tag - pos) ++ separator :: str.drop (tag + 1) := by
  obtain ⟨i, hi, rfl⟩ := Option.map_eq_some_iff.mp h
  obtain ⟨hlt, hat, hbefore⟩ := List.findIdx?_eq_some_iff_getElem.mp hi
  rw [substr, Nat.add_sub_cancel_left]
  constructor
  · intro hmem
    obtain ⟨j, hj, hget⟩ := List.getElem_of_mem hmem
    rw [List.length_take] at hj
    rw [List.getElem_take] at hget
    exact hbefore j (by omega) (beq_iff_eq.mpr hget)
  · have hdrop : str.drop (pos + i + 1) = (str.drop pos).drop (i + 1) := by
      rw [List.drop_drop, Nat.add_assoc]
    rw [hdrop, ← beq_iff_eq.mp hat, ← List.drop_eq_getElem_cons hlt, List.take_append_drop]

theorem not_mem_of_find {str : List UInt8} {separator : UInt8} {pos : Nat}
    (h : find str separator pos = none) : separator ∉ str.drop pos := by
  intro hmem
  have hnone := List.findIdx?_eq_none_iff.mp (Option.map_eq_none_iff.mp h) separator hmem
  exact absurd (beq_self_eq_true separator) (by rw [hnone]; exact Bool.false_ne_true)

/-! ### The fields -/

/-- The fields that are pushed. -/
def kept (trimEmpty : Bool) (fields : List (List UInt8)) : List (List UInt8) :=
  fields.filter fun f => !trimEmpty || !f.isEmpty

/-- The field that is missed: there are no characters behind the last separator. -/
def missed (separator : UInt8) (str : List UInt8) : List (List UInt8) :=
  if str = [] ∨ str.getLast? = some separator then [[]] else []

theorem push_eq (trimEmpty : Bool) (list : List (List UInt8)) (temp : List UInt8) :
    push trimEmpty list temp = list ++ kept trimEmpty [temp] := by
  by_cases hkeep : (!trimEmpty || !temp.isEmpty) = true
  · have hone : kept trimEmpty [temp] = [temp] := List.filter_cons_of_pos hkeep
    rw [push, if_pos hkeep, hone]
  · have hnone : kept trimEmpty [temp] = [] := List.filter_cons_of_neg hkeep
    rw [push, if_neg hkeep, hnone, List.append_nil]

/-- What is missed behind a separator is missed in front of it. -/
theorem missed_append (separator : UInt8) (front rest : List UInt8) :
    missed separator (front ++ separator :: rest) = missed separator rest := by
  have hlast : (front ++ separator :: rest).getLast? = (separator :: rest).getLast? :=
    List.getLast?_append_of_ne_nil front (List.cons_ne_nil separator rest)
  cases rest with
  | nil =>
      have hsep : (front ++ [separator]).getLast? = some separator := hlast
      rw [missed, if_pos (Or.inr hsep), missed, if_pos (Or.inl rfl)]
  | cons c rest =>
      rw [List.getLast?_cons_cons] at hlast
      rw [missed, missed, hlast]
      simp only [List.append_eq_nil_iff, reduceCtorEq, and_false, false_or]

theorem missed_of_not_mem {separator : UInt8} {str : List UInt8} (hne : str ≠ [])
    (h : separator ∉ str) : missed separator str = [] := by
  rw [missed, if_neg]
  rintro (hnil | hlast)
  · exact hne hnil
  · exact h (List.mem_of_getLast? hlast)

/-- **The loop.**  From each position on it pushes the fields of what is left but the missed
    one. -/
theorem splitLoop_spec (str : List UInt8) (separator : UInt8) (trimEmpty : Bool) (pos : Nat)
    (list : List (List UInt8)) :
    ∃ fields, fields ++ missed separator (str.drop pos) = (str.drop pos).splitOn separator ∧
      splitLoop str separator trimEmpty pos list = list ++ kept trimEmpty fields := by
  induction hn : str.length - pos using Nat.strongRecOn generalizing pos list with
  | ind n ih =>
      subst hn
      rw [splitLoop]
      split
      · rename_i hpos
        split
        · rename_i tag htag
          have hle := le_of_find htag
          obtain ⟨hfirst, hsplit⟩ := split_of_find htag
          obtain ⟨fields, hfields, hloop⟩ := ih (str.length - (tag + 1)) (by omega) (tag + 1)
            (push trimEmpty list (substr str pos (tag - pos))) rfl
          refine ⟨substr str pos (tag - pos) :: fields, ?_, ?_⟩
          · rw [hsplit, missed_append, List.splitOn_append_cons_self_of_not_mem hfirst, ← hfields,
              List.cons_append]
          · rw [hloop, push_eq, List.append_assoc, kept, kept, kept, ← List.filter_append]
            rfl
        · rename_i hnone
          have hsep := not_mem_of_find hnone
          have hne : str.drop pos ≠ [] := by
            rw [List.drop_eq_getElem_cons hpos]
            exact List.cons_ne_nil _ _
          refine ⟨[str.drop pos], ?_, push_eq _ _ _⟩
          rw [missed_of_not_mem hne hsep, List.splitOn_eq_singleton hsep, List.append_nil]
      · rename_i hend
        have hnil : str.drop pos = [] := List.drop_eq_nil_of_le (Nat.le_of_not_lt hend)
        refine ⟨[], ?_, (List.append_nil _).symm⟩
        rw [hnil, List.splitOn_nil, missed, if_pos (Or.inl rfl), List.nil_append]

/-- `split_string` misses the field behind the end, which trimming would remove. -/
theorem splitString_spec (str : List UInt8) (separator : UInt8) (trimEmpty : Bool) :
    ∃ fields, fields ++ missed separator str = str.splitOn separator ∧
      splitString str separator trimEmpty = kept trimEmpty fields :=
  splitLoop_spec str separator trimEmpty 0 []

theorem kept_false (fields : List (List UInt8)) : kept false fields = fields :=
  List.filter_eq_self.mpr fun _ _ => rfl

theorem kept_true_missed (separator : UInt8) (str : List UInt8) :
    kept true (missed separator str) = [] := by
  rw [missed]
  split
  · rfl
  · rfl

/-- With empty fields trimmed, nothing is missed. -/
theorem splitString_trim (str : List UInt8) (separator : UInt8) :
    splitString str separator true = (str.splitOn separator).filter fun f => !f.isEmpty := by
  obtain ⟨fields, hfields, hsplit⟩ := splitString_spec str separator true
  have hall : kept true (str.splitOn separator) = kept true fields := by
    rw [← hfields, kept, List.filter_append]
    exact (congrArg (kept true fields ++ ·) (kept_true_missed separator str)).trans
      (List.append_nil _)
  rw [hsplit, ← hall]
  rfl

/-- There is one more field than separators. -/
theorem length_splitOn (str : List UInt8) (separator : UInt8) :
    (str.splitOn separator).length = str.count separator + 1 := by
  induction str with
  | nil => rfl
  | cons c str ih =>
      rw [List.splitOn_cons_eq_if_modifyHead, List.count_cons]
      split
      · rw [List.length_cons, ih]
      · rw [List.length_modifyHead, ih, Nat.add_zero]

/-- A string that is not empty and does not end in the separator has all its fields cut off. -/
theorem right_of_last {str : List UInt8} {separator : UInt8} (hne : str ≠ [])
    (hlast : str.getLast? ≠ some separator) : Right str separator := by
  obtain ⟨fields, hfields, hsplit⟩ := splitString_spec str separator false
  have hmissed : missed separator str = [] := if_neg (not_or.mpr ⟨hne, hlast⟩)
  rw [hmissed, List.append_nil] at hfields
  rw [kept_false, hfields] at hsplit
  refine ⟨hsplit, ?_, ?_, splitString_trim str separator⟩
  · rw [hsplit, length_splitOn]
  · rw [hsplit, List.intercalate_splitOn]

/-- Otherwise one field is missing. -/
theorem not_right_of_missed {str : List UInt8} {separator : UInt8}
    (h : str = [] ∨ str.getLast? = some separator) : ¬ Right str separator := by
  rintro ⟨hright, -⟩
  obtain ⟨fields, hfields, hsplit⟩ := splitString_spec str separator false
  have hmissed : missed separator str = [[]] := if_pos h
  rw [kept_false] at hsplit
  rw [hmissed, ← hright, hsplit] at hfields
  have hlen := congrArg List.length hfields
  rw [List.length_append, List.length_singleton] at hlen
  omega

/-- **Splitting.**  The fields come out as they should iff the string is not empty and does not
    end in the separator. -/
theorem splitString_right_iff (str : List UInt8) (separator : UInt8) :
    Right str separator ↔ str ≠ [] ∧ str.getLast? ≠ some separator := by
  constructor
  · intro hright
    rw [← not_or]
    exact fun h => not_right_of_missed h hright
  · rintro ⟨hne, hlast⟩
    exact right_of_last hne hlast

/-- `a,` has the fields `a` and the empty one. -/
theorem not_splitString_right_trailing : ¬ Right [97, 44] 44 :=
  not_right_of_missed (Or.inr rfl)

end Jengine.Utils.SplitString
