import Jengine.Lua.Reading

/-!
# Values that arrive as they were sent

The reader rebuilds a table from its array part and then from all of its entries, which
contain the array part again.  Every step either adds an entry of the table or finds it there
already, so that in the end the entries are those that were sent.  A string is cut off at its
first zero byte, as the reader pushes it with `lua_pushstring`.
-/

namespace Jengine.Lua

open Jengine.Lib Value

/-! ### Keys of the array part -/

/-- The exponent of a number from 1 on is neither that of zero nor too large. -/
theorem isZero_doubleOfNat {i : Nat} (hpos : 0 < i) (hlt : i < 2 ^ 53) :
    isZero (doubleOfNat i) = false := by
  have hlow : 2 ^ i.log2 ≤ i := Nat.log2_self_le (by omega)
  have hhigh : i < 2 ^ (i.log2 + 1) := Nat.lt_log2_self
  have hlog : i.log2 ≤ 52 := by
    have := (Nat.pow_lt_pow_iff_right (by decide : 1 < 2)).mp (lt_of_le_of_lt hlow hlt)
    omega
  have hpow : 2 ^ i.log2 * 2 ^ (52 - i.log2) = 2 ^ 52 := by
    rw [← Nat.pow_add, Nat.add_sub_cancel' hlog]
  have hfraction : (i - 2 ^ i.log2) * 2 ^ (52 - i.log2) < 2 ^ 52 := by
    rw [← hpow]
    apply Nat.mul_lt_mul_of_pos_right _ (Nat.two_pow_pos _)
    rw [Nat.pow_succ] at hhigh
    omega
  have hbits : (doubleOfNat i).toNat =
      (1023 + i.log2) * 2 ^ 52 + (i - 2 ^ i.log2) * 2 ^ (52 - i.log2) := by
    rw [doubleOfNat, if_neg (by omega)]
    apply UInt64.toNat_ofNat_of_lt'
    show _ < 2 ^ 64
    omega
  rw [isZero, Bool.or_eq_false_iff, beq_eq_false_iff_ne, beq_eq_false_iff_ne]
  constructor
  · intro h
    rw [h, UInt64.toNat_zero] at hbits
    omega
  · intro h
    rw [h] at hbits
    simp at hbits
    omega

theorem eq_of_rawEqual_ofNat {k : Scalar} {i : Nat} (hpos : 0 < i) (hlt : i < 2 ^ 53)
    (h : k.rawEqual (.ofNat i) = true) : k = .ofNat i := by
  apply Scalar.eq_of_rawEqual h
  intro bits hbits
  rw [← Scalar.number.inj hbits]
  exact isZero_doubleOfNat hpos hlt

/-! ### Steps of the reader -/

section Update

variable {table entries : List (Scalar × Value Unit)} {k : Scalar} {v : Value Unit}

theorem distinct_update (h : Distinct table) : Distinct (update table k v) := by
  by_cases hnil : v = .nil
  · rw [hnil]
    exact List.Pairwise.filter _ h
  · rw [update_of_ne_nil hnil]
    split
    · apply List.pairwise_map.mpr
      apply List.Pairwise.imp _ h
      intro e e' hee'
      have hfst : ∀ e : Scalar × Value Unit,
          (if e.1.rawEqual k then (e.1, v) else e).1 = e.1 := by
        intro e
        split <;> rfl
      rw [hfst, hfst]
      exact hee'
    · rename_i hany
      rw [Bool.not_eq_true, List.any_eq_false] at hany
      apply List.pairwise_append.mpr
      refine ⟨h, List.pairwise_singleton _ _, ?_⟩
      intro e he e' he'
      rw [List.mem_singleton.mp he']
      exact Bool.eq_false_of_not_eq_true (hany e he)

/-- The keys after a step are old ones and the new one. -/
theorem key_of_mem_update {x : Scalar × Value Unit} (h : x ∈ update table k v) :
    (∃ e ∈ table, x.1 = e.1) ∨ x.1 = k := by
  by_cases hnil : v = .nil
  · rw [hnil] at h
    exact Or.inl ⟨x, List.mem_of_mem_filter h, rfl⟩
  · rw [update_of_ne_nil hnil] at h
    split at h
    · obtain ⟨e, he, rfl⟩ := List.mem_map.mp h
      refine Or.inl ⟨e, he, ?_⟩
      split <;> rfl
    · rcases List.mem_append.mp h with he | he
      · exact Or.inl ⟨x, he, rfl⟩
      · rw [List.mem_singleton.mp he]
        exact Or.inr rfl

/-- Among entries with different keys, a step adds its entry or finds it. -/
theorem mem_update_iff (hdistinct : Distinct entries) (hsub : ∀ e ∈ table, e ∈ entries)
    (hv : v ≠ .nil) (hmem : (k, v) ∈ entries) (x : Scalar × Value Unit) :
    x ∈ update table k v ↔ x ∈ table ∨ x = (k, v) := by
  rw [update_of_ne_nil hv]
  have hthere : ∀ e ∈ table, e.1.rawEqual k = true → e = (k, v) :=
    fun e he hequal => hdistinct.eq (hsub e he) hmem hequal
  split
  · rename_i hany
    obtain ⟨e, he, hequal⟩ := List.any_eq_true.mp hany
    have hsame : (table.map fun e => if e.1.rawEqual k then (e.1, v) else e) = table := by
      rw [List.map_congr_left (g := id), List.map_id]
      intro e he
      split
      · rename_i hequal
        exact (hthere e he hequal).symm ▸ rfl
      · rfl
    rw [hsame]
    constructor
    · exact Or.inl
    · rintro (hx | rfl)
      · exact hx
      · rw [← hthere e he hequal]
        exact he
  · rw [List.mem_append, List.mem_singleton]

/-- A nil element that is not there removes nothing. -/
theorem update_nil (h : ∀ e ∈ table, e.1.rawEqual k = false) : update table k .nil = table := by
  apply List.filter_eq_self.mpr
  intro e he
  rw [h e he]
  rfl

end Update

/-! ### The rebuilt table -/

section Rebuild

variable {border : Nat} {entries : List (Scalar × Value Unit)}

theorem distinct_rebuild (border : Nat) (entries : List (Scalar × Value Unit)) :
    Distinct (rebuild border entries) := by
  have harray : Distinct (rebuildArray border entries) := by
    apply List.foldlRecOn (motive := Distinct) _ _ List.Pairwise.nil
    intro table h i _
    exact distinct_update h
  apply List.foldlRecOn (motive := Distinct) _ _ harray
  intro table h e _
  exact distinct_update h

/-- Keys that have been read have no zero byte. -/
theorem noZero_of_mem_rebuild {e : Scalar × Value Unit} (he : e ∈ rebuild border entries) :
    e.1.noZero = true := by
  have hstep : ∀ (table : List (Scalar × Value Unit)) (k : Scalar) (v : Value Unit),
      (∀ e ∈ table, e.1.noZero = true) → k.noZero = true →
        ∀ e ∈ update table k v, e.1.noZero = true := by
    intro table k v h hk e he
    rcases key_of_mem_update he with ⟨e', he', hkey⟩ | hkey
    · rw [hkey]
      exact h e' he'
    · rw [hkey]
      exact hk
  have harray : ∀ e ∈ rebuildArray border entries, e.1.noZero = true := by
    apply List.foldlRecOn (motive := fun table : List (Scalar × Value Unit) =>
      ∀ e ∈ table, e.1.noZero = true)
    · exact fun e he => absurd he List.not_mem_nil
    · intro table h i _
      exact hstep table _ _ h rfl
  revert e
  apply List.foldlRecOn (motive := fun table : List (Scalar × Value Unit) =>
    ∀ e ∈ table, e.1.noZero = true) _ _ harray
  intro table h e _
  exact hstep table _ _ h (Scalar.noZero_cstr e.1)

/-- The array part has entries of the table only. -/
theorem mem_of_mem_rebuildArray (hdistinct : Distinct entries)
    (hvalues : ∀ e ∈ entries, e.2 ≠ .nil) (hborder : border < 2 ^ 53)
    {e : Scalar × Value Unit} (he : e ∈ rebuildArray border entries) : e ∈ entries := by
  revert e
  apply List.foldlRecOn (motive := fun table : List (Scalar × Value Unit) =>
    ∀ e ∈ table, e ∈ entries)
  · exact fun e he => absurd he List.not_mem_nil
  · intro table hsub i hi e he
    have hrange := List.mem_range'_1.mp hi
    rw [lookup] at he
    rcases hfind : find entries (.ofNat i) with _ | v
    · rw [hfind, Option.getD_none, update_nil] at he
      · exact hsub e he
      · intro e' he'
        rw [find, Option.map_eq_none_iff, List.find?_eq_none] at hfind
        exact Bool.eq_false_of_not_eq_true (hfind e' (hsub e' he'))
    · obtain ⟨k, hmem, hequal⟩ := mem_of_find hfind
      rw [eq_of_rawEqual_ofNat (by omega) (by omega) hequal] at hmem
      rw [hfind, Option.getD_some,
        mem_update_iff hdistinct hsub (hvalues _ hmem) hmem] at he
      rcases he with he | rfl
      · exact hsub e he
      · exact hmem

/-- With the keys as they were sent, the rebuilt table has the entries that were sent. -/
theorem mem_rebuild_iff (hdistinct : Distinct entries) (hvalues : ∀ e ∈ entries, e.2 ≠ .nil)
    (hborder : border < 2 ^ 53) (hkeys : ∀ e ∈ entries, e.1.noZero = true)
    (e : Scalar × Value Unit) : e ∈ rebuild border entries ↔ e ∈ entries := by
  have hfold : ∀ es table : List (Scalar × Value Unit),
      (∀ e ∈ es, e ∈ entries) → (∀ e ∈ table, e ∈ entries) →
      (e ∈ es.foldl (fun table e => update table e.1.cstr e.2) table ↔ e ∈ table ∨ e ∈ es) := by
    intro es
    induction es with
    | nil =>
        intro table _ _
        rw [List.foldl_nil, List.mem_nil_iff, or_false]
    | cons e' es ih =>
        intro table hes hsub
        have hmem := hes e' List.mem_cons_self
        have hstep := mem_update_iff hdistinct hsub (hvalues e' hmem) hmem
        rw [List.foldl_cons, Scalar.cstr_of_noZero (hkeys e' hmem),
          ih _ (fun x hx => hes x (List.mem_cons_of_mem _ hx)), hstep, List.mem_cons, or_assoc]
        intro x hx
        rcases (hstep x).mp hx with hx | rfl
        · exact hsub x hx
        · exact hmem
  have harray : ∀ x ∈ rebuildArray border entries, x ∈ entries :=
    fun x hx => mem_of_mem_rebuildArray hdistinct hvalues hborder hx
  rw [rebuild, hfold entries _ (fun x hx => hx) harray]
  constructor
  · rintro (he | he)
    · exact harray e he
    · exact he
  · exact Or.inr

end Rebuild

theorem readBack_ne_nil {v : Value Nat} (h : v ≠ .nil) : readBack v ≠ .nil := by
  cases v with
  | nil => exact absurd rfl h
  | scalar | table | unsupported => simp [readBack]

theorem mem_readBacks {es : List (Scalar × Value Nat)} {e : Scalar × Value Unit} :
    e ∈ readBacks es ↔ ∃ e' ∈ es, (e'.1, readBack e'.2) = e := by
  rw [readBacks_eq, List.mem_map]

/-- What is read is what was sent exactly if no string is cut off. -/
theorem same_readBack_iff {v : Value Nat} (hwell : WellFormed v) (hfit : BordersFit v) :
    Same v (readBack v) ↔ NoZero v := by
  induction v using Value.induct with
  | hnil => exact ⟨fun _ => .nil, fun _ => .nil⟩
  | hscalar x =>
      constructor
      · intro h
        have hsame : ∀ w, Same (.scalar x) w → w = .scalar x := by
          intro w hw
          cases hw
          rfl
        have hcut := Value.scalar.inj (hsame _ h)
        apply NoZero.scalar
        rw [← hcut]
        exact Scalar.noZero_cstr x
      · intro h
        cases h with
        | scalar hzero =>
            rw [readBack, Scalar.cstr_of_noZero hzero]
            exact .scalar x
  | hunsupported t => cases hwell
  | htable border es ih =>
      cases hwell with
      | table _ hkeys _ hdistinct _ hvalues hwell =>
      cases hfit with
      | table hborder hfit =>
          have hentries : Distinct (readBacks es) := by
            rw [readBacks_eq]
            exact List.pairwise_map.mpr hdistinct
          have hnonnil : ∀ e ∈ readBacks es, e.2 ≠ .nil := by
            intro e he
            obtain ⟨e', he', rfl⟩ := mem_readBacks.mp he
            exact readBack_ne_nil (hvalues e' he')
          have hrebuild : (∀ e ∈ es, e.1.noZero = true) → ∀ e,
              e ∈ rebuild border (readBacks es) ↔ ∃ e' ∈ es, (e'.1, readBack e'.2) = e := by
            intro hzero e
            rw [mem_rebuild_iff hentries hnonnil (by omega) ?_, mem_readBacks]
            intro e he
            obtain ⟨e', he', rfl⟩ := mem_readBacks.mp he
            exact hzero e' he'
          constructor
          · intro h
            rw [readBack] at h
            cases h with
            | table hdistinct' hsame hsames =>
                have hzero : ∀ e ∈ es, e.1.noZero = true := by
                  intro e he
                  have hkey := (hsame e.1).mp (List.mem_map_of_mem he)
                  obtain ⟨e', he', hfst⟩ := List.mem_map.mp hkey
                  rw [← hfst]
                  exact noZero_of_mem_rebuild he'
                apply NoZero.table hzero
                intro e he
                apply (ih e he (hwell e he) (hfit e he)).mp
                exact hsames e.1 e.2 _ he ((hrebuild hzero _).mpr ⟨e, he, rfl⟩)
          · intro h
            cases h with
            | table hzero hzeros =>
                rw [readBack]
                apply Same.table (distinct_rebuild _ _)
                · intro k
                  rw [List.mem_map, List.mem_map]
                  constructor
                  · rintro ⟨e, he, rfl⟩
                    exact ⟨_, (hrebuild hzero _).mpr ⟨e, he, rfl⟩, rfl⟩
                  · rintro ⟨e, he, rfl⟩
                    obtain ⟨e', he', rfl⟩ := (hrebuild hzero e).mp he
                    exact ⟨e', he', rfl⟩
                · intro k v w hv hw
                  obtain ⟨e, he, heq⟩ := (hrebuild hzero _).mp hw
                  obtain ⟨rfl, rfl⟩ := Prod.mk.inj heq
                  have hentry := hdistinct.eq he hv (Scalar.rawEqual_refl (hkeys e he))
                  rw [hentry]
                  exact (ih _ hv (hwell _ hv) (hfit _ hv)).mpr (hzeros _ hv)

/-! ### The round trip -/

/-- The value at `idx` of the stack `L` is sent and read back onto the stack `R`: the writer
    leaves its stack as it was, and the reader pushes one value, the same, and reads what was
    written and no more.  The stacks have `room` and `room'` slots. -/
def RoundTrip (room room' : Nat) (idx : Int) (L : List (Value Nat)) (R : List (Value Unit))
    (v : Value Nat) : Prop :=
  ∃ bs n, ∀ fuel, n ≤ fuel →
    (∀ m, writeLuaValue room fuel idx (L, m) = some ((), (L, m ++ bs))) ∧
      ∀ rest, ∃ w, Same v w ∧
        readLuaValue room' fuel (R, bs ++ rest) = some ((), (w :: R, rest))

section RoundTrip

variable {v : Value Nat} {idx : Int} {L : List (Value Nat)}

/-- The writer and the reader succeed only with enough slots, and the reader makes `readBack`
    of the value. -/
theorem of_roundTrip (hwell : WellFormed v) (hfit : BordersFit v)
    (hidx : L[position L idx]? = some v) {R : List (Value Unit)} {room room' : Nat}
    (h : RoundTrip room room' idx L R v) :
    L.length + need v ≤ room ∧ R.length + readNeed v ≤ room' ∧ Same v (readBack v) := by
  obtain ⟨bs, n, h⟩ := h
  obtain ⟨hwriter, hreader⟩ := h (max n (size v)) (le_max_left _ _)
  have hwrites := writes_of_wellFormed room hwell (le_max_right n _) idx L [] hidx
  obtain ⟨hroom, hwritten⟩ := hwrites.of_some (hwriter [])
  have hbytes : bs = bytes v := congrArg (fun r => r.2.2) hwritten
  obtain ⟨w, hsame, hread⟩ := hreader []
  rw [hbytes] at hread
  have hreads := reads_of_wellFormed room' hwell hfit (le_max_right n _) R []
  obtain ⟨hroom', hvalue⟩ := hreads.of_some hread
  have hstack : w :: R = readBack v :: R := congrArg (fun r => r.2.1) hvalue
  rw [(List.cons.inj hstack).1] at hsame
  exact ⟨hroom, hroom', hsame⟩

/-- A string with a zero byte does not arrive. -/
theorem zeroByte_cut : WellFormed (.scalar (.string [97, 0, 98])) ∧
    ¬RoundTrip 20 20 1 [.scalar (.string [97, 0, 98])] [] (.scalar (.string [97, 0, 98])) := by
  have hwell : WellFormed (.scalar (.string [97, 0, 98])) := .scalar (by decide)
  refine ⟨hwell, ?_⟩
  intro h
  obtain ⟨-, -, hsame⟩ := of_roundTrip hwell .scalar rfl h
  have hcut : readBack (.scalar (.string [97, 0, 98])) = .scalar (.string [97]) := rfl
  rw [hcut] at hsame
  cases hsame

/-- A value arrives exactly if its strings have no zero byte and the stacks have room. -/
theorem roundTrip_iff (hwell : WellFormed v) (hfit : BordersFit v)
    (hidx : L[position L idx]? = some v) (R : List (Value Unit)) (room room' : Nat) :
    RoundTrip room room' idx L R v ↔
      NoZero v ∧ L.length + need v ≤ room ∧ R.length + readNeed v ≤ room' := by
  constructor
  · intro h
    obtain ⟨hroom, hroom', hsame⟩ := of_roundTrip hwell hfit hidx h
    exact ⟨(same_readBack_iff hwell hfit).mp hsame, hroom, hroom'⟩
  · rintro ⟨hzero, hroom, hroom'⟩
    refine ⟨bytes v, size v, ?_⟩
    intro fuel hfuel
    constructor
    · intro m
      exact (writes_of_wellFormed room hwell hfuel idx L m hidx).ok hroom
    · intro rest
      refine ⟨readBack v, (same_readBack_iff hwell hfit).mpr hzero, ?_⟩
      exact (reads_of_wellFormed room' hwell hfit hfuel R rest).ok hroom'

end RoundTrip

/-! ### Borders that do not fit -/

section Wide

variable {border : Nat} {es : List (Scalar × Value Nat)}

/-- What follows the two nil elements after those that are read. -/
def unreadBytes (border : Nat) (es : List (Scalar × Value Nat)) : List UInt8 :=
  ((List.range' (border % 65536 + 3) (border - border % 65536 - 2)).flatMap fun i =>
      bytes (lookup es (.ofNat i))) ++
    (toLE 2 (UInt16.ofNat es.length).toNat ++ es.flatMap fun e => e.1.bytes ++ bytes e.2)

theorem tableBytes_wide (hborder : 65536 ≤ border)
    (hfirst : lookup es (.ofNat (border % 65536 + 1)) = .nil)
    (hsecond : lookup es (.ofNat (border % 65536 + 2)) = .nil) :
    tableBytes border (entryBytes es) = toLE 2 (UInt16.ofNat (border % 65536)).toNat ++
      (((List.range' 1 (border % 65536)).flatMap fun i => bytes (lookup es (.ofNat i))) ++
        (toLE 2 (UInt16.ofNat 0).toNat ++ unreadBytes border es)) := by
  have hsplit : List.range' 1 border = List.range' 1 (border % 65536) ++
      (border % 65536 + 1) :: (border % 65536 + 2) ::
        List.range' (border % 65536 + 3) (border - border % 65536 - 2) := by
    have htwo (k n : Nat) : (k + 1) :: (k + 2) :: List.range' (k + 3) n =
        List.range' (1 + k) (n + 2) := by
      rw [Nat.add_comm 1 k]
      rfl
    rw [htwo, List.range'_append_1]
    congr 1
    omega
  have hlen : UInt16.ofNat border = UInt16.ofNat (border % 65536) := by
    apply UInt16.toNat.inj
    simp
  rw [tableBytes_eq, hsplit, hlen, List.flatMap_append, List.flatMap_cons, List.flatMap_cons,
    hfirst, hsecond, bytes, unreadBytes]
  simp [toLE]

/-- A table whose border does not fit and with two nil elements where the reader expects the
    number of entries: the reader takes them for the number zero. -/
theorem not_roundTrip_of_wide {idx : Int} {L : List (Value Nat)}
    (hwell : WellFormed (.table border es)) (hfit : ∀ e ∈ es, BordersFit e.2)
    (hborder : 65536 ≤ border) (hfirst : lookup es (.ofNat (border % 65536 + 1)) = .nil)
    (hsecond : lookup es (.ofNat (border % 65536 + 2)) = .nil)
    (hidx : L[position L idx]? = some (.table border es)) (R : List (Value Unit))
    (room room' : Nat) : ¬RoundTrip room room' idx L R (.table border es) := by
  rintro ⟨bs, n, h⟩
  obtain ⟨hwriter, hreader⟩ := h (max n (size (.table border es))) (le_max_left _ _)
  have hwrites := writes_of_wellFormed room hwell (le_max_right n _) idx L [] hidx
  have hbytes : bs = bytes (.table border es) :=
    congrArg (fun r => r.2.2) (hwrites.of_some (hwriter [])).2
  obtain ⟨w, -, hread⟩ := hreader []
  have hsize : size (.table border es) ≤ max n (size (.table border es)) := le_max_right _ _
  generalize max n (size (.table border es)) = fuel at hread hsize
  rw [size] at hsize
  have hpos := length_lt_sizes es
  obtain ⟨fuel, rfl⟩ : ∃ k, fuel = k + 2 := ⟨fuel - 2, by omega⟩
  cases hwell with
  | table _ _ _ _ _ _ hwell =>
      have hvalues : ∀ e ∈ es, Reads room' (readLuaValue room' (fuel + 1)) (bytes e.2)
          (readNeed e.2) (readBack e.2) := by
        intro e he
        have := size_lt_sizes he
        exact reads_of_wellFormed room' (hwell e he) (hfit e he) (by omega)
      have hstops : Returns (readLuaValue room' (fuel + 2)) (R, bytes (.table border es) ++ [])
          (R.length + 1 ≤ room' ∧ ∀ i ∈ List.range' 1 (border % 65536),
            R.length + 1 + readNeed (lookup es (.ofNat i)) ≤ room') ()
          (.table () (rebuildArray (border % 65536) (readBacks es)) :: R,
            unreadBytes border es ++ []) := by
        rw [bytes, tableBytes_wide hborder hfirst hsecond, List.cons_append, List.append_assoc,
          List.append_assoc, List.append_assoc]
        apply Returns.step (readSByte_cons R _ 5)
        apply (returns_push room' _ R _).bind
        apply Returns.step (readUShort_toLE _ _ (Nat.mod_lt border (by decide)))
        apply (returns_readArray room' (border % 65536) R _ (reads_nil room' fuel) hvalues).last
        exact (Returns.step (readUShort_toLE _ _ (by decide)) (.always rfl)).ok trivial
      rw [hbytes] at hread
      have hrest : [] = unreadBytes border es ++ [] :=
        congrArg (fun r => r.2.2) (hstops.of_some hread).2
      rw [List.append_nil] at hrest
      have hlength := congrArg List.length hrest
      rw [unreadBytes, List.length_append, List.length_append, length_toLE, List.length_nil]
        at hlength
      omega

end Wide

/-- `{"ab", [true] = {}}`, as the first value of a stack of twenty slots. -/
theorem roundTrip_table :
    RoundTrip 20 20 1 [.table 1 [(.ofNat 1, .scalar (.string [97, 98])),
        (.boolean true, .table 0 [])]] []
      (.table 1 [(.ofNat 1, .scalar (.string [97, 98])), (.boolean true, .table 0 [])]) := by
  have hempty : WellFormed (.table 0 []) := by
    apply WellFormed.table <;> simp [Distinct, IsBorder, find]
  have hstring : WellFormed (.scalar (.string [97, 98])) := .scalar (by decide)
  refine (roundTrip_iff ?_ ?_ rfl [] 20 20).mpr ⟨?_, by decide, by decide⟩
  · apply WellFormed.table
    · decide
    · decide
    · decide
    · simp [Distinct, Scalar.rawEqual, Scalar.ofNat]
    · exact ⟨Or.inr (by decide), by decide⟩
    · simp
    · simp [hempty, hstring]
  · apply BordersFit.table (by decide)
    intro e he
    simp only [List.mem_cons, List.not_mem_nil, or_false] at he
    rcases he with rfl | rfl
    · exact .scalar
    · exact .table (by decide) (by simp)
  · apply NoZero.table (by decide)
    intro e he
    simp only [List.mem_cons, List.not_mem_nil, or_false] at he
    rcases he with rfl | rfl
    · exact .scalar (by decide)
    · exact .table (by simp) (by simp)

end Jengine.Lua
