import Jengine.Dbo.Response

/-!
# Rows that are accepted

Which rows the two row readers take: the type of every field that is not NULL is in the switch,
and no length has the three-byte form, unless the variable it is read into is clean by chance.
-/

namespace Jengine.Dbo.Internal

open Jengine.Lib Jengine.Memory RefMemoryChunk

/-! ### Lengths -/

/-- The length has the encoding whose fourth byte is not read. -/
def ThreeBytes (v : Nat) : Prop := 65536 ≤ v ∧ v < 16777216

instance (v : Nat) : Decidable (ThreeBytes v) := inferInstanceAs (Decidable (_ ∧ _))

theorem Locals.clean_of_not_threeBytes (l : Locals) {v : Nat} (h : ¬ ThreeBytes v) : l.Clean v :=
  fun hlo hhi => absurd ⟨hlo, hhi⟩ h

/-- The variables hold a one in that byte. -/
def dirty : Locals := ⟨0, 16777216, 0⟩

theorem dirty_decoded {v : Nat} (h : ThreeBytes v) : dirty.decoded v = v + 16777216 := by
  rw [Locals.decoded, if_pos (show 65536 ≤ v ∧ v < 16777216 from h)]
  rfl

/-- The field is not NULL, its type is in the switch, and its length is read right. -/
def RowField.Good (protocol : ProtocolType) (f : RowField) : Prop :=
  ∀ value, f.2 = some value → f.1.type.supported protocol = true ∧ ¬ ThreeBytes value.length

/-! ### Running out of bytes -/

namespace PacketIn

variable {m : Bytes} {s : PacketIn} {bs : List UInt8}

/-- `op` throws at `s`. -/
def Throws {α : Type} (op : Op α) (s : PacketIn) : Prop := ∃ e s', op s = (.error e, s')

theorem Throws.bind {α β : Type} {op : Op α} {f : α → Op β} (h : Throws op s) :
    Throws (op >>= f) s := by
  obtain ⟨e, s', hop⟩ := h
  exact ⟨e, s', bind_error hop⟩

theorem Throws.of_bind {α β : Type} {op : Op α} {f : α → Op β} {a : α} {s' : PacketIn}
    (hop : op s = (.ok a, s')) (h : Throws (f a) s') : Throws (op >>= f) s := by
  obtain ⟨e, s2, hf⟩ := h
  exact ⟨e, s2, (bind_ok hop).trans hf⟩

theorem Holds.getByte_throws (h : Holds m s bs) {n : Nat} (hn : bs.length < s.packet.pos + n)
    (hlt : s.packet.pos + n < 2 ^ 32) : Throws (PacketIn.getByte m n) s := by
  have hsize := h.size_eq
  have hu : Gateway.u32 (s.packet.pos + n) = s.packet.pos + n := Nat.mod_eq_of_lt hlt
  refine ⟨.exception "Packet::GetByte no more data",
    { s with asked := s.asked ++ [(s.packet.pos, n)] }, ?_⟩
  rw [PacketIn.getByte, Gateway.PacketIn.getByte, hu, if_pos (by omega)]

theorem Holds.skip_throws (h : Holds m s bs) {n : Nat} (hn : bs.length < s.packet.pos + n)
    (hlt : s.packet.pos + n < 2 ^ 32) : Throws (PacketIn.skip n) s := by
  have hsize := h.size_eq
  have hcap := h.size
  have hu : Gateway.u32 (s.packet.pos + n) = s.packet.pos + n := Nat.mod_eq_of_lt hlt
  refine ⟨.assertion, { s with asked := s.asked ++ [(s.packet.pos, n)] }, ?_⟩
  rw [PacketIn.skip, hu, PacketIn.skipTo, Gateway.Packet.skipTo,
    if_neg (show ¬ _ ≤ s.packet.capacity by omega)]

theorem Holds.currentByte_throws (h : Holds m s bs) (hend : bs.drop s.packet.pos = []) :
    Throws (PacketIn.currentByte m) s := by
  have hunread := (h.placed.split m).2
  rw [h.bytes, hend] at hunread
  have hopen := h.placed.cursor
  rcases hdata : s.packet.data.drop s.packet.posY with _ | ⟨ck, cks⟩
  · have hck : s.packet.data[s.packet.posY]? = none := by
      rw [← List.head?_drop, hdata, List.head?_nil]
    exact ⟨_, s, by rw [PacketIn.currentByte, hck]⟩
  · rw [hdata] at hunread hopen
    have hlt : ck.pos < ck.count := hopen.1
    have hlen := congrArg List.length hunread
    rw [unreadOf_cons, List.length_append, length_unread, List.length_nil, freeCount] at hlen
    omega

/-- A length that has the three-byte form is read as one that is longer than any packet. -/
theorem Holds.dirty_length (h : Holds m s bs) {n : Nat} (hn : n < 2 ^ 32)
    (hfield : variableInteger n <+: bs.drop s.packet.pos) :
    ∃ len s', readVariableInteger m 32 dirty s = (.ok len, s') ∧ Holds m s' bs ∧
      (ThreeBytes n → 2 ^ 24 + 65536 ≤ len ∧ len < 2 ^ 25) := by
  obtain ⟨s', hop, hholds, -⟩ :=
    reads_readVariableInteger m 32 dirty (Nat.lt_trans hn (by decide)) s bs h hfield
  rw [Nat.mod_eq_of_lt (dirty.decoded_lt hn)] at hop
  refine ⟨dirty.decoded n, s', hop, hholds, fun hthree => ?_⟩
  obtain ⟨hlo, hhi⟩ := hthree
  rw [dirty_decoded ⟨hlo, hhi⟩]
  omega

end PacketIn

/-! ### Text -/

namespace RowReaderText

variable {m : Bytes} {fl : Floats} {md : ResultSetMetadata} {un : Uninit} {bs : List UInt8}

/-- A field that is read, whatever is kept of it. -/
theorem accepted_of_reads {α : Type} {op : PacketIn.Op α} {xs : List UInt8} {s : PacketIn}
    {pos : Nat} (hop : ∃ a, PacketIn.Reads m op xs a) (hs : PacketIn.Holds m s bs)
    (hpos : s.packet.pos = pos) (hxs : xs <+: bs.drop pos) :
    ∃ a s', op s = (.ok a, s') ∧ PacketIn.Holds m s' bs ∧ s'.packet.pos = pos + xs.length := by
  subst hpos
  obtain ⟨a, hop⟩ := hop
  obtain ⟨s', hrun, hholds, hpos⟩ := hop s bs hs hxs
  exact ⟨a, s', hrun, hholds, hpos⟩

theorem exists_reads_header {column n : Nat} {cm : ColumnDefinition} {ys : List UInt8} {α : Type}
    {g : Nat → ColumnDefinition → PacketIn.Op α} (hmd : md.columns[column]? = some cm)
    (hclean : (un.locals column).Clean n) (hn : n < 2 ^ 32)
    (hg : ∃ a, PacketIn.Reads m (g n cm) ys a) :
    ∃ a, PacketIn.Reads m (do
      let len ← PacketIn.readVariableInteger m 32 (un.locals column)
      let cm ← orThrow (md.getColumnDefinition column)
      g len cm) (variableInteger n ++ ys) a :=
  hg.imp fun _ h => reads_header hmd hclean hn h

theorem parseColumn_accepts (fl : Floats) (un : Uninit) {column : Nat} {f : RowField}
    {s : PacketIn} (buffer : List UInt8) (hmd : md.columns[column]? = some f.1)
    (hf : f.Good .text) (hs : PacketIn.Holds m s bs)
    (hfield : f.encoded .text <+: bs.drop s.packet.pos) :
    ∃ r s', parseColumn m fl md un column buffer s = (.ok r, s') ∧ PacketIn.Holds m s' bs ∧
      s'.packet.pos = s.packet.pos + (f.encoded .text).length := by
  obtain ⟨cm, _ | value⟩ := f
  · obtain ⟨zs, hzs⟩ := hfield
    have hcurrent := hs.currentByte (show bs.drop s.packet.pos = 0xFB :: zs from hzs.symm)
    rw [parseColumn, PacketIn.bind_get, PacketIn.bind_ok hcurrent, if_pos rfl]
    exact accepted_of_reads ⟨_, reads_string m _ buffer [0xFB]⟩ hs rfl ⟨zs, hzs⟩
  · obtain ⟨hsupported, hshort⟩ := hf value rfl
    have hstr : lengthEncoded value <+: bs.drop s.packet.pos := hfield
    obtain ⟨b, hcurrent, hb⟩ := hs.currentByte_lengthEncoded hstr
    have hlt := Nat.lt_of_le_of_lt ((length_le_lengthEncoded value).trans hstr.length_le)
      hs.drop_lt
    rw [parseColumn, PacketIn.bind_get, PacketIn.bind_ok hcurrent, if_neg hb]
    generalize hpos : s.packet.pos = pos at hstr ⊢
    refine accepted_of_reads (exists_reads_header hmd
      ((un.locals column).clean_of_not_threeBytes hshort) hlt ?_) hs hpos hstr
    cases ht : cm.type <;> rw [ht] at hsupported <;> try cases hsupported
    all_goals
      first
      | exact ⟨_, (PacketIn.reads_readFixedString m buffer value).map⟩
      | exact ⟨_, reads_string m _ buffer value⟩

/-- A field that is not good ends the row, if the variables are dirty. -/
theorem parseColumn_throws (fl : Floats) {column : Nat} {f : RowField} {s : PacketIn}
    (buffer : List UInt8) (hmd : md.columns[column]? = some f.1) (hdirty : un.locals column = dirty)
    (hf : ¬ f.Good .text) (hs : PacketIn.Holds m s bs) (hsmall : bs.length < 2 ^ 24 + 4)
    (hfield : f.encoded .text <+: bs.drop s.packet.pos) :
    PacketIn.Throws (parseColumn m fl md un column buffer) s := by
  obtain ⟨cm, _ | value⟩ := f
  · exact absurd nofun hf
  · have hstr : lengthEncoded value <+: bs.drop s.packet.pos := hfield
    obtain ⟨b, hcurrent, hb⟩ := hs.currentByte_lengthEncoded hstr
    have hlt := Nat.lt_of_le_of_lt ((length_le_lengthEncoded value).trans hstr.length_le)
      hs.drop_lt
    obtain ⟨len, s1, hlen, hholds, hlong⟩ :=
      hs.dirty_length hlt ((List.prefix_append _ _).trans hstr)
    have hcolumn : md.getColumnDefinition column = .ok cm := by
      rw [ResultSetMetadata.getColumnDefinition, hmd]
    have hpos := hholds.pos_le
    have hbad : cm.type.supported .text = true → 2 ^ 24 + 65536 ≤ len ∧ len < 2 ^ 25 := by
      intro hsupported
      refine hlong (not_not.mp fun hshort => hf fun v hv => ?_)
      obtain rfl := Option.some.inj hv
      exact ⟨hsupported, hshort⟩
    unfold parseColumn
    refine PacketIn.Throws.of_bind PacketIn.get_ok (PacketIn.Throws.of_bind hcurrent ?_)
    rw [if_neg hb, hdirty, hcolumn]
    refine PacketIn.Throws.of_bind hlen
      (PacketIn.Throws.of_bind (show orThrow (.ok cm) s1 = (.ok cm, s1) from rfl) ?_)
    cases ht : cm.type <;> rw [ht] at hbad <;> try exact ⟨_, _, rfl⟩
    all_goals
      obtain ⟨hlo, hhi⟩ := hbad rfl
      first
      | exact ((hholds.getByte_throws (by omega) (by omega)).bind).bind
      | exact (hholds.skip_throws (by omega) (by omega)).bind

theorem parseColumns_accepts (fl : Floats) (un : Uninit) {fields : List RowField} {column : Nat}
    {s : PacketIn} (buffer : List UInt8) (hmd : md.columns.drop column = fields.map Prod.fst)
    (hgood : ∀ f ∈ fields, f.Good .text) (hs : PacketIn.Holds m s bs)
    (hfields : fields.flatMap (RowField.encoded .text) <+: bs.drop s.packet.pos) :
    ∃ kept s', parseColumns m fl md un fields.length column buffer s = (.ok kept, s') ∧
      PacketIn.Holds m s' bs := by
  induction fields generalizing column s buffer with
  | nil => exact ⟨[], s, rfl, hs⟩
  | cons f fields ih =>
      obtain ⟨hcolumn, hmd'⟩ := columns_cons hmd
      rw [List.flatMap_cons] at hfields
      obtain ⟨r, s1, hop, hholds, hpos⟩ := parseColumn_accepts fl un buffer hcolumn
        (hgood f List.mem_cons_self) hs ((List.prefix_append _ _).trans hfields)
      have hfields' := prefix_drop_add hfields
      rw [← hpos] at hfields'
      obtain ⟨kept, s', hops, hholds'⟩ := ih r.2 hmd'
        (fun f' hf' => hgood f' (List.mem_cons_of_mem f hf')) hholds hfields'
      refine ⟨r.1 :: kept, s', ?_, hholds'⟩
      rw [List.length_cons, parseColumns, PacketIn.bind_ok hop]
      exact PacketIn.bind_ok hops

/-- A row that is accepted with dirty variables is good, and has a field for each round. -/
theorem good_of_parseColumns {fields : List RowField} {left column : Nat} {s : PacketIn}
    {buffer : List UInt8} (hmd : md.columns.drop column = fields.map Prod.fst)
    (hdirty : ∀ column, un.locals column = dirty) (hs : PacketIn.Holds m s bs)
    (hsmall : bs.length < 2 ^ 24 + 4) (hleft : fields.length ≤ left)
    (hfields : bs.drop s.packet.pos = fields.flatMap (RowField.encoded .text))
    (hok : ¬ PacketIn.Throws (parseColumns m fl md un left column buffer) s) :
    (∀ f ∈ fields, f.Good .text) ∧ left = fields.length := by
  induction fields generalizing left column s buffer with
  | nil =>
      refine ⟨fun f hf => absurd hf List.not_mem_nil, ?_⟩
      cases left with
      | zero => rfl
      | succ left =>
          have hend : PacketIn.Throws (PacketIn.currentByte m) s := hs.currentByte_throws hfields
          exact absurd (PacketIn.Throws.of_bind PacketIn.get_ok hend.bind).bind hok
  | cons f fields ih =>
      obtain ⟨left, rfl⟩ := Nat.exists_eq_succ_of_ne_zero (Nat.ne_of_gt
        (Nat.lt_of_lt_of_le (Nat.succ_pos _) hleft))
      obtain ⟨hcolumn, hmd'⟩ := columns_cons hmd
      rw [List.flatMap_cons] at hfields
      have hfield : f.encoded .text <+: bs.drop s.packet.pos := ⟨_, hfields.symm⟩
      by_cases hf : f.Good .text
      · obtain ⟨r, s1, hop, hholds, hpos⟩ :=
          parseColumn_accepts fl un buffer hcolumn hf hs hfield
        have hfields' : bs.drop s1.packet.pos = fields.flatMap (RowField.encoded .text) := by
          rw [hpos, ← List.drop_drop, hfields, List.drop_left]
        obtain ⟨hgood, hlen⟩ := ih hmd' hholds (Nat.le_of_succ_le_succ hleft) hfields'
          fun hthrows => hok (PacketIn.Throws.of_bind hop hthrows.bind)
        refine ⟨fun f' hf' => ?_, by rw [hlen, List.length_cons]⟩
        rcases List.mem_cons.mp hf' with rfl | hf'
        · exact hf
        · exact hgood f' hf'
      · have hthrows := parseColumn_throws fl buffer hcolumn (hdirty column) hf hs hsmall
          hfield
        exact absurd hthrows.bind hok

end RowReaderText

/-! ### Binary -/

theorem RowField.encoded_fixed {cm : ColumnDefinition} {value : List UInt8} {width : Nat}
    (h : cm.type.fixedWidth = some width) : RowField.encoded .binary (cm, some value) = value := by
  simp only [RowField.encoded, h]

theorem RowField.encoded_string {cm : ColumnDefinition} {value : List UInt8}
    (h : cm.type.fixedWidth = none) :
    RowField.encoded .binary (cm, some value) = lengthEncoded value := by
  simp only [RowField.encoded, h]

namespace RowReaderBinary

variable {m : Bytes} {md : ResultSetMetadata} {un : Uninit} {bs bitmap : List UInt8}

theorem parseColumn_accepts (un : Uninit) {column : Nat} {f : RowField} {s : PacketIn}
    (hmd : md.columns[column]? = some f.1) (hnull : nullBit bitmap column = .ok f.2.isNone)
    (hf : f.Good .binary) (hsized : f.Sized) (hs : PacketIn.Holds m s bs)
    (hfield : f.encoded .binary <+: bs.drop s.packet.pos) :
    ∃ value s', parseColumn m md un bitmap column s = (.ok value, s') ∧ PacketIn.Holds m s' bs ∧
      s'.packet.pos = s.packet.pos + (f.encoded .binary).length := by
  obtain ⟨cm, _ | value⟩ := f
  all_goals
    have hcolumn : md.getColumnDefinition column = .ok cm := by
      rw [ResultSetMetadata.getColumnDefinition, hmd]
    rw [parseColumn, hcolumn, PacketIn.bind_ok (show orThrow (.ok cm) s = (.ok cm, s) from rfl),
      hnull, PacketIn.bind_ok (show orThrow (.ok _) s = (.ok _, s) from rfl)]
  · exact ⟨un.values column, s, rfl, hs, rfl⟩
  · rw [if_neg (by simp)]
    obtain ⟨hsupported, hshort⟩ := hf value rfl
    rcases hwidth : cm.type.fixedWidth with _ | width
    · rw [RowField.encoded_string hwidth] at hfield ⊢
      obtain ⟨a, s', hop, hholds, hpos, -⟩ := exists_string (un.values column)
        ((un.locals column).clean_of_not_threeBytes hshort) hs hfield
      cases ht : cm.type <;> rw [ht] at hwidth hsupported <;> try cases hwidth
      all_goals
        first
        | (cases hsupported; done)
        | exact ⟨a, s', hop, hholds, hpos⟩
    · have hlen : value.length = width := hsized value width rfl hwidth
      rw [RowField.encoded_fixed hwidth] at hfield ⊢
      cases ht : cm.type <;> rw [ht] at hwidth <;> cases hwidth
      all_goals
        exact RowReaderText.accepted_of_reads
          ⟨_, PacketIn.reads_readFixedInteger m hlen (un.values column)⟩ hs rfl hfield

/-- A field that is not good ends the row, if the variables are dirty. -/
theorem parseColumn_throws {column : Nat} {f : RowField} {s : PacketIn}
    (hmd : md.columns[column]? = some f.1) (hnull : nullBit bitmap column = .ok f.2.isNone)
    (hdirty : un.locals column = dirty) (hf : ¬ f.Good .binary) (hsized : f.Sized)
    (hs : PacketIn.Holds m s bs) (hsmall : bs.length < 2 ^ 24 + 4)
    (hfield : f.encoded .binary <+: bs.drop s.packet.pos) :
    PacketIn.Throws (parseColumn m md un bitmap column) s := by
  obtain ⟨cm, _ | value⟩ := f
  · exact absurd nofun hf
  · have hcolumn : md.getColumnDefinition column = .ok cm := by
      rw [ResultSetMetadata.getColumnDefinition, hmd]
    unfold parseColumn
    rw [hcolumn, hnull]
    refine PacketIn.Throws.of_bind (show orThrow (.ok cm) s = (.ok cm, s) from rfl)
      (PacketIn.Throws.of_bind (show orThrow (.ok _) s = (.ok _, s) from rfl) ?_)
    rw [if_neg (by simp)]
    rcases hwidth : cm.type.fixedWidth with _ | width
    · rw [RowField.encoded_string hwidth] at hfield
      have hlt := Nat.lt_of_le_of_lt ((length_le_lengthEncoded value).trans hfield.length_le)
        hs.drop_lt
      obtain ⟨len, s1, hlen, hholds, hlong⟩ :=
        hs.dirty_length hlt ((List.prefix_append _ _).trans hfield)
      have hpos := hholds.pos_le
      have hbad : cm.type.supported .binary = true → 2 ^ 24 + 65536 ≤ len ∧ len < 2 ^ 25 := by
        intro hsupported
        refine hlong (not_not.mp fun hshort => hf fun v hv => ?_)
        obtain rfl := Option.some.inj hv
        exact ⟨hsupported, hshort⟩
      rw [hdirty]
      cases ht : cm.type <;> rw [ht] at hwidth hbad <;> try cases hwidth
      all_goals
        first
        | exact ⟨_, _, rfl⟩
        | obtain ⟨hlo, hhi⟩ := hbad rfl
          exact PacketIn.Throws.of_bind PacketIn.get_ok (PacketIn.Throws.of_bind hlen
            (hholds.skip_throws (by omega) (by omega)).bind)
    · refine absurd (fun v hv => ?_) hf
      obtain rfl := Option.some.inj hv
      have hlen : value.length = width := hsized value width rfl hwidth
      constructor
      · cases ht : cm.type <;> rw [ht] at hwidth <;> cases hwidth <;> rfl
      · rw [hlen]
        cases ht : cm.type <;> rw [ht] at hwidth <;> cases hwidth <;> decide

theorem nullBit_tail {f : RowField} {fields : List RowField} {column : Nat}
    (h : ∀ i f', (f :: fields)[i]? = some f' → nullBit bitmap (column + i) = .ok f'.2.isNone) :
    ∀ i f', fields[i]? = some f' → nullBit bitmap (column + 1 + i) = .ok f'.2.isNone := by
  intro i f' hf'
  rw [Nat.add_assoc, Nat.add_comm 1 i]
  exact h (i + 1) f' hf'

theorem parseColumns_accepts (un : Uninit) {fields : List RowField} {column : Nat}
    {s : PacketIn} (hmd : md.columns.drop column = fields.map Prod.fst)
    (hnull : ∀ i f, fields[i]? = some f → nullBit bitmap (column + i) = .ok f.2.isNone)
    (hgood : ∀ f ∈ fields, f.Good .binary) (hsized : ∀ f ∈ fields, f.Sized)
    (hs : PacketIn.Holds m s bs)
    (hfields : fields.flatMap (RowField.encoded .binary) <+: bs.drop s.packet.pos) :
    ∃ kept s', parseColumns m md un bitmap fields.length column s = (.ok kept, s') ∧
      PacketIn.Holds m s' bs := by
  induction fields generalizing column s with
  | nil => exact ⟨[], s, rfl, hs⟩
  | cons f fields ih =>
      obtain ⟨hcolumn, hmd'⟩ := columns_cons hmd
      rw [List.flatMap_cons] at hfields
      obtain ⟨value, s1, hop, hholds, hpos⟩ := parseColumn_accepts un hcolumn
        (hnull 0 f rfl) (hgood f List.mem_cons_self) (hsized f List.mem_cons_self) hs
        ((List.prefix_append _ _).trans hfields)
      have hfields' := prefix_drop_add hfields
      rw [← hpos] at hfields'
      obtain ⟨kept, s', hops, hholds'⟩ := ih hmd' (nullBit_tail hnull)
        (fun f' hf' => hgood f' (List.mem_cons_of_mem f hf'))
        (fun f' hf' => hsized f' (List.mem_cons_of_mem f hf')) hholds hfields'
      refine ⟨value :: kept, s', ?_, hholds'⟩
      rw [List.length_cons, parseColumns, PacketIn.bind_ok hop]
      exact PacketIn.bind_ok hops

theorem good_of_parseColumns {fields : List RowField} {column : Nat} {s : PacketIn}
    (hmd : md.columns.drop column = fields.map Prod.fst)
    (hnull : ∀ i f, fields[i]? = some f → nullBit bitmap (column + i) = .ok f.2.isNone)
    (hdirty : ∀ column, un.locals column = dirty) (hsized : ∀ f ∈ fields, f.Sized)
    (hs : PacketIn.Holds m s bs) (hsmall : bs.length < 2 ^ 24 + 4)
    (hfields : fields.flatMap (RowField.encoded .binary) <+: bs.drop s.packet.pos)
    (hok : ¬ PacketIn.Throws (parseColumns m md un bitmap fields.length column) s) :
    ∀ f ∈ fields, f.Good .binary := by
  induction fields generalizing column s with
  | nil => exact fun f hf => absurd hf List.not_mem_nil
  | cons f fields ih =>
      obtain ⟨hcolumn, hmd'⟩ := columns_cons hmd
      rw [List.flatMap_cons] at hfields
      have hfield := (List.prefix_append _ _).trans hfields
      by_cases hf : f.Good .binary
      · obtain ⟨value, s1, hop, hholds, hpos⟩ := parseColumn_accepts un hcolumn
          (hnull 0 f rfl) hf (hsized f List.mem_cons_self) hs hfield
        have hfields' := prefix_drop_add hfields
        rw [← hpos] at hfields'
        have hgood := ih hmd' (nullBit_tail hnull)
          (fun f' hf' => hsized f' (List.mem_cons_of_mem f hf')) hholds hfields'
          fun hthrows => hok (PacketIn.Throws.of_bind hop hthrows.bind)
        intro f' hf'
        rcases List.mem_cons.mp hf' with rfl | hf'
        · exact hf
        · exact hgood f' hf'
      · have hthrows := parseColumn_throws hcolumn (hnull 0 f rfl) (hdirty column) hf
          (hsized f List.mem_cons_self) hs hsmall hfield
        exact absurd hthrows.bind hok

/-- There is a definition for each round. -/
theorem le_of_parseColumns {left column : Nat} {s : PacketIn}
    (hok : ¬ PacketIn.Throws (parseColumns m md un bitmap left column) s) (hleft : 0 < left) :
    column + left ≤ md.columns.length := by
  induction left generalizing column s with
  | zero => exact absurd hleft (Nat.lt_irrefl 0)
  | succ left ih =>
      have hlt : column < md.columns.length := by
        by_contra hge
        have hcolumn : md.getColumnDefinition column = .error .outOfRange := by
          rw [ResultSetMetadata.getColumnDefinition,
            List.getElem?_eq_none (Nat.not_lt.mp hge)]
        refine hok (PacketIn.Throws.bind (PacketIn.Throws.bind ?_))
        rw [hcolumn]
        exact ⟨.outOfRange, s, rfl⟩
      rcases Nat.eq_zero_or_pos left with rfl | hpos
      · exact hlt
      · rcases hop : parseColumn m md un bitmap column s with ⟨e | value, s1⟩
        · exact absurd (PacketIn.Throws.bind ⟨e, s1, hop⟩) hok
        · have hrest : ¬ PacketIn.Throws (parseColumns m md un bitmap left (column + 1)) s1 :=
            fun hthrows => hok (PacketIn.Throws.of_bind hop hthrows.bind)
          have hle := ih hrest hpos
          omega

end RowReaderBinary

/-! ### Row readers -/

/-- The reader has taken the packet with the bytes `bs`. -/
def RowReader.Took (protocol : ProtocolType) (m : Bytes) (bs : List UInt8) (r : RowReader) :
    Prop :=
  match protocol, r with
  | .text, .text r => PacketIn.Holds m r.pktin bs
  | .binary, .binary r => PacketIn.Holds m r.pktin bs
  | _, _ => False

theorem length_le_rowPayload (protocol : ProtocolType) (fields : List RowField) :
    fields.length ≤ 8 * (rowPayload protocol fields).length := by
  cases protocol with
  | binary =>
      rw [rowPayload, List.length_cons, List.length_append, length_nullBitmap, List.length_map]
      omega
  | text =>
      induction fields with
      | nil => exact Nat.zero_le _
      | cons f fields ih =>
          obtain ⟨cm, value⟩ := f
          have hpos : 0 < (RowField.encoded .text (cm, value)).length := by
            cases value with
            | none => exact Nat.one_pos
            | some value => exact length_lengthEncoded_pos value
          rw [rowPayload] at ih ⊢
          rw [List.flatMap_cons, List.length_append, List.length_cons]
          omega

/-- The cursor of the binary reader behind the bitmap. -/
theorem RowReaderBinary.skipTo_fields {m : Bytes} {s : PacketIn} {head : List UInt8}
    {fields : List RowField} (hhead : head.length = 4)
    (hs : PacketIn.Holds m s (head ++ rowPayload .binary fields))
    (hsize : fields.length < 2 ^ 27) :
    ∃ s1 s2, PacketIn.skipTo 5 s.swap = (.ok (), s1) ∧
      PacketIn.getByte m (Gateway.u32 (fields.length + 7 + 2) / 8) s1 =
        (.ok (nullBitmap (fields.map fun f => f.2.isNone)), s2) ∧
      PacketIn.Holds m s2 (head ++ rowPayload .binary fields) ∧
      fields.flatMap (RowField.encoded .binary) <+:
        (head ++ rowPayload .binary fields).drop s2.packet.pos := by
  let bitmap := nullBitmap (fields.map fun f => f.2.isNone)
  have hbytes : head ++ rowPayload .binary fields =
      (head ++ [0]) ++ (bitmap ++ fields.flatMap (RowField.encoded .binary)) := by
    rw [rowPayload, List.append_assoc]
    rfl
  have hhead' : (head ++ [0]).length = 5 := by
    rw [List.length_append, hhead]
    rfl
  have hlen : Gateway.u32 (fields.length + 7 + 2) / 8 = bitmap.length := by
    rw [length_nullBitmap, List.length_map, Gateway.u32, Nat.mod_eq_of_lt (by omega)]
  rw [hbytes] at hs ⊢
  obtain ⟨s1, hskip, hholds, hprefix⟩ := skipTo_head hhead' hs
  obtain ⟨s2, hget, hholds2, hpos2⟩ := PacketIn.reads_getByte m bitmap s1 _ hholds
    ((List.prefix_append _ _).trans hprefix)
  refine ⟨s1, s2, hskip, hlen ▸ hget, hholds2, ?_⟩
  rw [hpos2]
  exact prefix_drop_add hprefix

theorem nullBit_fields {fields : List RowField} (i : Nat) (f : RowField)
    (hf : fields[i]? = some f) :
    RowReaderBinary.nullBit (nullBitmap (fields.map fun f => f.2.isNone)) (0 + i) =
      .ok f.2.isNone := by
  rw [Nat.zero_add]
  refine nullBit_nullBitmap ?_
  rw [List.getElem?_map, hf]
  rfl

namespace RowReader

variable {m : Bytes} {s : PacketIn} {head : List UInt8} {protocol : ProtocolType}
  {fields : List RowField}

theorem parseRowPacket_accepts (fl : Floats) (un : Uninit) (hhead : head.length = 4)
    (hs : PacketIn.Holds m s (head ++ rowPayload protocol fields))
    (hgood : ∀ f ∈ fields, f.Good protocol)
    (hsized : protocol = .binary → ∀ f ∈ fields, f.Sized) (hsize : fields.length < 2 ^ 27) :
    ∃ r, parseRowPacket m fl un protocol ⟨fields.map Prod.fst, fields.length⟩ s = .ok r ∧
      r.Took protocol m (head ++ rowPayload protocol fields) := by
  cases protocol with
  | text =>
      obtain ⟨s1, hskip, hholds, hbytes⟩ := skipTo_head hhead hs
      obtain ⟨kept, s2, hop, hholds2⟩ := RowReaderText.parseColumns_accepts fl un
        [] (show (ResultSetMetadata.mk (fields.map Prod.fst) fields.length).columns.drop 0 = _
          from List.drop_zero) hgood hholds hbytes
      refine ⟨.text ⟨s2, kept⟩, ?_, hholds2⟩
      rw [parseRowPacket, RowReaderText.parseRowPacket, RowReaderText.parseRow,
        PacketIn.bind_ok hskip, hop]
      rfl
  | binary =>
      obtain ⟨s1, s2, hskip, hget, hholds, hbytes⟩ :=
        RowReaderBinary.skipTo_fields hhead hs hsize
      obtain ⟨kept, s3, hop, hholds3⟩ := RowReaderBinary.parseColumns_accepts un
        (show (ResultSetMetadata.mk (fields.map Prod.fst) fields.length).columns.drop 0 = _
          from List.drop_zero) nullBit_fields hgood (hsized rfl) hholds hbytes
      have hparse : RowReaderBinary.parseRow m ⟨fields.map Prod.fst, fields.length⟩ un s.swap =
          (.ok (nullBitmap (fields.map fun f => f.2.isNone), kept), s3) := by
        rw [RowReaderBinary.parseRow, PacketIn.bind_ok hskip]
        exact (PacketIn.bind_ok hget).trans (PacketIn.bind_ok hop)
      refine ⟨.binary ⟨s3, ⟨fields.map Prod.fst, fields.length⟩,
        nullBitmap (fields.map fun f => f.2.isNone), kept⟩, ?_, hholds3⟩
      rw [parseRowPacket, RowReaderBinary.parseRowPacket, hparse]
      rfl

/-- A packet that is accepted with dirty variables has a good row, and `num_columns` is right. -/
theorem good_of_parseRowPacket {fl : Floats} {un : Uninit} {num : Nat} {r : RowReader}
    (hhead : head.length = 4) (hs : PacketIn.Holds m s (head ++ rowPayload protocol fields))
    (hdirty : ∀ column, un.locals column = dirty)
    (hsized : protocol = .binary → ∀ f ∈ fields, f.Sized)
    (hsmall : (rowPayload protocol fields).length < 2 ^ 24) (hpos : 0 < fields.length)
    (hnum : fields.length ≤ num)
    (hok : parseRowPacket m fl un protocol ⟨fields.map Prod.fst, num⟩ s = .ok r) :
    (∀ f ∈ fields, f.Good protocol) ∧ num = fields.length := by
  have hlen : (head ++ rowPayload protocol fields).length < 2 ^ 24 + 4 := by
    rw [List.length_append]
    omega
  have hsize := length_le_rowPayload protocol fields
  have hmd : (ResultSetMetadata.mk (fields.map Prod.fst) num).columns.drop 0 =
      fields.map Prod.fst := List.drop_zero
  cases protocol with
  | text =>
      obtain ⟨s1, hskip, hholds, hbytes⟩ := skipTo_head_eq hhead hs
      have hrun : ¬ PacketIn.Throws
          (RowReaderText.parseColumns m fl ⟨fields.map Prod.fst, num⟩ un num 0 []) s1 := by
        rintro ⟨e, s2, hthrows⟩
        rw [parseRowPacket, RowReaderText.parseRowPacket, RowReaderText.parseRow,
          PacketIn.bind_ok hskip, hthrows] at hok
        cases hok
      exact RowReaderText.good_of_parseColumns hmd hdirty hholds hlen hnum hbytes hrun
  | binary =>
      obtain ⟨s1, s2, hskip, hget, hholds, hbytes⟩ :=
        RowReaderBinary.skipTo_fields hhead hs (by omega)
      have hparse : ∀ e s', RowReaderBinary.parseRow m ⟨fields.map Prod.fst, num⟩ un s.swap ≠
          (.error e, s') := by
        intro e s' hthrows
        rw [parseRowPacket, RowReaderBinary.parseRowPacket, hthrows] at hok
        cases hok
      have hle : num ≤ fields.length := by
        rcases hget' : PacketIn.getByte m (Gateway.u32 (num + 7 + 2) / 8) s1 with ⟨e | bitmap, s3⟩
        · refine absurd ?_ (hparse e s3)
          rw [RowReaderBinary.parseRow, PacketIn.bind_ok hskip]
          exact PacketIn.bind_error hget'
        · have hrun : ¬ PacketIn.Throws
              (RowReaderBinary.parseColumns m ⟨fields.map Prod.fst, num⟩ un bitmap num 0) s3 := by
            rintro ⟨e, s4, hthrows⟩
            refine hparse e s4 ?_
            rw [RowReaderBinary.parseRow, PacketIn.bind_ok hskip]
            exact (PacketIn.bind_ok hget').trans (PacketIn.bind_error hthrows)
          have hle := RowReaderBinary.le_of_parseColumns hrun (Nat.lt_of_lt_of_le hpos hnum)
          rwa [Nat.zero_add, List.length_map] at hle
      obtain rfl : num = fields.length := Nat.le_antisymm hle hnum
      refine ⟨RowReaderBinary.good_of_parseColumns hmd nullBit_fields hdirty (hsized rfl) hholds
        hlen hbytes ?_, rfl⟩
      rintro ⟨e, s3, hthrows⟩
      refine hparse e s3 ?_
      rw [RowReaderBinary.parseRow, PacketIn.bind_ok hskip]
      exact (PacketIn.bind_ok hget).trans (PacketIn.bind_error hthrows)

end RowReader

end Jengine.Dbo.Internal
