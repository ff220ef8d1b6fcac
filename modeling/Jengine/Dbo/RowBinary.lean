import Jengine.Dbo.RowText

/-!
# The binary reader takes a row

`RowReaderBinary` (`base/dbo_bk/internal/rowreaderbinary.cpp`) on the binary encoding of a row.
Its switch names every type that a row can have, and the bytes of an integer go into the union as
they are.
-/

namespace Jengine.Dbo.Internal

open Jengine.Lib Jengine.Memory RefMemoryChunk

theorem length_nullBitmap (nulls : List Bool) :
    (nullBitmap nulls).length = (nulls.length + 9) / 8 := by
  rw [nullBitmap, List.length_map, List.length_range]

/-- The bitmap says which fields are NULL. -/
theorem nullBit_nullBitmap {nulls : List Bool} {column : Nat} {b : Bool}
    (h : nulls[column]? = some b) :
    RowReaderBinary.nullBit (nullBitmap nulls) column = .ok b := by
  have hlt : column < nulls.length := (List.getElem?_eq_some_iff.mp h).1
  have hbyte : (column + 2) / 8 < (nulls.length + 9) / 8 := by omega
  have hsplit : 8 * ((column + 2) / 8) + (column + 2) % 8 = column + 2 := Nat.div_add_mod _ _
  unfold RowReaderBinary.nullBit nullBitmap
  rw [List.getElem?_map, List.getElem?_range hbyte]
  simp only [Option.map_some]
  rw [UInt8.toNat_ofNat_of_lt' (Nat.ofBits_lt_two_pow _),
    Nat.testBit_ofBits_lt _ _ (Nat.mod_lt _ (by decide))]
  simp only [hsplit, Nat.add_sub_cancel, List.getD_eq_getElem?_getD, h, Option.getD_some]
  simp

theorem nullBit_nullsOf {row : List Cell} {column : Nat} {c : Cell}
    (hc : row[column]? = some c) :
    RowReaderBinary.nullBit (nullBitmap (nullsOf row)) column = .ok (decide (c.data = .null)) := by
  refine nullBit_nullBitmap ?_
  rw [nullsOf, List.getElem?_map, hc]
  rfl

namespace RowReaderBinary

variable {m : Bytes} {md : ResultSetMetadata} {un : Uninit} {bs : List UInt8}

/-- The bytes of a string have been passed over; the union holds where they are. -/
theorem exists_string (old : FieldValue) {l : Locals} {str : List UInt8} {s : PacketIn}
    (hclean : l.Clean str.length) (hs : PacketIn.Holds m s bs)
    (hfield : lengthEncoded str <+: bs.drop s.packet.pos) :
    ∃ value s', (do
      let s ← MonadState.get
      let len ← PacketIn.readVariableInteger m 32 l
      PacketIn.skip len
      return FieldValue.store old 4 s.packet.pos : PacketIn.Op FieldValue) s = (.ok value, s') ∧
        PacketIn.Holds m s' bs ∧ s'.packet.pos = s.packet.pos + (lengthEncoded str).length ∧
        lengthEncoded str <+: bs.drop value.bufferPos ∧ value.bufferPos ≤ bs.length := by
  have hlt := Nat.lt_of_le_of_lt ((length_le_lengthEncoded str).trans hfield.length_le) hs.drop_lt
  have hbuffer := bufferPos_store old (Nat.lt_of_le_of_lt hs.pos_le hs.fits)
  have hlen := PacketIn.reads_readVariableInteger m 32 l (v := str.length)
    (Nat.lt_trans hlt (by decide))
  rw [(l.decoded_eq_iff _).mpr hclean, Nat.mod_eq_of_lt hlt] at hlen
  obtain ⟨s', hrun, hholds, hpos⟩ := (hlen.bind (PacketIn.reads_skip m str)).map
    (f := fun _ => FieldValue.store old 4 s.packet.pos) s bs hs hfield
  refine ⟨FieldValue.store old 4 s.packet.pos, s', ?_, hholds, hpos, ?_⟩
  · rw [PacketIn.bind_get]
    rwa [bind_assoc] at hrun
  · rw [hbuffer]
    exact ⟨hfield, hs.pos_le⟩

/-- An integer has been read. -/
theorem exists_integer {old : FieldValue} {n : Nat} {v : Int} {type : MysqlFieldType}
    {s : PacketIn} (hn : type.binaryWidth = n) (hs : PacketIn.Holds m s bs)
    (hfield : toLE n (v % 256 ^ n).toNat <+: bs.drop s.packet.pos) :
    ∃ value s', PacketIn.readFixedInteger m n old s = (.ok value, s') ∧ PacketIn.Holds m s' bs ∧
      s'.packet.pos = s.packet.pos + (toLE n (v % 256 ^ n).toNat).length ∧
      Stores type.getterBits value v := by
  obtain ⟨s', hrun, hholds, hpos⟩ :=
    PacketIn.reads_readFixedInteger m (length_toLE n (v % 256 ^ n).toNat) old s bs hs hfield
  refine ⟨_, s', hrun, hholds, hpos, ?_⟩
  rw [MysqlFieldType.getterBits, hn]
  exact stores_store old (Nat.le_refl _) v

theorem parseColumn_spec {bitmap : List UInt8} {column : Nat} {c : Cell} {s : PacketIn}
    (hmd : md.columns[column]? = some c.definition)
    (hnull : nullBit bitmap column = .ok (decide (c.data = .null)))
    (hclean : (un.locals column).Clean c.data.length) (hs : PacketIn.Holds m s bs)
    (hfield : binaryField c <+: bs.drop s.packet.pos) :
    ∃ value s', parseColumn m md un bitmap column s = (.ok value, s') ∧ PacketIn.Holds m s' bs ∧
      s'.packet.pos = s.packet.pos + (binaryField c).length ∧
      Stored bs c.definition.type c.data value := by
  obtain ⟨cm, data, hadmissible⟩ := c
  have hcolumn : md.getColumnDefinition column = .ok cm := by
    rw [ResultSetMetadata.getColumnDefinition, hmd]
  rw [parseColumn, hcolumn, PacketIn.bind_ok (show orThrow (.ok cm) s = (.ok cm, s) from rfl),
    hnull, PacketIn.bind_ok (show orThrow (.ok _) s = (.ok _, s) from rfl)]
  cases data with
  | null => exact ⟨un.values column, s, rfl, hs, rfl, trivial⟩
  | int v =>
      rw [if_neg (by simp)]
      have hint := hadmissible
      obtain ⟨bits, hbits, -⟩ := hint
      cases ht : cm.type <;> rw [ht] at hbits <;> try contradiction
      all_goals
        rw [binaryField, ht] at hfield ⊢
        exact exists_integer rfl hs hfield
  | bytes str =>
      rw [if_neg (by simp)]
      rcases type_of_isString hadmissible with ht | ht | ht | ht | ht | ht | ht
      all_goals
        rw [ht]
        exact exists_string _ hclean hs hfield

theorem parseColumns_spec {bitmap : List UInt8} {rest : List Cell} {column : Nat} {s : PacketIn}
    (hmd : md.columns.drop column = rest.map Cell.definition)
    (hnull : ∀ i c, rest[i]? = some c →
      nullBit bitmap (column + i) = .ok (decide (c.data = .null)))
    (hclean : ∀ c ∈ rest, ∀ column, (un.locals column).Clean c.data.length)
    (hs : PacketIn.Holds m s bs) (hfields : rest.flatMap binaryField <+: bs.drop s.packet.pos) :
    ∃ fields s', parseColumns m md un bitmap rest.length column s = (.ok fields, s') ∧
      PacketIn.Holds m s' bs ∧
      List.Forall₂ (fun c => Stored bs c.definition.type c.data) rest fields := by
  induction rest generalizing column s with
  | nil => exact ⟨[], s, rfl, hs, .nil⟩
  | cons c rest ih =>
      obtain ⟨hcolumn, hmd'⟩ := columns_cons hmd
      rw [List.flatMap_cons] at hfields
      obtain ⟨value, s1, hop, hholds, hpos, hstored⟩ := parseColumn_spec hcolumn (hnull 0 c rfl)
        (hclean c List.mem_cons_self column) hs ((List.prefix_append _ _).trans hfields)
      have hfields' := prefix_drop_add hfields
      rw [← hpos] at hfields'
      have hnull' : ∀ i c, rest[i]? = some c →
          nullBit bitmap (column + 1 + i) = .ok (decide (c.data = .null)) := by
        intro i c' hc'
        rw [Nat.add_assoc, Nat.add_comm 1 i]
        exact hnull (i + 1) c' hc'
      obtain ⟨fields, s', hops, hholds', hall⟩ := ih hmd' hnull'
        (fun c' hc' => hclean c' (List.mem_cons_of_mem c hc')) hholds hfields'
      refine ⟨value :: fields, s', ?_, hholds', .cons hstored hall⟩
      rw [List.length_cons, parseColumns, PacketIn.bind_ok hop]
      exact PacketIn.bind_ok hops

/-- The packet has the bytes `bs`, and the reader has taken the row from it. -/
structure Reader (m : Bytes) (bs : List UInt8) (row : List Cell) (r : RowReaderBinary) : Prop where
  holds : PacketIn.Holds m r.pktin bs
  metadata : r.metadata = metadataOf row
  bitmap : r.bitmap = nullBitmap (nullsOf row)
  fields : List.Forall₂ (fun c => Stored bs c.definition.type c.data) row r.fields

variable {row : List Cell} {r : RowReaderBinary} {column : Nat} {c : Cell}

theorem exists_parseRowPacket (un : Uninit) {s : PacketIn} {head : List UInt8}
    (hhead : head.length = 4) (hs : PacketIn.Holds m s (head ++ binaryRow row))
    (hsize : row.length < 2 ^ 24)
    (hclean : ∀ c ∈ row, ∀ column, (un.locals column).Clean c.data.length) :
    ∃ r, parseRowPacket m (metadataOf row) un s = .ok r ∧
      Reader m (head ++ binaryRow row) row r := by
  have hbytes : head ++ binaryRow row =
      (head ++ [0]) ++ (nullBitmap (nullsOf row) ++ row.flatMap binaryField) := by
    rw [binaryRow, List.append_assoc]
    rfl
  have hhead' : (head ++ [0]).length = 5 := by
    rw [List.length_append, hhead]
    rfl
  have hlen : Gateway.u32 ((metadataOf row).numColumns + 7 + 2) / 8 =
      (nullBitmap (nullsOf row)).length := by
    rw [length_nullBitmap, nullsOf, List.length_map, Gateway.u32, Nat.mod_eq_of_lt]
    · rfl
    · show row.length + 7 + 2 < 2 ^ 32
      omega
  rw [hbytes] at hs ⊢
  obtain ⟨s1, hskip, hholds, hprefix⟩ := skipTo_head hhead' hs
  obtain ⟨s2, hget, hholds2, hpos2⟩ := PacketIn.reads_getByte m (nullBitmap (nullsOf row)) s1 _
    hholds ((List.prefix_append _ _).trans hprefix)
  have hfields := prefix_drop_add hprefix
  rw [← hpos2] at hfields
  have hnull : ∀ i c, row[i]? = some c →
      nullBit (nullBitmap (nullsOf row)) (0 + i) = .ok (decide (c.data = .null)) := by
    intro i c hc
    rw [Nat.zero_add]
    exact nullBit_nullsOf hc
  obtain ⟨fields, s3, hop, hholds3, hall⟩ :=
    parseColumns_spec (columns_metadataOf row) hnull hclean hholds2 hfields
  have hparse : parseRow m (metadataOf row) un s.swap =
      (.ok (nullBitmap (nullsOf row), fields), s3) := by
    rw [parseRow, PacketIn.bind_ok hskip]
    simp only [hlen]
    rw [PacketIn.bind_ok hget, show (metadataOf row).numColumns = row.length from rfl,
      PacketIn.bind_ok hop]
    rfl
  exact ⟨⟨s3, metadataOf row, nullBitmap (nullsOf row), fields⟩, by rw [parseRowPacket, hparse],
    hholds3, rfl, rfl, hall⟩

theorem Reader.isNull (h : Reader m bs row r) (hc : row[column]? = some c) :
    r.isNull column = .ok (decide (c.data = .null)) := by
  rw [RowReaderBinary.isNull, h.bitmap]
  exact nullBit_nullsOf hc

/-- A getter that allows the type of the column. -/
theorem Reader.getMember (h : Reader m bs row r) (hc : row[column]? = some c)
    (hne : c.data ≠ .null) :
    ∃ value, Stored bs c.definition.type c.data value ∧
      ∀ {α : Type} (member : FieldValue → α) (allowed : List MysqlFieldType),
        c.definition.type ∈ allowed →
          RowReaderBinary.getMember member allowed r column = .ok (member value) := by
  obtain ⟨value, hvalue, hstored⟩ := exists_getElem?_of_forall₂ h.fields hc
  refine ⟨value, hstored, fun member allowed hallowed => ?_⟩
  have hcolumn : r.metadata.getColumnDefinition column = .ok c.definition := by
    rw [h.metadata, ResultSetMetadata.getColumnDefinition, metadataOf, List.getElem?_map, hc]
    rfl
  unfold RowReaderBinary.getMember
  rw [hcolumn, h.isNull hc, hvalue, decide_eq_false hne]
  simp only [bind, Except.bind, hallowed, not_true_eq_false, if_false, pure, Except.pure]
  rfl

/-- A getter returns the value of the row, and keeps the reader. -/
theorem Reader.get_spec (h : Reader m bs row r) (hc : row[column]? = some c)
    (hne : c.data ≠ .null) {l : Locals} (hclean : l.Clean c.data.length) :
    ∃ r', get m l c.definition.getter r column = (.ok c.data, r') ∧ Reader m bs row r' := by
  obtain ⟨value, hstored, hmember⟩ := h.getMember hc hne
  have hadmissible := c.admissible
  cases hdata : c.data with
  | null => exact absurd hdata hne
  | int v =>
      rw [hdata] at hstored hadmissible
      have hof := ofMember_of_stores hadmissible hstored
      obtain ⟨bits, hbits, -⟩ := hadmissible
      refine ⟨r, ?_, h⟩
      cases ht : c.definition.type <;> rw [ht] at hbits <;> try contradiction
      all_goals
        cases hsigned : c.definition.isUnsigned
        all_goals
          rw [ColumnDefinition.getter, ht, hsigned] at hof ⊢
          rw [← Option.some.inj hof]
          exact congrArg (fun x => (Except.map _ x, r)) (hmember _ _ (by rw [ht]; decide))
  | bytes str =>
      rw [hdata] at hstored hadmissible hclean
      obtain ⟨hstr, hle⟩ := hstored
      have hallowed : c.definition.type ∈ ([.varString, .blob, .tinyBlob, .mediumBlob, .longBlob,
          .bit, .string, .varchar] : List MysqlFieldType) := by
        rcases type_of_isString hadmissible with ht | ht | ht | ht | ht | ht | ht
        all_goals
          rw [ht]
          decide
      have hlt : str.length < 2 ^ 32 :=
        Nat.lt_of_le_of_lt ((length_le_lengthEncoded str).trans hstr.length_le) h.holds.drop_lt
      obtain ⟨s, hskip, hholds, hpos⟩ := h.holds.skipTo hle
      obtain ⟨s', hread, hholds', -⟩ :=
        PacketIn.reads_readLengthEncodedString m [] hclean hlt s bs hholds (hpos ▸ hstr)
      refine ⟨{ r with pktin := s' }, ?_, hholds', h.metadata, h.bitmap, h.fields⟩
      rw [getter_of_isString hadmissible, get, getString,
        hmember FieldValue.bufferPos _ hallowed]
      simp only [PacketIn.bind_ok hskip, hread]
      rfl

end RowReaderBinary

end Jengine.Dbo.Internal
