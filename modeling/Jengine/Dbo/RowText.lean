import Jengine.Dbo.RowEncoding

/-!
# The text reader takes a row

`RowReaderText` (`base/dbo_bk/internal/rowreadertext.cpp`) on the text encoding of a row: every
integer is read as `strtoll` reads it, a string is left in the packet, and a column whose type
the switch does not name ends the row.  The lemmas on fields that start here are about the bytes
of a packet, and both readers use them.
-/

namespace Jengine.Dbo.Internal

open Jengine.Lib Jengine.Memory RefMemoryChunk

/-! ### Fields in the bytes of a packet -/

/-- The bits that the getter of an integer type returns. -/
def MysqlFieldType.getterBits (t : MysqlFieldType) : Nat := 8 * t.binaryWidth

/-- The union holds what a getter returns `data` from; a string is in the bytes `bs`. -/
def Stored (bs : List UInt8) (type : MysqlFieldType) (data : FieldData) (value : FieldValue) :
    Prop :=
  match data with
  | .null => True
  | .int v => Stores type.getterBits value v
  | .bytes str => lengthEncoded str <+: bs.drop value.bufferPos ∧ value.bufferPos ≤ bs.length

/-- What the text reader makes of a value. -/
def FieldData.viaText : FieldData → FieldData
  | .int v => .int (clamp64 v)
  | data => data

/-- The length that is read before a field, if it is a string. -/
def FieldData.length : FieldData → Nat
  | .bytes str => str.length
  | _ => 0

theorem length_le_lengthEncoded (str : List UInt8) : str.length ≤ (lengthEncoded str).length := by
  rw [lengthEncoded, List.length_append]
  exact Nat.le_add_left _ _

theorem FieldData.length_le_textField (data : FieldData) :
    data.length ≤ (textField data).length := by
  cases data with
  | null => exact Nat.zero_le _
  | int v => exact Nat.zero_le _
  | bytes str => exact length_le_lengthEncoded str

/-- What is behind a prefix. -/
theorem prefix_drop_add {xs ys bs : List UInt8} {pos : Nat} (h : xs ++ ys <+: bs.drop pos) :
    ys <+: bs.drop (pos + xs.length) := by
  obtain ⟨zs, hzs⟩ := h
  rw [← List.drop_drop, ← hzs, List.append_assoc, List.drop_left]
  exact List.prefix_append ys zs

theorem exists_getElem?_of_forall₂ {α β : Type} {R : α → β → Prop} {xs : List α} {ys : List β}
    (h : List.Forall₂ R xs ys) {i : Nat} {x : α} (hx : xs[i]? = some x) :
    ∃ y, ys[i]? = some y ∧ R x y := by
  obtain ⟨hi, rfl⟩ := List.getElem?_eq_some_iff.mp hx
  have hi' : i < ys.length := h.length_eq ▸ hi
  exact ⟨ys[i], List.getElem?_eq_getElem hi', h.get hi hi'⟩

theorem columns_metadataOf (row : List Cell) :
    (metadataOf row).columns.drop 0 = row.map Cell.definition := List.drop_zero

theorem columns_cons {α : Type} {f : α → ColumnDefinition} {md : ResultSetMetadata}
    {column : Nat} {x : α} {xs : List α} (h : md.columns.drop column = (x :: xs).map f) :
    md.columns[column]? = some (f x) ∧ md.columns.drop (column + 1) = xs.map f := by
  constructor
  · rw [← List.head?_drop, h]
    rfl
  · rw [← List.tail_drop, h]
    rfl

theorem prefix_textRow_cons {c : Cell} {rest : List Cell} {bs : List UInt8} {pos : Nat}
    (h : textRow (c :: rest) <+: bs.drop pos) :
    textField c.data <+: bs.drop pos ∧
      textRow rest <+: bs.drop (pos + (textField c.data).length) := by
  rw [textRow, List.flatMap_cons] at h
  exact ⟨(List.prefix_append _ _).trans h, prefix_drop_add h⟩

theorem exists_lengthEncoded (str : List UInt8) :
    ∃ b rest, lengthEncoded str = b :: rest ∧ b ≠ 0xFB := by
  unfold lengthEncoded variableInteger
  split
  · rename_i hshort
    refine ⟨UInt8.ofNat str.length, str, rfl, fun heq => ?_⟩
    have hnat := congrArg UInt8.toNat heq
    rw [UInt8.toNat_ofNat_of_lt' (Nat.lt_trans hshort (by decide))] at hnat
    exact absurd hshort (by rw [hnat]; decide)
  · split
    · exact ⟨0xfc, _, rfl, by decide⟩
    · split
      · exact ⟨0xfd, _, rfl, by decide⟩
      · exact ⟨0xfe, _, rfl, by decide⟩

theorem length_lengthEncoded_pos (str : List UInt8) : 0 < (lengthEncoded str).length := by
  obtain ⟨b, rest, hfirst, -⟩ := exists_lengthEncoded str
  rw [hfirst]
  exact Nat.succ_pos _

/-- The first byte of a value does not mark NULL. -/
theorem PacketIn.Holds.currentByte_lengthEncoded {m : Bytes} {s : PacketIn} {bs str : List UInt8}
    (h : PacketIn.Holds m s bs) (hfield : lengthEncoded str <+: bs.drop s.packet.pos) :
    ∃ b, PacketIn.currentByte m s = (.ok b, s) ∧ b ≠ 0xFB := by
  obtain ⟨b, rest, hfirst, hb⟩ := exists_lengthEncoded str
  obtain ⟨zs, hzs⟩ := hfield
  have hdrop : bs.drop s.packet.pos = b :: (rest ++ zs) := by
    rw [← hzs, hfirst, List.cons_append]
  exact ⟨b, h.currentByte hdrop, hb⟩

theorem length_decimalInt_lt {v : Int} (hlo : -2 ^ 64 ≤ v) (hhi : v < 2 ^ 64) :
    (decimalInt v).length < 251 := by
  have habs : v.natAbs < 10 ^ 20 := by omega
  have hlen : (decimal v.natAbs).length ≤ 20 := by
    rw [decimal, List.length_map]
    exact (Nat.length_toDigits_le_iff (by decide) (by decide)).mpr habs
  unfold decimalInt
  split
  · rw [List.length_cons]
    omega
  · omega

theorem intBits_le {t : MysqlFieldType} {bits : Nat} (h : t.intBits = some bits) :
    0 < bits ∧ bits ≤ 64 ∧ bits ≤ t.getterBits := by
  cases t <;> simp [MysqlFieldType.intBits] at h <;> subst h <;> decide

theorem type_of_intBits {t : MysqlFieldType} {bits : Nat} (h : t.intBits = some bits)
    (hne : t ≠ .int24) : t = .tiny ∨ t = .short ∨ t = .long ∨ t = .longlong := by
  cases t <;> simp [MysqlFieldType.intBits] at h hne ⊢

theorem type_of_isString {t : MysqlFieldType} (h : t.isString = true) :
    t = .varchar ∨ t = .varString ∨ t = .string ∨ t = .tinyBlob ∨ t = .mediumBlob ∨
      t = .longBlob ∨ t = .blob := by
  cases t <;> simp [MysqlFieldType.isString] at h ⊢

/-- A position is kept in the union as it is. -/
theorem bufferPos_store (old : FieldValue) {pos : Nat} (h : pos < 2 ^ 32) :
    (FieldValue.store old 4 pos).bufferPos = pos := by
  have hstores := (stores_store old (w := 32) (n := 4) (by decide) pos).toNat (by omega) (by omega)
  rw [BitVec.toNat_ofNat] at hstores
  exact_mod_cast hstores

theorem Cell.int_of_int24 (c : Cell) (ht : c.definition.type = .int24) (hne : c.data ≠ .null) :
    ∃ v, c.data = .int v := by
  obtain ⟨cm, data, hadmissible⟩ := c
  cases data with
  | null => exact absurd rfl hne
  | int v => exact ⟨v, rfl⟩
  | bytes str =>
      rw [Admissible, ht] at hadmissible
      cases hadmissible

/-- Every integer is in 65 bits. -/
theorem Admissible.range {cm : ColumnDefinition} {v : Int} (h : Admissible cm (.int v)) :
    -2 ^ 63 ≤ v ∧ v < 2 ^ 64 := by
  obtain ⟨bits, hbits, hrange⟩ := h
  obtain ⟨hpos, hle, -⟩ := intBits_le hbits
  have hfull : (2 : Int) ^ bits ≤ 2 ^ 64 := pow_le_pow_right₀ (by decide) hle
  have hhalf : (2 : Int) ^ (bits - 1) ≤ 2 ^ 63 := pow_le_pow_right₀ (by decide) (by omega)
  split at hrange
  · omega
  · omega

namespace PacketIn

theorem reads_orThrow (m : Bytes) {α : Type} (a : α) : Reads m (orThrow (.ok a)) [] a :=
  fun s _ h _ => ⟨s, rfl, h, rfl⟩

theorem Holds.drop_lt {m : Bytes} {s : PacketIn} {bs : List UInt8} (h : Holds m s bs) {pos : Nat} :
    (bs.drop pos).length < 2 ^ 32 := by
  rw [List.length_drop]
  exact Nat.lt_of_le_of_lt (Nat.sub_le _ _) h.fits

theorem get_ok {s : PacketIn} : (MonadState.get : Op PacketIn) s = (.ok s, s) := rfl

theorem bind_get {β : Type} {f : PacketIn → Op β} {s : PacketIn} :
    ((MonadState.get : Op PacketIn) >>= f) s = f s s := rfl

end PacketIn

/-- A row reader goes behind the head of the packet. -/
theorem skipTo_head_eq {m : Bytes} {s : PacketIn} {head xs : List UInt8} {n : Nat}
    (hhead : head.length = n) (hs : PacketIn.Holds m s (head ++ xs)) :
    ∃ s', PacketIn.skipTo n s.swap = (.ok (), s') ∧ PacketIn.Holds m s' (head ++ xs) ∧
      (head ++ xs).drop s'.packet.pos = xs := by
  have hle : n ≤ (head ++ xs).length := by
    rw [List.length_append]
    omega
  obtain ⟨s', hskip, hholds, hpos⟩ := hs.skipTo_swap hle
  refine ⟨s', hskip, hholds, ?_⟩
  rw [hpos, ← hhead, List.drop_left]

theorem skipTo_head {m : Bytes} {s : PacketIn} {head xs : List UInt8} {n : Nat}
    (hhead : head.length = n) (hs : PacketIn.Holds m s (head ++ xs)) :
    ∃ s', PacketIn.skipTo n s.swap = (.ok (), s') ∧ PacketIn.Holds m s' (head ++ xs) ∧
      xs <+: (head ++ xs).drop s'.packet.pos := by
  obtain ⟨s', hskip, hholds, hbytes⟩ := skipTo_head_eq hhead hs
  refine ⟨s', hskip, hholds, ?_⟩
  rw [hbytes]

/-! ### The members of the union -/

/-- What a getter makes of the union; `GetString` reads on in the packet. -/
def Getter.ofMember : Getter → FieldValue → Option FieldData
  | .int8, value => some (.int value.int8.toInt)
  | .uint8, value => some (.int value.uint8.toNat)
  | .int16, value => some (.int value.int16.toInt)
  | .uint16, value => some (.int value.uint16.toNat)
  | .int32, value => some (.int value.int32.toInt)
  | .uint32, value => some (.int value.uint32.toNat)
  | .int64, value => some (.int value.int64.toInt)
  | .uint64, value => some (.int value.uint64.toNat)
  | .string, _ => none

/-- The getter of an integer type returns what has been stored. -/
theorem ofMember_of_stores {cm : ColumnDefinition} {v : Int} {value : FieldValue}
    (h : Admissible cm (.int v)) (hvalue : Stores cm.type.getterBits value v) :
    cm.getter.ofMember value = some (.int v) := by
  obtain ⟨bits, hbits, hrange⟩ := h
  obtain ⟨hpos, -, hle⟩ := intBits_le hbits
  have hfull : (2 : Int) ^ bits ≤ 2 ^ cm.type.getterBits := pow_le_pow_right₀ (by decide) hle
  have hhalf : (2 : Int) ^ (bits - 1) ≤ 2 ^ (cm.type.getterBits - 1) :=
    pow_le_pow_right₀ (by decide) (Nat.sub_le_sub_right hle 1)
  cases hsigned : cm.isUnsigned with
  | true =>
      rw [hsigned, if_pos rfl] at hrange
      have hread := hvalue.toNat hrange.1 (by omega)
      cases ht : cm.type <;> rw [ht] at hbits <;> try contradiction
      all_goals
        rw [ht] at hread
        rw [ColumnDefinition.getter, ht, hsigned]
        exact congrArg (fun v => some (FieldData.int v)) hread
  | false =>
      rw [hsigned, if_neg (by decide)] at hrange
      have hread := hvalue.toInt (by omega) (by omega) (by omega)
      cases ht : cm.type <;> rw [ht] at hbits <;> try contradiction
      all_goals
        rw [ht] at hread
        rw [ColumnDefinition.getter, ht, hsigned]
        exact congrArg (fun v => some (FieldData.int v)) hread

/-- `strtoll` stays in the range of the type. -/
theorem Admissible.viaText {cm : ColumnDefinition} {data : FieldData} (h : Admissible cm data) :
    Admissible cm data.viaText := by
  cases data with
  | null => exact trivial
  | bytes str => exact h
  | int v =>
      have hint := h
      obtain ⟨hlo, hhi⟩ := hint.range
      obtain ⟨bits, hbits, hrange⟩ := h
      obtain ⟨hpos, hle, -⟩ := intBits_le hbits
      have hhalf : (2 : Int) ^ (bits - 1) ≤ 2 ^ 63 := pow_le_pow_right₀ (by decide) (by omega)
      refine ⟨bits, hbits, ?_⟩
      unfold clamp64
      split at hrange
      · rw [if_pos (by assumption)]
        omega
      · rw [if_neg (by assumption)]
        omega

theorem getter_of_isString {cm : ColumnDefinition} (h : cm.type.isString = true) :
    cm.getter = .string := by
  rcases type_of_isString h with ht | ht | ht | ht | ht | ht | ht
  all_goals rw [ColumnDefinition.getter, ht]

/-! ### The text reader -/

namespace RowReaderText

variable {m : Bytes} {fl : Floats} {md : ResultSetMetadata} {un : Uninit} {bs : List UInt8}

/-- A field as the reader keeps it. -/
def Kept (bs : List UInt8) (c : Cell) (f : Field) : Prop :=
  f.isNull = decide (c.data = .null) ∧ Stored bs c.definition.type c.data.viaText f.value

/-- The column is not one that the switch lacks, and the length of a string is read right. -/
def Parses (un : Uninit) (c : Cell) : Prop :=
  (c.data ≠ .null → c.definition.type ≠ .int24) ∧
    ∀ column, (un.locals column).Clean c.data.length

/-- The length and the column have been read. -/
theorem reads_header {column n : Nat} {cm : ColumnDefinition} {ys : List UInt8} {α : Type} {a : α}
    {g : Nat → ColumnDefinition → PacketIn.Op α} (hmd : md.columns[column]? = some cm)
    (hclean : (un.locals column).Clean n) (hn : n < 2 ^ 32)
    (hg : PacketIn.Reads m (g n cm) ys a) :
    PacketIn.Reads m (do
      let len ← PacketIn.readVariableInteger m 32 (un.locals column)
      let cm ← orThrow (md.getColumnDefinition column)
      g len cm) (variableInteger n ++ ys) a := by
  have hlen := PacketIn.reads_readVariableInteger m 32 (un.locals column) (v := n)
    (Nat.lt_trans hn (by decide))
  rw [((un.locals column).decoded_eq_iff n).mpr hclean, Nat.mod_eq_of_lt hn] at hlen
  have hcolumn : md.getColumnDefinition column = .ok cm := by
    rw [ResultSetMetadata.getColumnDefinition, hmd]
  rw [hcolumn]
  exact hlen.bind ((PacketIn.reads_orThrow m cm).bind hg)

/-- What has been read is kept. -/
theorem kept_of_reads {s : PacketIn} {pos : Nat} {c : Cell} {a : Field × List UInt8}
    {xs : List UInt8} {op : PacketIn.Op (Field × List UInt8)} (hop : PacketIn.Reads m op xs a)
    (hs : PacketIn.Holds m s bs) (hpos : s.packet.pos = pos) (hxs : xs <+: bs.drop pos)
    (ha : Kept bs c a.1) :
    ∃ f' buffer' s', op s = (.ok (f', buffer'), s') ∧ PacketIn.Holds m s' bs ∧
      s'.packet.pos = pos + xs.length ∧ Kept bs c f' := by
  subst hpos
  obtain ⟨s', hrun, hholds, hpos⟩ := hop s bs hs hxs
  exact ⟨a.1, a.2, s', hrun, hholds, hpos, ha⟩

/-- The text of an integer has been read. -/
theorem reads_number (m : Bytes) {old : FieldValue} {n : Nat} {v : Int} (buffer : List UInt8) :
    PacketIn.Reads m (do
      let buffer ← PacketIn.readFixedString m buffer (decimalInt v).length
      return ((⟨false, FieldValue.store old n (strtoll buffer)⟩ : Field), buffer))
      (decimalInt v) (⟨false, FieldValue.store old n (clamp64 v)⟩, decimalInt v) := by
  rw [← strtoll_decimalInt]
  exact (PacketIn.reads_readFixedString m buffer (decimalInt v)).map
    (f := fun buffer => ((⟨false, FieldValue.store old n (strtoll buffer)⟩ : Field), buffer))

/-- The bytes of a string have been passed over. -/
theorem reads_string (m : Bytes) (f : Field) (buffer str : List UInt8) :
    PacketIn.Reads m (do
      PacketIn.skip str.length
      return (f, buffer)) str (f, buffer) :=
  (PacketIn.reads_skip m str).map (f := fun _ => (f, buffer))

theorem parseColumn_spec {column : Nat} {c : Cell} {s : PacketIn} (buffer : List UInt8)
    (hmd : md.columns[column]? = some c.definition) (hc : Parses un c) (hs : PacketIn.Holds m s bs)
    (hfield : textField c.data <+: bs.drop s.packet.pos) :
    ∃ f buffer' s', parseColumn m fl md un column buffer s = (.ok (f, buffer'), s') ∧
      PacketIn.Holds m s' bs ∧ s'.packet.pos = s.packet.pos + (textField c.data).length ∧
      Kept bs c f := by
  have hlen := Nat.lt_of_le_of_lt (c.data.length_le_textField.trans hfield.length_le) hs.drop_lt
  obtain ⟨cm, data, hadmissible⟩ := c
  cases data with
  | null =>
      obtain ⟨zs, hzs⟩ := hfield
      have hcurrent := hs.currentByte (show bs.drop s.packet.pos = 0xFB :: zs from hzs.symm)
      rw [parseColumn, PacketIn.bind_get, PacketIn.bind_ok hcurrent, if_pos rfl]
      exact kept_of_reads (reads_string m ⟨true, un.values column⟩ buffer [0xFB]) hs rfl ⟨zs, hzs⟩
        ⟨rfl, trivial⟩
  | int v =>
      obtain ⟨b, hcurrent, hb⟩ := hs.currentByte_lengthEncoded hfield
      rw [parseColumn, PacketIn.bind_get, PacketIn.bind_ok hcurrent, if_neg hb]
      generalize hpos : s.packet.pos = pos at hfield ⊢
      obtain ⟨hlo, hhi⟩ := hadmissible.range
      have hshort := length_decimalInt_lt (Int.le_trans (by decide) hlo) hhi
      have hclean : (un.locals column).Clean (decimalInt v).length := fun hlong => by omega
      have hn : (decimalInt v).length < 2 ^ 32 := Nat.lt_trans hshort (by decide)
      have hint := hadmissible
      obtain ⟨bits, hbits, -⟩ := hint
      rcases type_of_intBits hbits (hc.1 nofun) with ht | ht | ht | ht
      case inr.inr.inr =>
        refine kept_of_reads
          (a := (⟨false, FieldValue.store (un.values column) 8 (clamp64 v)⟩, decimalInt v))
          (reads_header hmd hclean hn ?_) hs hpos hfield ⟨rfl, stores_store _ ?_ _⟩
        · rw [ht]
          exact reads_number m buffer
        · rw [ht]
          decide
      all_goals
        refine kept_of_reads
          (a := (⟨false, FieldValue.store (un.values column) 4 (clamp64 v)⟩, decimalInt v))
          (reads_header hmd hclean hn ?_) hs hpos hfield ⟨rfl, stores_store _ ?_ _⟩
        · rw [ht]
          exact reads_number m buffer
        · rw [ht]
          decide
  | bytes str =>
      obtain ⟨b, hcurrent, hb⟩ := hs.currentByte_lengthEncoded hfield
      have hbuffer := bufferPos_store (un.values column) (Nat.lt_of_le_of_lt hs.pos_le hs.fits)
      have hle := hs.pos_le
      rw [parseColumn, PacketIn.bind_get, PacketIn.bind_ok hcurrent, if_neg hb]
      generalize hpos : s.packet.pos = pos at hfield hbuffer hle ⊢
      have hstored :
          Stored bs cm.type (.bytes str) (FieldValue.store (un.values column) 4 pos) := by
        rw [Stored, hbuffer]
        exact ⟨hfield, hle⟩
      rcases type_of_isString hadmissible with ht | ht | ht | ht | ht | ht | ht
      all_goals
        refine kept_of_reads (a := (⟨false, FieldValue.store (un.values column) 4 pos⟩, buffer))
          (reads_header hmd (hc.2 column) hlen ?_) hs hpos hfield ⟨rfl, hstored⟩
        rw [ht]
        exact reads_string m _ buffer str

theorem parseColumns_spec {rest : List Cell} {column : Nat} {s : PacketIn} (buffer : List UInt8)
    (hmd : md.columns.drop column = rest.map Cell.definition) (hrest : ∀ c ∈ rest, Parses un c)
    (hs : PacketIn.Holds m s bs) (hfields : textRow rest <+: bs.drop s.packet.pos) :
    ∃ fields s', parseColumns m fl md un rest.length column buffer s = (.ok fields, s') ∧
      PacketIn.Holds m s' bs ∧ List.Forall₂ (Kept bs) rest fields := by
  induction rest generalizing column s buffer with
  | nil => exact ⟨[], s, rfl, hs, .nil⟩
  | cons c rest ih =>
      obtain ⟨hcolumn, hmd'⟩ := columns_cons hmd
      obtain ⟨hfield, hfields'⟩ := prefix_textRow_cons hfields
      obtain ⟨f, buffer', s1, hop, hholds, hpos, hkept⟩ :=
        parseColumn_spec buffer hcolumn (hrest c List.mem_cons_self) hs hfield
      rw [← hpos] at hfields'
      obtain ⟨fields, s', hops, hholds', hall⟩ := ih buffer' hmd'
        (fun c' hc' => hrest c' (List.mem_cons_of_mem c hc')) hholds hfields'
      refine ⟨f :: fields, s', ?_, hholds', .cons hkept hall⟩
      rw [List.length_cons, parseColumns, PacketIn.bind_ok hop]
      exact PacketIn.bind_ok hops

/-- The switch has no `MYSQL_TYPE_INT24`. -/
theorem parseColumn_int24 {column : Nat} {cm : ColumnDefinition} {v : Int} {s : PacketIn}
    (buffer : List UInt8) (hmd : md.columns[column]? = some cm)
    (hadmissible : Admissible cm (.int v)) (ht : cm.type = .int24) (hs : PacketIn.Holds m s bs)
    (hfield : textField (.int v) <+: bs.drop s.packet.pos) :
    ∃ s', parseColumn m fl md un column buffer s =
      (.error (.exception "not support mysql type"), s') := by
  obtain ⟨b, hcurrent, hb⟩ := hs.currentByte_lengthEncoded hfield
  obtain ⟨hlo, hhi⟩ := hadmissible.range
  have hshort := length_decimalInt_lt (Int.le_trans (by decide) hlo) hhi
  have hlen := PacketIn.reads_readVariableInteger m 32 (un.locals column)
    (v := (decimalInt v).length) (Nat.lt_trans hshort (by decide))
  have hcolumn : md.getColumnDefinition column = .ok cm := by
    rw [ResultSetMetadata.getColumnDefinition, hmd]
  obtain ⟨s1, hread, -, -⟩ := hlen s bs hs ((List.prefix_append _ _).trans hfield)
  refine ⟨s1, ?_⟩
  rw [parseColumn, PacketIn.bind_get, PacketIn.bind_ok hcurrent, if_neg hb,
    PacketIn.bind_ok hread, hcolumn, PacketIn.bind_ok (show orThrow (.ok cm) s1 = (.ok cm, s1)
      from rfl), ht]
  rfl

/-- A row that is accepted has no such column. -/
theorem ne_int24_of_parseColumns {rest : List Cell} {column : Nat} {s s' : PacketIn}
    {buffer : List UInt8} {fields : List Field}
    (hmd : md.columns.drop column = rest.map Cell.definition)
    (hclean : ∀ c ∈ rest, ∀ column, (un.locals column).Clean c.data.length)
    (hs : PacketIn.Holds m s bs) (hfields : textRow rest <+: bs.drop s.packet.pos)
    (hok : parseColumns m fl md un rest.length column buffer s = (.ok fields, s')) :
    ∀ c ∈ rest, c.data ≠ .null → c.definition.type ≠ .int24 := by
  induction rest generalizing column s s' buffer fields with
  | nil => exact fun c hc => absurd hc List.not_mem_nil
  | cons c rest ih =>
      obtain ⟨hcolumn, hmd'⟩ := columns_cons hmd
      obtain ⟨hfield, hfields'⟩ := prefix_textRow_cons hfields
      rw [List.length_cons, parseColumns] at hok
      have hc : c.data ≠ .null → c.definition.type ≠ .int24 := by
        intro hne ht
        obtain ⟨v, hv⟩ := c.int_of_int24 ht hne
        obtain ⟨s1, hop⟩ := parseColumn_int24 buffer hcolumn (hv ▸ c.admissible) ht hs
          (hv ▸ hfield)
        rw [PacketIn.bind_error hop] at hok
        cases hok
      obtain ⟨f, buffer', s1, hop, hholds, hpos, -⟩ :=
        parseColumn_spec buffer hcolumn ⟨hc, hclean c List.mem_cons_self⟩ hs hfield
      rw [← hpos] at hfields'
      rw [PacketIn.bind_ok hop] at hok
      intro c' hc'
      rcases List.mem_cons.mp hc' with rfl | hc'
      · exact hc
      · rcases hops : parseColumns m fl md un rest.length (column + 1) buffer' s1 with ⟨e | fs, s2⟩
        · have herr := (PacketIn.bind_error hops).symm.trans hok
          cases herr
        · exact ih hmd' (fun c hc => hclean c (List.mem_cons_of_mem _ hc)) hholds hfields' hops
            c' hc'

/-- The packet has the bytes `bs`, and the fields of the row have been kept. -/
structure Reader (m : Bytes) (bs : List UInt8) (row : List Cell) (r : RowReaderText) : Prop where
  holds : PacketIn.Holds m r.pktin bs
  fields : List.Forall₂ (Kept bs) row r.fields

variable {row : List Cell} {r : RowReaderText} {column : Nat} {c : Cell}

theorem Reader.field (h : Reader m bs row r) (hc : row[column]? = some c) :
    ∃ f, r.field column = .ok f ∧ Kept bs c f := by
  obtain ⟨f, hf, hkept⟩ := exists_getElem?_of_forall₂ h.fields hc
  exact ⟨f, by rw [RowReaderText.field, hf], hkept⟩

theorem Reader.isNull (h : Reader m bs row r) (hc : row[column]? = some c) :
    r.isNull column = .ok (decide (c.data = .null)) := by
  obtain ⟨f, hf, hnull, -⟩ := h.field hc
  rw [RowReaderText.isNull, hf, ← hnull]
  rfl

theorem get_ofMember {l : Locals} {g : Getter} {value : FieldValue} {data : FieldData}
    (hf : r.field column = .ok ⟨false, value⟩) (hg : g.ofMember value = some data) :
    get m l g r column = (.ok data, r) := by
  have hmember {α : Type} (member : FieldValue → α) :
      getMember member r column = .ok (member value) := by
    rw [getMember, hf]
    rfl
  cases g with
  | string => cases hg
  | _ =>
      obtain rfl := Option.some.inj hg
      exact congrArg (fun x => (Except.map _ x, r)) (hmember _)

/-- `GetString` goes to where the string is, and reads it again. -/
theorem Reader.getString (h : Reader m bs row r) (hc : row[column]? = some c) {str : List UInt8}
    (hdata : c.data = .bytes str) (l : Locals) :
    ∃ s, PacketIn.Holds m s bs ∧ lengthEncoded str <+: bs.drop s.packet.pos ∧
      get m l c.definition.getter r column =
        ((PacketIn.readLengthEncodedString m l [] s).1.map .bytes,
          { r with pktin := (PacketIn.readLengthEncodedString m l [] s).2 }) := by
  obtain ⟨f, hf, hnull, hstored⟩ := h.field hc
  have hstring := c.admissible
  rw [hdata] at hnull hstored hstring
  obtain ⟨hstr, hle⟩ := hstored
  obtain ⟨s, hskip, hholds, hpos⟩ := h.holds.skipTo hle
  refine ⟨s, hholds, hpos ▸ hstr, ?_⟩
  have hmember : getMember FieldValue.bufferPos r column = .ok f.value.bufferPos := by
    rw [getMember, hf]
    show (if f.isNull then throw _ else pure f.value.bufferPos : Except Fault Nat) = _
    rw [hnull]
    rfl
  rw [getter_of_isString hstring, get, RowReaderText.getString, hmember]
  simp only [PacketIn.bind_ok hskip]
  rfl

/-- A getter returns the value that has been read, and keeps the reader. -/
theorem Reader.get_spec (h : Reader m bs row r) (hc : row[column]? = some c)
    (hne : c.data ≠ .null) {l : Locals} (hclean : l.Clean c.data.length) :
    ∃ r', get m l c.definition.getter r column = (.ok c.data.viaText, r') ∧
      Reader m bs row r' := by
  cases hdata : c.data with
  | null => exact absurd hdata hne
  | int v =>
      obtain ⟨f, hf, hnull, hstored⟩ := h.field hc
      have hadmissible := c.admissible.viaText
      rw [hdata] at hnull hstored hadmissible
      have hfield : r.field column = .ok ⟨false, f.value⟩ := by
        rw [hf, ← show f.isNull = false from hnull]
      exact ⟨r, get_ofMember hfield (ofMember_of_stores hadmissible hstored), h⟩
  | bytes str =>
      obtain ⟨s, hholds, hstr, hget⟩ := h.getString hc hdata l
      rw [hdata] at hclean
      have hlt : str.length < 2 ^ 32 :=
        Nat.lt_of_le_of_lt ((length_le_lengthEncoded str).trans hstr.length_le) hholds.drop_lt
      obtain ⟨s', hread, hholds', -⟩ :=
        PacketIn.reads_readLengthEncodedString m [] hclean hlt s bs hholds hstr
      rw [hread] at hget
      exact ⟨_, hget, hholds', h.fields⟩

theorem exists_parseRowPacket (fl : Floats) (un : Uninit) {s : PacketIn} {head : List UInt8}
    (hhead : head.length = 4)
    (hs : PacketIn.Holds m s (head ++ textRow row)) (hrow : ∀ c ∈ row, Parses un c) :
    ∃ r, parseRowPacket m fl (metadataOf row) un s = .ok r ∧
      Reader m (head ++ textRow row) row r := by
  obtain ⟨s1, hskip, hholds, hbytes⟩ := skipTo_head hhead hs
  obtain ⟨fields, s2, hop, hholds2, hall⟩ :=
    parseColumns_spec [] (columns_metadataOf row) hrow hholds hbytes
  have hparse : parseRow m fl (metadataOf row) un s.swap = (.ok fields, s2) := by
    rw [parseRow, PacketIn.bind_ok hskip]
    exact hop
  exact ⟨⟨s2, fields⟩, by rw [parseRowPacket, hparse], hholds2, hall⟩

theorem ne_int24_of_parseRowPacket {s : PacketIn} {head : List UInt8} (hhead : head.length = 4)
    (hs : PacketIn.Holds m s (head ++ textRow row))
    (hclean : ∀ c ∈ row, ∀ column, (un.locals column).Clean c.data.length)
    (hok : parseRowPacket m fl (metadataOf row) un s = .ok r) :
    ∀ c ∈ row, c.data ≠ .null → c.definition.type ≠ .int24 := by
  obtain ⟨s1, hskip, hholds, hbytes⟩ := skipTo_head hhead hs
  rw [parseRowPacket, parseRow, PacketIn.bind_ok hskip] at hok
  rcases hparse : parseColumns m fl (metadataOf row) un row.length 0 [] s1 with ⟨e | fields, s2⟩
  · rw [show (metadataOf row).numColumns = row.length from rfl, hparse] at hok
    cases hok
  · exact ne_int24_of_parseColumns (columns_metadataOf row) hclean hholds hbytes hparse

end RowReaderText

end Jengine.Dbo.Internal
