import Jengine.Dbo.RowBinary

/-!
# The two row readers agree

`RowReaderText` and `RowReaderBinary` (`base/dbo_bk/internal/rowreadertext.cpp`,
`rowreaderbinary.cpp`) on the two encodings of one row.  They differ in three points: the switch
of the text reader has no `MYSQL_TYPE_INT24`, `strtoll` ends at `2 ^ 63 - 1`, and `GetString`
reads the length of a string again, in its three-byte form into a variable that is not
initialised.  Without a field of these kinds both give back the row, whatever is in memory.
-/

namespace Jengine.Dbo.Internal

open Jengine.Lib Jengine.Memory RefMemoryChunk

/-- A call of a getter on both readers: the column, and what each finds in the local variables. -/
structure Call (row : List Cell) where
  column : Fin row.length
  notNull : row[column].data ≠ .null
  text : Locals
  binary : Locals

/-- The cell that a call asks for. -/
def Call.cell {row : List Cell} (call : Call row) : Cell := row[call.column]

/-- Both readers accept the row, agree on which fields are NULL, and give back its values, in any
    order and any number of times. -/
def RowsAgree (row : List Cell) : Prop :=
  ∀ (m m' : Bytes) (s s' : PacketIn) (head head' : List UInt8) (fl : Floats) (un un' : Uninit),
    head.length = 4 → head'.length = 4 →
      PacketIn.Holds m s (head ++ textRow row) → PacketIn.Holds m' s' (head' ++ binaryRow row) →
        ∃ text binary, RowReaderText.parseRowPacket m fl (metadataOf row) un s = .ok text ∧
          RowReaderBinary.parseRowPacket m' (metadataOf row) un' s' = .ok binary ∧
          (∀ column < row.length, ∃ null, text.isNull column = .ok null ∧
            binary.isNull column = .ok null) ∧
          ∀ calls : List (Call row),
            getAll (fun call r => RowReaderText.get m call.text call.cell.definition.getter r
              call.column) calls text = calls.map (fun call => .ok call.cell.data) ∧
            getAll (fun call r => RowReaderBinary.get m' call.binary call.cell.definition.getter r
              call.column) calls binary = calls.map (fun call => .ok call.cell.data)

/-- The cell comes back through the text protocol: no `MYSQL_TYPE_INT24`, no number above the
    range of `strtoll`, and no string whose length has the three-byte form. -/
def Cell.Readable (c : Cell) : Prop :=
  match c.data with
  | .null => True
  | .int v => c.definition.type ≠ .int24 ∧ v < 2 ^ 63
  | .bytes str => str.length < 2 ^ 16

/-- One step of the readers carries over to any number of calls. -/
theorem getAll_eq {R C : Type} {get : C → R → Except Fault FieldData × R} {P : R → Prop}
    {value : C → FieldData}
    (h : ∀ call r, P r → ∃ r', get call r = (.ok (value call), r') ∧ P r') (calls : List C) {r : R}
    (hr : P r) : getAll get calls r = calls.map fun call => .ok (value call) := by
  induction calls generalizing r with
  | nil => rfl
  | cons call calls ih =>
      obtain ⟨r', hget, hr'⟩ := h call r hr
      rw [getAll, hget, ih hr', List.map_cons]

theorem length_le_textRow (row : List Cell) : row.length ≤ (textRow row).length := by
  induction row with
  | nil => exact Nat.zero_le _
  | cons c row ih =>
      have hpos : 0 < (textField c.data).length := by
        cases c.data with
        | null => exact Nat.one_pos
        | int v => exact length_lengthEncoded_pos (decimalInt v)
        | bytes str => exact length_lengthEncoded_pos str
      rw [textRow] at ih ⊢
      rw [List.flatMap_cons, List.length_append, List.length_cons]
      omega

theorem length_le_textRow_of_mem {row : List Cell} {c : Cell} (hc : c ∈ row) :
    c.data.length ≤ (textRow row).length := by
  obtain ⟨row1, row2, rfl⟩ := List.append_of_mem hc
  have hle := c.data.length_le_textField
  rw [textRow, List.flatMap_append, List.flatMap_cons, List.length_append, List.length_append]
  omega

namespace Cell.Readable

variable {c : Cell}

theorem clean (h : c.Readable) (l : Locals) : l.Clean c.data.length := by
  unfold Cell.Readable at h
  intro hlong
  cases hdata : c.data with
  | null =>
      rw [hdata] at hlong
      exact absurd hlong (show ¬ 65536 ≤ 0 by decide)
  | int v =>
      rw [hdata] at hlong
      exact absurd hlong (show ¬ 65536 ≤ 0 by decide)
  | bytes str =>
      rw [hdata] at h hlong
      exact absurd hlong (Nat.not_le.mpr h)

theorem parses (h : c.Readable) (un : Uninit) : RowReaderText.Parses un c := by
  refine ⟨fun hne ht => ?_, fun column => h.clean _⟩
  obtain ⟨v, hv⟩ := c.int_of_int24 ht hne
  rw [Cell.Readable, hv] at h
  exact h.1 ht

theorem viaText (h : c.Readable) : c.data.viaText = c.data := by
  have hadmissible := c.admissible
  unfold Cell.Readable at h
  cases hdata : c.data with
  | null => rfl
  | bytes str => rfl
  | int v =>
      rw [hdata] at h hadmissible
      rw [FieldData.viaText, clamp64_of_range hadmissible.range.1 h.2]

end Cell.Readable

theorem Call.getElem? {row : List Cell} (call : Call row) :
    row[call.column.val]? = some call.cell :=
  List.getElem?_eq_getElem call.column.isLt

theorem rowsAgree_of_readable {row : List Cell} (hrow : ∀ c ∈ row, c.Readable)
    (hsize : row.length < 2 ^ 24) : RowsAgree row := by
  intro m m' s s' head head' fl un un' hhead hhead' hs hs'
  obtain ⟨text, htext, hreader⟩ := RowReaderText.exists_parseRowPacket fl un hhead hs
    fun c hc => (hrow c hc).parses un
  obtain ⟨binary, hbinary, hreader'⟩ := RowReaderBinary.exists_parseRowPacket un' hhead'
    hs' hsize fun c hc column => (hrow c hc).clean _
  refine ⟨text, binary, htext, hbinary, fun column hcolumn => ?_, fun calls => ⟨?_, ?_⟩⟩
  · have hc := List.getElem?_eq_getElem hcolumn
    exact ⟨_, hreader.isNull hc, hreader'.isNull hc⟩
  · refine getAll_eq (fun call r hr => ?_) calls hreader
    have hreadable := hrow call.cell (List.mem_of_getElem? call.getElem?)
    have hget := hr.get_spec call.getElem? call.notNull (hreadable.clean call.text)
    rwa [hreadable.viaText] at hget
  · refine getAll_eq (fun call r hr => ?_) calls hreader'
    have hreadable := hrow call.cell (List.mem_of_getElem? call.getElem?)
    exact hr.get_spec call.getElem? call.notNull (hreadable.clean call.binary)

/-- Nothing but zeros in memory. -/
def zeroMemory : Uninit := ⟨fun _ => ⟨0, 0, 0⟩, fun _ => 0⟩

theorem clean_zero (n : Nat) : (⟨0, 0, 0⟩ : Locals).Clean n := fun _ _ => by decide

theorem exists_packet {xs : List UInt8} (h : xs.length < 2 ^ 24) :
    ∃ m s, PacketIn.Holds m s (List.replicate 4 0 ++ xs) := by
  have hlen : (List.replicate 4 0 ++ xs).length = 4 + xs.length := List.length_append
  have hne : List.replicate 4 0 ++ xs ≠ [] := List.length_pos_iff.mp (by omega)
  obtain ⟨m, s, hs, -⟩ := PacketIn.exists_holds hne (by omega)
  exact ⟨m, s, hs⟩

/-- What is needed of one cell shows in a text packet, and in one call. -/
theorem RowsAgree.exists_text {row : List Cell} (h : RowsAgree row)
    (htext : (textRow row).length < 2 ^ 24) (hbinary : (binaryRow row).length < 2 ^ 24) :
    ∃ m bs r, RowReaderText.Reader m bs row r ∧
      (∀ c ∈ row, c.data ≠ .null → c.definition.type ≠ .int24) ∧
      ∀ column c l, row[column]? = some c → c.data ≠ .null →
        (RowReaderText.get m l c.definition.getter r column).1 = .ok c.data := by
  obtain ⟨m, s, hs⟩ := exists_packet htext
  obtain ⟨m', s', hs'⟩ := exists_packet hbinary
  obtain ⟨text, binary, hparse, -, -, hcalls⟩ :=
    h m m' s s' _ _ ⟨fun _ => 0, fun _ => 0⟩ zeroMemory zeroMemory rfl rfl hs hs'
  have hclean : ∀ c ∈ row, ∀ column, (zeroMemory.locals column).Clean c.data.length :=
    fun c _ _ => clean_zero _
  have hne := RowReaderText.ne_int24_of_parseRowPacket rfl hs hclean hparse
  obtain ⟨r, hr, hreader⟩ := RowReaderText.exists_parseRowPacket
    ⟨fun _ => 0, fun _ => 0⟩ zeroMemory rfl hs fun c hc => ⟨hne c hc, hclean c hc⟩
  obtain rfl := Except.ok.inj (hparse.symm.trans hr)
  refine ⟨m, _, text, hreader, hne, fun column c l hc hnotNull => ?_⟩
  obtain ⟨hlt, rfl⟩ := List.getElem?_eq_some_iff.mp hc
  exact List.head_eq_of_cons_eq (hcalls [⟨⟨column, hlt⟩, hnotNull, l, l⟩]).1

theorem RowsAgree.readable {row : List Cell} (h : RowsAgree row)
    (htext : (textRow row).length < 2 ^ 24) (hbinary : (binaryRow row).length < 2 ^ 24) :
    ∀ c ∈ row, c.Readable := by
  intro c hc
  obtain ⟨m, bs, r, hreader, hne, hget⟩ := h.exists_text htext hbinary
  obtain ⟨column, hcolumn⟩ := List.getElem?_of_mem hc
  unfold Cell.Readable
  cases hdata : c.data with
  | null => exact trivial
  | int v =>
      have hnotNull : c.data ≠ .null := by
        rw [hdata]
        exact nofun
      refine ⟨hne c hc hnotNull, ?_⟩
      obtain ⟨r', hread, -⟩ := hreader.get_spec hcolumn hnotNull (clean_zero _)
      have hsame := hget column c ⟨0, 0, 0⟩ hcolumn hnotNull
      rw [hread, hdata] at hsame
      have hclamp : clamp64 v = v := FieldData.int.inj (Except.ok.inj hsame)
      unfold clamp64 at hclamp
      omega
  | bytes str =>
      have hnotNull : c.data ≠ .null := by
        rw [hdata]
        exact nofun
      by_contra hlong
      have hle := length_le_textRow_of_mem hc
      rw [hdata] at hle
      -- the stack holds a one in the byte that the three-byte form leaves alone
      have hdirty : ¬ (⟨0, 16777216, 0⟩ : Locals).Clean str.length := fun hclean =>
        absurd (hclean (Nat.not_lt.mp hlong) (Nat.lt_of_le_of_lt hle htext)) (by decide)
      have hsame := hget column c ⟨0, 16777216, 0⟩ hcolumn hnotNull
      obtain ⟨s, hholds, hstr, hread⟩ := hreader.getString hcolumn hdata ⟨0, 16777216, 0⟩
      rw [hread, hdata] at hsame
      rcases hstring : PacketIn.readLengthEncodedString m ⟨0, 16777216, 0⟩ [] s
        with ⟨e | got, s'⟩
      · rw [hstring] at hsame
        cases hsame
      · rw [hstring] at hsame
        obtain rfl : got = str := FieldData.bytes.inj (Except.ok.inj hsame)
        exact PacketIn.readLengthEncodedString_ne hdirty
          (Nat.lt_trans (Nat.lt_of_le_of_lt hle htext) (by decide)) hholds
          ((List.prefix_append _ _).trans hstr) hstring

/-- Both readers give back a row iff the text reader can. -/
theorem rowsAgree_iff_readable (row : List Cell) (htext : (textRow row).length < 2 ^ 24)
    (hbinary : (binaryRow row).length < 2 ^ 24) :
    RowsAgree row ↔ ∀ c ∈ row, c.Readable :=
  ⟨fun h => h.readable htext hbinary, fun hrow => rowsAgree_of_readable hrow
    (Nat.lt_of_le_of_lt (length_le_textRow row) htext)⟩

/-- A column of a type, with its flag. -/
def columnOf (type : MysqlFieldType) (flag : UInt16) : ColumnDefinition :=
  ⟨[], [], [], [], [], [], 12, 63, 11, type, flag, 0, 0⟩

/-- A NULL, a `TINYINT` and a `VARCHAR`. -/
def smallRow : List Cell :=
  [⟨columnOf .int24 0, .null, trivial⟩, ⟨columnOf .tiny 0, .int (-1), 8, by decide⟩,
    ⟨columnOf .varString 0, .bytes [104, 105], rfl⟩]

theorem rowsAgree_iff_readable_smallRow :
    (textRow smallRow).length < 2 ^ 24 ∧ (binaryRow smallRow).length < 2 ^ 24 ∧
      (RowsAgree smallRow ↔ ∀ c ∈ smallRow, c.Readable) :=
  ⟨by decide +kernel, by decide +kernel,
    rowsAgree_iff_readable smallRow (by decide +kernel) (by decide +kernel)⟩

/-- The largest `BIGINT UNSIGNED`. -/
def largestRow : List Cell :=
  [⟨columnOf .longlong 32, .int 18446744073709551615, 64, by decide⟩]

/-- The text reader makes `2 ^ 63 - 1` of it. -/
theorem not_rowsAgree_largestRow : ¬ ∀ row : List Cell, (textRow row).length < 2 ^ 24 →
    (binaryRow row).length < 2 ^ 24 → RowsAgree row := by
  intro hall
  have htext : (textRow largestRow).length < 2 ^ 24 := by decide +kernel
  have hbinary : (binaryRow largestRow).length < 2 ^ 24 := by decide +kernel
  have hreadable := (hall largestRow htext hbinary).readable htext hbinary _ List.mem_cons_self
  exact absurd hreadable.2 (by decide)

end Jengine.Dbo.Internal
