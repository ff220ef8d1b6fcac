import Jengine.Dbo.ResponseSteps

/-!
# A response is parsed

`Parse` is called with the packets of a response, one after the other.  It should return true at
the last of them and at no other, keep one row reader for each row, and have an error iff the
response ends with an ERR packet.  It does so iff no ERR packet ends a result set, whose code it
does not look at, and no length or number of columns has the three-byte form, which is read into
a variable that is not initialised, and the types of the fields are those the row readers know.
There is memory for the columns that the response has, and perhaps for no more.
-/

namespace Jengine.Dbo.Internal

open Jengine.Lib Jengine.Memory RefMemoryChunk

/-! ### Packets, one after the other -/

/-- A packet from the server, whose head has been read; `un` is what the variables hold while it
    is parsed. -/
structure Arrival where
  mem : Bytes
  un : Uninit
  pktin : PacketIn
  bytes : List UInt8
  holds : PacketIn.Holds mem pktin bytes
  cursor : pktin.packet.pos = 4
  head : bytes.take 3 = toLE 3 (bytes.length - 4)

/-- What is behind the head. -/
def Arrival.payload (p : Arrival) : List UInt8 := p.bytes.drop 4

/-- The header and the payload of a packet, as they lie in the chunks. -/
theorem Arrival.exists_head (p : Arrival) {xs : List UInt8} (hp : p.payload = xs) :
    ∃ head, head.length = 4 ∧ p.bytes = head ++ xs ∧ PacketIn.Holds p.mem p.pktin (head ++ xs) := by
  have hle := p.holds.pos_le
  rw [p.cursor] at hle
  have hbytes : p.bytes = p.bytes.take 4 ++ xs := by
    rw [← hp, Arrival.payload, List.take_append_drop]
  exact ⟨p.bytes.take 4, List.length_take_of_le hle, hbytes, hbytes ▸ p.holds⟩

theorem Arrival.drop_pos (p : Arrival) : p.bytes.drop p.pktin.packet.pos = p.payload := by
  rw [p.cursor, Arrival.payload]

theorem Arrival.length_bytes (p : Arrival) : p.bytes.length = p.payload.length + 4 := by
  have hle := p.holds.pos_le
  rw [p.cursor] at hle
  rw [Arrival.payload, List.length_drop]
  omega

/-- Every payload arrives in some packet, and finds the variables dirty. -/
theorem exists_arrivals (payloads : List (List UInt8))
    (hfits : ∀ payload ∈ payloads, payload.length < 2 ^ 24 - 1) :
    ∃ packets : List Arrival, packets.map Arrival.payload = payloads ∧
      ∀ p ∈ packets, ∀ k, p.un.locals k = dirty := by
  induction payloads with
  | nil => exact ⟨[], rfl, fun p hp => absurd hp List.not_mem_nil⟩
  | cons payload payloads ih =>
      obtain ⟨packets, hpackets, hdirty⟩ := ih fun q hq => hfits q (List.mem_cons_of_mem _ hq)
      have hfit := hfits payload List.mem_cons_self
      let bytes := (toLE 3 payload.length ++ [0]) ++ payload
      have hhead : (toLE 3 payload.length ++ [0]).length = 4 := by
        rw [List.length_append, length_toLE]
        rfl
      have hlen : bytes.length = 4 + payload.length := by
        rw [List.length_append, hhead]
      obtain ⟨m, s, hs, -⟩ := PacketIn.exists_holds (List.length_pos_iff.mp (by omega))
        (show bytes.length < 2 ^ 32 by omega)
      obtain ⟨s', -, hholds, hpos⟩ := hs.skipTo (show 4 ≤ bytes.length by omega)
      have htake : bytes.take 3 = toLE 3 (bytes.length - 4) := by
        rw [hlen, Nat.add_sub_cancel_left]
        show (toLE 3 payload.length ++ [0] ++ payload).take 3 = _
        rw [List.append_assoc]
        exact List.take_left' (length_toLE _ _)
      refine ⟨⟨m, ⟨fun _ => dirty, fun _ => 0⟩, s', bytes, hholds, hpos, htake⟩ :: packets, ?_, ?_⟩
      · rw [List.map_cons, hpackets, Arrival.payload, List.drop_left' hhead]
      · intro p hp
        rcases List.mem_cons.mp hp with rfl | hp
        · exact fun _ => rfl
        · exact hdirty p hp

namespace ResultSet

/-- `Parse` of one packet after the other: what it returns each time, and the result set. -/
def parseAll (fl : Floats) (room : Nat) (protocol : ProtocolType) :
    List Arrival → ResultSet → Except Fault (List Bool × ResultSet)
  | [], rs => .ok ([], rs)
  | p :: ps, rs =>
      match parse p.mem fl p.un room protocol (rs, p.pktin) with
      | (.ok b, rs', _) => (parseAll fl room protocol ps rs').map fun r => (b :: r.1, r.2)
      | (.error e, _) => .error e

/-- The reader has taken the packet. -/
def Kept (protocol : ProtocolType) (p : Arrival) (reader : RowReader) : Prop :=
  reader.Took protocol p.mem p.bytes

end ResultSet

/-- `Parse` returns true exactly at the last packet, there is one row reader for each row packet,
    in order, and `HasError` says whether an ERR packet ended the response, with its code; there
    is memory for `room` column definitions, which is enough for those of the response. -/
def Response.Conforms (protocol : ProtocolType) (r : Response) : Prop :=
  ∀ (fl : Floats) (room : Nat) (packets : List Arrival), r.columnCount ≤ room →
    packets.map Arrival.payload = r.payloads protocol →
    ∃ rs, ResultSet.parseAll fl room protocol packets .make =
        .ok (List.replicate (packets.length - 1) false ++ [true], rs) ∧
      List.Forall₂ (ResultSet.Kept protocol) (r.rowPackets packets) rs.rowReaders ∧
      (rs.hasError = true ↔ ∃ code, r.error = some code) ∧
      ∀ code, r.error = some code → rs.errorCode = code

/-- No ERR packet behind column definitions, no error code 0, no length or number of columns with
    the three-byte form, and no type that the row reader does not know. -/
def Response.Readable (protocol : ProtocolType) : Response → Prop
  | .ok .. => True
  | .err code _ => code ≠ 0
  | .resultset columns _ _ rows ending =>
      (∃ warnings statusFlag, ending = .eof warnings statusFlag) ∧
        (∀ cm ∈ columns, ∀ str ∈ cm.strings, ¬ ThreeBytes str.length) ∧
        ¬ ThreeBytes columns.length ∧
        ∀ row ∈ rows, ∀ f ∈ columns.zip row, RowField.Good protocol f

namespace ResultSet

variable {fl : Floats} {room : Nat} {protocol : ProtocolType} {rs rs' : ResultSet}

theorem parseAll_cons {p : Arrival} {b : Bool} {s' : PacketIn}
    (h : parse p.mem fl p.un room protocol (rs, p.pktin) = (.ok b, rs', s')) (ps : List Arrival) :
    parseAll fl room protocol (p :: ps) rs =
      (parseAll fl room protocol ps rs').map fun r => (b :: r.1, r.2) := by
  rw [parseAll, h]

theorem map_prepend_nil (x : Except Fault (List Bool × ResultSet)) :
    x.map (fun r => ([] ++ r.1, r.2)) = x := by
  cases x <;> rfl

theorem map_prepend_cons (x : Except Fault (List Bool × ResultSet)) (b : Bool) (n : Nat) :
    (x.map fun r => (List.replicate n b ++ r.1, r.2)).map (fun r => (b :: r.1, r.2)) =
      x.map fun r => (List.replicate (n + 1) b ++ r.1, r.2) := by
  cases x <;> rfl

theorem ok_of_map {x : Except Fault (List Bool × ResultSet)} {r : List Bool × ResultSet}
    {f : List Bool × ResultSet → List Bool × ResultSet} (h : x.map f = .ok r) :
    ∃ r', x = .ok r' ∧ f r' = r := by
  cases x with
  | error e => cases h
  | ok r' => exact ⟨r', rfl, Except.ok.inj h⟩

/-- The column definitions of a response. -/
theorem parseAll_columns (fl : Floats) (room : Nat) (protocol : ProtocolType)
    {columns : List ColumnDefinition} {cs : List Arrival}
    (hphase : rs.phase = .parseColumnDefinition)
    (hcs : cs.map Arrival.payload = columns.map columnPayload)
    (hfits : ∀ cm ∈ columns, (columnPayload cm).length < 2 ^ 24)
    (hcode : ∀ cm ∈ columns, MysqlFieldType.ofCode cm.type.code = cm.type)
    (hshort : ∀ cm ∈ columns, ∀ str ∈ cm.strings, ¬ ThreeBytes str.length)
    (rest : List Arrival) :
    parseAll fl room protocol (cs ++ rest) rs =
      (parseAll fl room protocol rest (rs.addColumns columns)).map fun r =>
        (List.replicate columns.length false ++ r.1, r.2) := by
  induction columns generalizing cs rs with
  | nil =>
      obtain rfl := List.map_eq_nil_iff.mp hcs
      rw [addColumns_nil]
      exact (map_prepend_nil _).symm
  | cons cm columns ih =>
      obtain ⟨p, cs, rfl, hp, hcs⟩ := List.map_eq_cons_iff.mp hcs
      obtain ⟨s', hparse⟩ := parse_column fl p.un room protocol hphase p.holds (p.drop_pos.trans hp)
        (hfits cm List.mem_cons_self) (hcode cm List.mem_cons_self)
        (hshort cm List.mem_cons_self)
      have hrest := ih (show (rs.addColumns [cm]).phase = _ from hphase) hcs
        (fun c hc => hfits c (List.mem_cons_of_mem cm hc))
        (fun c hc => hcode c (List.mem_cons_of_mem cm hc))
        (fun c hc => hshort c (List.mem_cons_of_mem cm hc))
      rw [List.cons_append, parseAll_cons hparse, hrest, addColumns_append,
        List.singleton_append]
      exact map_prepend_cons _ _ _

/-- The columns of the fields of a row. -/
theorem fields_of_row {columns : List ColumnDefinition} {row : List (Option (List UInt8))}
    (hrow : row.length = columns.length) :
    (columns.zip row).map Prod.fst = columns ∧ (columns.zip row).length = columns.length := by
  constructor
  · exact List.map_fst_zip (Nat.le_of_eq hrow.symm)
  · rw [List.length_zip, hrow, Nat.min_self]

/-- The rows of a response. -/
theorem parseAll_rows (fl : Floats) (room : Nat) {columns : List ColumnDefinition}
    {rows : List (List (Option (List UInt8)))} {ps : List Arrival}
    (hphase : rs.phase = .parseResultsetRow)
    (hmd : rows ≠ [] → rs.metadata = ⟨columns, columns.length⟩)
    (hps : ps.map Arrival.payload = rows.map fun row => rowPayload protocol (columns.zip row))
    (hpos : 0 < columns.length) (hlen : ∀ row ∈ rows, row.length = columns.length)
    (hfits : ∀ row ∈ rows, (rowPayload protocol (columns.zip row)).length < 2 ^ 24)
    (hsized : ∀ row ∈ rows, protocol = .binary → ∀ f ∈ columns.zip row, RowField.Sized f)
    (hgood : ∀ row ∈ rows, ∀ f ∈ columns.zip row, RowField.Good protocol f)
    (rest : List Arrival) :
    ∃ readers, List.Forall₂ (Kept protocol) ps readers ∧
      parseAll fl room protocol (ps ++ rest) rs =
        (parseAll fl room protocol rest (rs.addReaders readers)).map fun r =>
          (List.replicate rows.length false ++ r.1, r.2) := by
  induction rows generalizing ps rs with
  | nil =>
      obtain rfl := List.map_eq_nil_iff.mp hps
      refine ⟨[], .nil, ?_⟩
      rw [addReaders_nil]
      exact (map_prepend_nil _).symm
  | cons row rows ih =>
      obtain ⟨p, ps, rfl, hp, hps⟩ := List.map_eq_cons_iff.mp hps
      obtain ⟨head, hhead, hbytes, hholds⟩ := p.exists_head hp
      obtain ⟨hfst, hzip⟩ := fields_of_row (hlen row List.mem_cons_self)
      have hmd' := hmd (List.cons_ne_nil _ _)
      have hmeta : rs.metadata = ⟨(columns.zip row).map Prod.fst, (columns.zip row).length⟩ := by
        rw [hfst, hzip, hmd']
      obtain ⟨reader, s', hparse, htook⟩ := parse_row fl p.un room hphase hmeta hhead hholds
        p.cursor (hzip ▸ hpos) (hfits row List.mem_cons_self) (hgood row List.mem_cons_self)
        (hsized row List.mem_cons_self)
      rw [← hbytes] at htook
      obtain ⟨readers, hall, hrest⟩ := ih (show (rs.addReaders [reader]).phase = _ from hphase)
        (fun _ => hmd') hps
        (fun r hr => hlen r (List.mem_cons_of_mem row hr))
        (fun r hr => hfits r (List.mem_cons_of_mem row hr))
        (fun r hr => hsized r (List.mem_cons_of_mem row hr))
        (fun r hr => hgood r (List.mem_cons_of_mem row hr))
      refine ⟨reader :: readers, .cons htook hall, ?_⟩
      rw [List.cons_append, parseAll_cons hparse, hrest, addReaders_append,
        List.singleton_append]
      exact map_prepend_cons _ _ _

/-- Definitions that are all parsed with dirty variables. -/
theorem short_of_parseAll {columns : List ColumnDefinition} {cs rest : List Arrival}
    {r : List Bool × ResultSet} (hphase : rs.phase = .parseColumnDefinition)
    (hcs : cs.map Arrival.payload = columns.map columnPayload)
    (hfits : ∀ cm ∈ columns, (columnPayload cm).length < 2 ^ 24)
    (hcode : ∀ cm ∈ columns, MysqlFieldType.ofCode cm.type.code = cm.type)
    (hdirty : ∀ p ∈ cs, ∀ k, p.un.locals k = dirty)
    (hok : parseAll fl room protocol (cs ++ rest) rs = .ok r) :
    ∀ cm ∈ columns, ∀ str ∈ cm.strings, ¬ ThreeBytes str.length := by
  induction columns generalizing cs rs r with
  | nil => exact fun cm hcm => absurd hcm List.not_mem_nil
  | cons cm columns ih =>
      obtain ⟨p, cs, rfl, hp, hcs⟩ := List.map_eq_cons_iff.mp hcs
      have hfit := hfits cm List.mem_cons_self
      have hsmall : p.bytes.length < 2 ^ 24 + 4 := by
        rw [p.length_bytes, hp]
        exact Nat.add_lt_add_right hfit 4
      have hshort : ∀ str ∈ cm.strings, ¬ ThreeBytes str.length := by
        intro str hstr hthree
        obtain ⟨e, st', hthrows⟩ := parse_column_throws fl p.un room protocol hphase p.holds
          (p.drop_pos.trans hp) hfit hsmall (hdirty p List.mem_cons_self) ⟨str, hstr, hthree⟩
        rw [List.cons_append, parseAll, hthrows] at hok
        cases hok
      obtain ⟨s', hparse⟩ := parse_column fl p.un room protocol hphase p.holds (p.drop_pos.trans hp)
        hfit (hcode cm List.mem_cons_self) hshort
      rw [List.cons_append, parseAll_cons hparse] at hok
      obtain ⟨r', hrest, -⟩ := ok_of_map hok
      have hall := ih (show (rs.addColumns [cm]).phase = _ from hphase) hcs
        (fun c hc => hfits c (List.mem_cons_of_mem cm hc))
        (fun c hc => hcode c (List.mem_cons_of_mem cm hc))
        (fun q hq => hdirty q (List.mem_cons_of_mem p hq)) hrest
      intro c hc
      rcases List.mem_cons.mp hc with rfl | hc
      · exact hshort
      · exact hall c hc

/-- Rows that are all parsed with dirty variables. -/
theorem good_of_parseAll {columns : List ColumnDefinition} {num : Nat}
    {rows : List (List (Option (List UInt8)))} {ps rest : List Arrival}
    {r : List Bool × ResultSet} (hphase : rs.phase = .parseResultsetRow)
    (hmd : rs.metadata = ⟨columns, num⟩) (hnum : rows ≠ [] → columns.length ≤ num)
    (hps : ps.map Arrival.payload = rows.map fun row => rowPayload protocol (columns.zip row))
    (hpos : 0 < columns.length) (hlen : ∀ row ∈ rows, row.length = columns.length)
    (hfits : ∀ row ∈ rows, (rowPayload protocol (columns.zip row)).length < 2 ^ 24)
    (hsized : ∀ row ∈ rows, protocol = .binary → ∀ f ∈ columns.zip row, RowField.Sized f)
    (hdirty : ∀ p ∈ ps, ∀ k, p.un.locals k = dirty)
    (hok : parseAll fl room protocol (ps ++ rest) rs = .ok r) :
    (∀ row ∈ rows, ∀ f ∈ columns.zip row, RowField.Good protocol f) ∧
      (rows ≠ [] → num = columns.length) := by
  induction rows generalizing ps rs r with
  | nil => exact ⟨fun row hrow => absurd hrow List.not_mem_nil, fun h => absurd rfl h⟩
  | cons row rows ih =>
      obtain ⟨p, ps, rfl, hp, hps⟩ := List.map_eq_cons_iff.mp hps
      obtain ⟨head, hhead, -, hholds⟩ := p.exists_head hp
      obtain ⟨hfst, hzip⟩ := fields_of_row (hlen row List.mem_cons_self)
      have hle := hnum (List.cons_ne_nil _ _)
      have hmeta : rs.metadata = ⟨(columns.zip row).map Prod.fst, num⟩ := by rw [hfst, hmd]
      rw [List.cons_append] at hok
      rcases hparse : parse p.mem fl p.un room protocol (rs, p.pktin) with ⟨e | b, rs', s'⟩
      · rw [parseAll, hparse] at hok
        cases hok
      · obtain ⟨hgood, heq⟩ := good_of_parse_row hphase hmeta hhead hholds p.cursor (hzip ▸ hpos)
          (hfits row List.mem_cons_self) (hdirty p List.mem_cons_self) (hzip ▸ hle)
          (hsized row List.mem_cons_self) hparse
        rw [hzip] at heq
        obtain ⟨reader, s2, hparse', -⟩ := parse_row fl p.un room hphase
          (hmeta.trans (by rw [heq, hzip])) hhead hholds p.cursor (hzip ▸ hpos)
          (hfits row List.mem_cons_self) hgood (hsized row List.mem_cons_self)
        rw [parseAll_cons hparse'] at hok
        obtain ⟨r', hrest, -⟩ := ok_of_map hok
        obtain ⟨hall, -⟩ := ih (show (rs.addReaders [reader]).phase = _ from hphase) hmd
          (fun _ => hle) hps
          (fun q hq => hlen q (List.mem_cons_of_mem row hq))
          (fun q hq => hfits q (List.mem_cons_of_mem row hq))
          (fun q hq => hsized q (List.mem_cons_of_mem row hq))
          (fun q hq => hdirty q (List.mem_cons_of_mem p hq)) hrest
        refine ⟨fun q hq => ?_, fun _ => heq⟩
        rcases List.mem_cons.mp hq with rfl | hq
        · exact hgood
        · exact hall q hq

end ResultSet

/-! ### Result sets -/

section

variable {fl : Floats} {room : Nat} {protocol : ProtocolType} {columns : List ColumnDefinition}
  {warnings statusFlag : UInt16} {rows : List (List (Option (List UInt8)))} {ending : Ending}

/-- The packets of a result set. -/
structure Parts (protocol : ProtocolType) (columns : List ColumnDefinition)
    (warnings statusFlag : UInt16) (rows : List (List (Option (List UInt8))))
    (ending : Ending) where
  first : Arrival
  definitions : List Arrival
  eof : Arrival
  rowPackets : List Arrival
  last : Arrival
  first_payload : first.payload = variableInteger columns.length
  definitions_payload : definitions.map Arrival.payload = columns.map columnPayload
  eof_payload : eof.payload = eofPayload warnings statusFlag
  rowPackets_payload : rowPackets.map Arrival.payload =
    rows.map fun row => rowPayload protocol (columns.zip row)
  last_payload : last.payload = ending.payload

def Parts.packets (parts : Parts protocol columns warnings statusFlag rows ending) :
    List Arrival :=
  parts.first :: (parts.definitions ++ parts.eof :: (parts.rowPackets ++ [parts.last]))

theorem exists_parts {packets : List Arrival} (h : packets.map Arrival.payload =
    (Response.resultset columns warnings statusFlag rows ending).payloads protocol) :
    ∃ parts : Parts protocol columns warnings statusFlag rows ending, packets = parts.packets := by
  obtain ⟨first, rest, rfl, hfirst, hrest⟩ := List.map_eq_cons_iff.mp h
  obtain ⟨definitions, rest, rfl, hdefinitions, hrest⟩ := List.map_eq_append_iff.mp hrest
  obtain ⟨eof, rest, rfl, heof, hrest⟩ := List.map_eq_cons_iff.mp hrest
  obtain ⟨rowPackets, rest, rfl, hrows, hrest⟩ := List.map_eq_append_iff.mp hrest
  obtain ⟨last, rest, rfl, hlast, hrest⟩ := List.map_eq_cons_iff.mp hrest
  obtain rfl := List.map_eq_nil_iff.mp hrest
  exact ⟨⟨first, definitions, eof, rowPackets, last, hfirst, hdefinitions, heof, hrows, hlast⟩,
    rfl⟩

namespace Parts

variable (parts : Parts protocol columns warnings statusFlag rows ending)

theorem length_definitions : parts.definitions.length = columns.length := by
  rw [← List.length_map Arrival.payload, parts.definitions_payload, List.length_map]

theorem length_rowPackets : parts.rowPackets.length = rows.length := by
  rw [← List.length_map Arrival.payload, parts.rowPackets_payload, List.length_map]

theorem length_packets : parts.packets.length = columns.length + rows.length + 3 := by
  simp only [packets, List.length_cons, List.length_append, parts.length_definitions,
    parts.length_rowPackets, List.length_nil]
  omega

theorem rowPackets_eq : (Response.resultset columns warnings statusFlag rows ending).rowPackets
    parts.packets = parts.rowPackets := by
  have hlen : (parts.first :: (parts.definitions ++ [parts.eof])).length = columns.length + 2 := by
    rw [List.length_cons, List.length_append, parts.length_definitions]
    rfl
  have hsplit : parts.packets = (parts.first :: (parts.definitions ++ [parts.eof])) ++
      (parts.rowPackets ++ [parts.last]) := by
    rw [packets, List.cons_append, List.append_assoc, List.singleton_append]
  rw [Response.rowPackets, hsplit, List.drop_left' hlen, ← parts.length_rowPackets,
    List.take_left]

/-- What `num_columns` is read as. -/
def numColumns : Nat := (parts.first.un.locals 0).decoded columns.length % 2 ^ 32

/-- The state behind the number of columns. -/
def counted : ResultSet :=
  { ResultSet.make with metadata := ⟨[], parts.numColumns⟩, phase := .parseColumnDefinition }

/-- The state behind the definitions and the EOF packet. -/
def started : ResultSet :=
  { ResultSet.make with metadata := ⟨columns, parts.numColumns⟩, phase := .parseResultsetRow }

theorem columns_fit
    (h : (Response.resultset columns warnings statusFlag rows ending).WellFormed protocol) :
    ∀ cm ∈ columns, (columnPayload cm).length < 2 ^ 24 := by
  intro cm hcm
  have hfit := h.fits (columnPayload cm)
    (List.mem_cons_of_mem _ (List.mem_append_left _ (List.mem_map_of_mem hcm)))
  exact Nat.lt_of_lt_of_le hfit (Nat.sub_le _ _)

theorem rows_fit
    (h : (Response.resultset columns warnings statusFlag rows ending).WellFormed protocol) :
    ∀ row ∈ rows, (rowPayload protocol (columns.zip row)).length < 2 ^ 24 := by
  intro row hrow
  have hfit := h.fits (rowPayload protocol (columns.zip row))
    (List.mem_cons_of_mem _ (List.mem_append_right _ (List.mem_cons_of_mem _
      (List.mem_append_left _ (List.mem_map_of_mem hrow)))))
  exact Nat.lt_of_lt_of_le hfit (Nat.sub_le _ _)

theorem parse_first (fl : Floats)
    (h : (Response.resultset columns warnings statusFlag rows ending).WellFormed protocol)
    (hroom : parts.numColumns ≤ room) :
    ∃ s', ResultSet.parse parts.first.mem fl parts.first.un room protocol
      (.make, parts.first.pktin) = (.ok false, parts.counted, s') := by
  obtain ⟨hpos, hlt, -, -⟩ := h.content
  exact ResultSet.parse_numColumns fl parts.first.un protocol
    (show ResultSet.make.phase = .parseNew from rfl) hpos hlt parts.first.holds
    (parts.first.drop_pos.trans parts.first_payload) hroom

theorem parse_eof (fl : Floats) (room : Nat) :
    ∃ s', ResultSet.parse parts.eof.mem fl parts.eof.un room protocol
      (parts.counted.addColumns columns, parts.eof.pktin) = (.ok false, parts.started, s') :=
  ResultSet.parse_endOfColumns fl parts.eof.un room protocol
    (show (parts.counted.addColumns columns).phase = .parseColumnDefinition from rfl)
    parts.eof.holds (parts.eof.drop_pos.trans parts.eof_payload)

/-- The packets before the rows are parsed, if the definitions are. -/
theorem parseAll_start (fl : Floats)
    (h : (Response.resultset columns warnings statusFlag rows ending).WellFormed protocol)
    (hroom : parts.numColumns ≤ room)
    (hshort : ∀ cm ∈ columns, ∀ str ∈ cm.strings, ¬ ThreeBytes str.length) :
    ResultSet.parseAll fl room protocol parts.packets .make =
      (ResultSet.parseAll fl room protocol (parts.rowPackets ++ [parts.last]) parts.started).map
        fun r => (List.replicate (columns.length + 2) false ++ r.1, r.2) := by
  obtain ⟨-, -, hcode, -⟩ := h.content
  obtain ⟨s1, hfirst⟩ := parts.parse_first fl h hroom
  obtain ⟨s2, heof⟩ := parts.parse_eof fl room
  have hcolumns := ResultSet.parseAll_columns fl room protocol
    (show parts.counted.phase = .parseColumnDefinition from rfl) parts.definitions_payload
    (columns_fit h) hcode hshort (parts.eof :: (parts.rowPackets ++ [parts.last]))
  rw [packets, ResultSet.parseAll_cons hfirst, hcolumns, ResultSet.parseAll_cons heof]
  cases ResultSet.parseAll fl room protocol (parts.rowPackets ++ [parts.last]) parts.started with
  | error e => rfl
  | ok r =>
      have hfalse : List.replicate (columns.length + 2) false =
          false :: (List.replicate columns.length false ++ [false]) := by
        rw [← List.replicate_succ', ← List.replicate_succ]
      simp only [Except.map, hfalse, List.cons_append, List.append_assoc, List.nil_append]

/-- The last packet does not change the error code. -/
theorem parse_last (fl : Floats) (room : Nat) (readers : List RowReader) :
    ∃ s', ResultSet.parse parts.last.mem fl parts.last.un room protocol
      (parts.started.addReaders readers, parts.last.pktin) =
        (.ok true, { parts.started.addReaders readers with phase := .parseFinish }, s') :=
  ResultSet.parse_ending fl parts.last.un room protocol
    (show (parts.started.addReaders readers).phase = .parseResultsetRow from rfl)
    parts.last.holds (parts.last.drop_pos.trans parts.last_payload)

/-- The packets of a result set are parsed, and there is no error. -/
theorem parseAll_packets (fl : Floats)
    (h : (Response.resultset columns warnings statusFlag rows ending).WellFormed protocol)
    (hroom : parts.numColumns ≤ room)
    (hshort : ∀ cm ∈ columns, ∀ str ∈ cm.strings, ¬ ThreeBytes str.length)
    (hnum : rows ≠ [] → parts.numColumns = columns.length)
    (hgood : ∀ row ∈ rows, ∀ f ∈ columns.zip row, RowField.Good protocol f) :
    ∃ rs, ResultSet.parseAll fl room protocol parts.packets .make =
        .ok (List.replicate (parts.packets.length - 1) false ++ [true], rs) ∧
      List.Forall₂ (ResultSet.Kept protocol) parts.rowPackets rs.rowReaders ∧
      rs.errorCode = 0 := by
  obtain ⟨hpos, -, -, hrows⟩ := h.content
  have hmd (hne : rows ≠ []) : parts.started.metadata = ⟨columns, columns.length⟩ := by
    rw [← hnum hne]
    rfl
  obtain ⟨readers, hall, hrun⟩ := ResultSet.parseAll_rows fl room
    (show parts.started.phase = .parseResultsetRow from rfl) hmd parts.rowPackets_payload hpos
    (fun row hrow => (hrows row hrow).1) (rows_fit h) (fun row hrow => (hrows row hrow).2) hgood
    [parts.last]
  obtain ⟨s', hlast⟩ := parts.parse_last fl room readers
  refine ⟨{ parts.started.addReaders readers with phase := .parseFinish }, ?_, hall, rfl⟩
  rw [parts.parseAll_start fl h hroom hshort, hrun, ResultSet.parseAll_cons hlast,
    parts.length_packets]
  have hfalse : List.replicate (columns.length + rows.length + 3 - 1) false =
      List.replicate (columns.length + 2) false ++ List.replicate rows.length false := by
    rw [← List.replicate_add]
    congr 1
    omega
  rw [hfalse, List.append_assoc]
  rfl

theorem length_columns_lt
    (h : (Response.resultset columns warnings statusFlag rows ending).WellFormed protocol)
    (hne : rows ≠ []) : columns.length < 2 ^ 27 := by
  obtain ⟨-, -, -, hrows⟩ := h.content
  obtain ⟨row, rest, rfl⟩ := List.exists_cons_of_ne_nil hne
  have hfit := rows_fit h row List.mem_cons_self
  have hle := length_le_rowPayload protocol (columns.zip row)
  rw [List.length_zip, (hrows row List.mem_cons_self).1, Nat.min_self] at hle
  omega

/-- The number is read right, up to the cut, where it does not have the three-byte form. -/
theorem numColumns_mod (hshort : ¬ ThreeBytes columns.length) :
    parts.numColumns = columns.length % 2 ^ 32 := by
  have hclean := (parts.first.un.locals 0).clean_of_not_threeBytes hshort
  rw [numColumns, ((parts.first.un.locals 0).decoded_eq_iff _).mpr hclean]

theorem numColumns_eq
    (h : (Response.resultset columns warnings statusFlag rows ending).WellFormed protocol)
    (hne : rows ≠ []) (hshort : ¬ ThreeBytes columns.length) :
    parts.numColumns = columns.length := by
  have hlt := length_columns_lt h hne
  rw [parts.numColumns_mod hshort]
  exact Nat.mod_eq_of_lt (Nat.lt_trans hlt (by decide))

/-- With a dirty variable it is too large where it has the three-byte form. -/
theorem numColumns_dirty (hthree : ThreeBytes columns.length)
    (hdirty : parts.first.un.locals 0 = dirty) : columns.length < parts.numColumns := by
  have hlt := hthree.2
  rw [numColumns, hdirty, dirty_decoded hthree, Nat.mod_eq_of_lt (by omega)]
  omega

/-- What is parsed with dirty variables, and with memory for no more columns than there are, is
    parsed with any. -/
theorem readable_of_parseAll {fl : Floats} {r : List Bool × ResultSet}
    (h : (Response.resultset columns warnings statusFlag rows ending).WellFormed protocol)
    (hdirty : ∀ p ∈ parts.packets, ∀ k, p.un.locals k = dirty)
    (hok : ResultSet.parseAll fl columns.length protocol parts.packets .make = .ok r) :
    (∀ cm ∈ columns, ∀ str ∈ cm.strings, ¬ ThreeBytes str.length) ∧
      ¬ ThreeBytes columns.length ∧
      ∀ row ∈ rows, ∀ f ∈ columns.zip row, RowField.Good protocol f := by
  obtain ⟨hpos, hlt, hcode, hrows⟩ := h.content
  have hfirst : ∀ k, parts.first.un.locals k = dirty := hdirty _ List.mem_cons_self
  have hdefinitions : ∀ p ∈ parts.definitions, ∀ k, p.un.locals k = dirty :=
    fun p hp => hdirty p (List.mem_cons_of_mem _ (List.mem_append_left _ hp))
  have hrowPackets : ∀ p ∈ parts.rowPackets, ∀ k, p.un.locals k = dirty :=
    fun p hp => hdirty p (List.mem_cons_of_mem _ (List.mem_append_right _
      (List.mem_cons_of_mem _ (List.mem_append_left _ hp))))
  -- the number of columns
  have hcount : ¬ ThreeBytes columns.length := by
    intro hthree
    obtain ⟨e, st', hthrows⟩ := ResultSet.parse_numColumns_throws fl parts.first.un protocol
      (show ResultSet.make.phase = .parseNew from rfl) hpos hlt parts.first.holds
      (parts.first.drop_pos.trans parts.first_payload) (parts.numColumns_dirty hthree (hfirst 0))
    rw [packets, ResultSet.parseAll, hthrows] at hok
    cases hok
  have hroom : parts.numColumns ≤ columns.length := by
    rw [parts.numColumns_mod hcount]
    exact Nat.mod_le _ _
  -- the definitions
  obtain ⟨s1, hparse⟩ := parts.parse_first fl h hroom
  have hok1 := hok
  rw [packets, ResultSet.parseAll_cons hparse] at hok1
  obtain ⟨r1, hrest1, -⟩ := ResultSet.ok_of_map hok1
  have hshort := ResultSet.short_of_parseAll
    (show parts.counted.phase = .parseColumnDefinition from rfl) parts.definitions_payload
    (columns_fit h) hcode hdefinitions hrest1
  -- the rows
  rw [parts.parseAll_start fl h hroom hshort] at hok
  obtain ⟨r2, hrest2, -⟩ := ResultSet.ok_of_map hok
  obtain ⟨hgood, -⟩ := ResultSet.good_of_parseAll
    (show parts.started.phase = .parseResultsetRow from rfl)
    (show parts.started.metadata = ⟨columns, parts.numColumns⟩ from rfl)
    (fun hne => Nat.le_of_eq (parts.numColumns_eq h hne hcount).symm) parts.rowPackets_payload hpos
    (fun row hrow => (hrows row hrow).1) (rows_fit h) (fun row hrow => (hrows row hrow).2)
    hrowPackets hrest2
  exact ⟨hshort, hcount, hgood⟩

end Parts

end

/-! ### Responses -/

namespace Response

variable {protocol : ProtocolType} {r : Response}

theorem conforms_of_readable (hwell : r.WellFormed protocol) (h : r.Readable protocol) :
    r.Conforms protocol := by
  intro fl room packets hroom hpackets
  cases r with
  | ok affectedRows lastInsertId statusFlag warnings info =>
      obtain ⟨p, rest, rfl, hp, hrest⟩ := List.map_eq_cons_iff.mp hpackets
      obtain rfl := List.map_eq_nil_iff.mp hrest
      obtain ⟨rs, s', hparse, hcode, hreaders⟩ := ResultSet.parse_okPacket fl p.un room protocol
        (show ResultSet.make.phase = .parseNew from rfl) p.holds (p.drop_pos.trans hp)
      refine ⟨rs, by rw [ResultSet.parseAll_cons hparse]; rfl, ?_, ?_, nofun⟩
      · rw [hreaders]
        exact .nil
      · rw [ResultSet.hasError, hcode]
        exact ⟨fun hlt => absurd hlt (by decide), fun ⟨code, hcode⟩ => nomatch hcode⟩
  | err code message =>
      obtain ⟨p, rest, rfl, hp, hrest⟩ := List.map_eq_cons_iff.mp hpackets
      obtain rfl := List.map_eq_nil_iff.mp hrest
      obtain ⟨s', hparse⟩ := ResultSet.parse_errPacket fl p.un room protocol
        (show ResultSet.make.phase = .parseNew from rfl) p.holds (p.drop_pos.trans hp)
      refine ⟨_, by rw [ResultSet.parseAll_cons hparse]; rfl, .nil, ?_, ?_⟩
      · exact ⟨fun _ => ⟨code, rfl⟩, fun _ => decide_eq_true (UInt16.pos_iff_ne_zero.mpr h)⟩
      · exact fun code' hcode' => Option.some.inj hcode'
  | resultset columns warnings statusFlag rows ending =>
      obtain ⟨⟨warnings', statusFlag', rfl⟩, hshort, hcount, hgood⟩ := h
      obtain ⟨parts, rfl⟩ := exists_parts hpackets
      have hnum : parts.numColumns ≤ room := by
        rw [parts.numColumns_mod hcount]
        exact Nat.le_trans (Nat.mod_le _ _) hroom
      obtain ⟨rs, hrun, hall, hcode⟩ := parts.parseAll_packets fl hwell hnum hshort
        (fun hne => parts.numColumns_eq hwell hne hcount) hgood
      refine ⟨rs, hrun, parts.rowPackets_eq ▸ hall, ?_, nofun⟩
      rw [ResultSet.hasError, hcode]
      exact ⟨fun hlt => absurd hlt (by decide), fun ⟨code, hcode⟩ => nomatch hcode⟩

theorem readable_of_conforms (hwell : r.WellFormed protocol) (h : r.Conforms protocol) :
    r.Readable protocol := by
  obtain ⟨packets, hpackets, hdirty⟩ := exists_arrivals (r.payloads protocol) hwell.fits
  obtain ⟨rs, hrun, -, herror, hcode⟩ := h ⟨fun _ => 0, fun _ => 0⟩ r.columnCount packets
    (Nat.le_refl _) hpackets
  cases r with
  | ok => exact trivial
  | err code message =>
      have hhas := of_decide_eq_true (herror.mpr ⟨code, rfl⟩)
      rw [hcode code rfl] at hhas
      exact UInt16.pos_iff_ne_zero.mp hhas
  | resultset columns warnings statusFlag rows ending =>
      obtain ⟨parts, rfl⟩ := exists_parts hpackets
      obtain ⟨hshort, hcount, hgood⟩ := parts.readable_of_parseAll hwell hdirty hrun
      refine ⟨?_, hshort, hcount, hgood⟩
      have hnum : parts.numColumns ≤ columns.length := by
        rw [parts.numColumns_mod hcount]
        exact Nat.mod_le _ _
      obtain ⟨rs', hrun', -, hzero⟩ := parts.parseAll_packets ⟨fun _ => 0, fun _ => 0⟩ hwell hnum
        hshort (fun hne => parts.numColumns_eq hwell hne hcount) hgood
      obtain rfl : rs = rs' := congrArg Prod.snd (Except.ok.inj (hrun.symm.trans hrun'))
      cases ending with
      | eof warnings' statusFlag' => exact ⟨warnings', statusFlag', rfl⟩
      | err code message =>
          -- the code of the ERR packet has not been kept
          have hhas := herror.mpr ⟨code, rfl⟩
          rw [ResultSet.hasError, hzero] at hhas
          exact absurd hhas (by decide)

/-- A response is parsed as it should be iff it is readable. -/
theorem conforms_iff_readable (protocol : ProtocolType) (r : Response)
    (hwell : r.WellFormed protocol) : r.Conforms protocol ↔ r.Readable protocol :=
  ⟨readable_of_conforms hwell, conforms_of_readable hwell⟩

/-- A column of numbers. -/
def numberColumn : ColumnDefinition :=
  ⟨ascii "def", [], [], [], ascii "n", [], 12, 63, 11, .long, 0, 0, 0⟩

/-- One row with the number 7. -/
def oneRow : Response := .resultset [numberColumn] 0 2 [[some [55]]] (.eof 0 2)

theorem wellFormed_oneRow : oneRow.WellFormed .text where
  fits := by decide +kernel
  content := by
    refine ⟨by decide, by decide, by decide, fun row hrow => ?_⟩
    obtain rfl := List.mem_singleton.mp hrow
    exact ⟨rfl, nofun⟩

theorem conforms_iff_readable_oneRow : oneRow.WellFormed .text ∧
    (oneRow.Conforms .text ↔ oneRow.Readable .text) :=
  ⟨wellFormed_oneRow, conforms_iff_readable .text oneRow wellFormed_oneRow⟩

/-- The query is interrupted before the first row: error 1317. -/
def interrupted : Response := .resultset [numberColumn] 0 2 [] (.err 1317 (ascii "#70100"))

theorem wellFormed_interrupted : interrupted.WellFormed .text where
  fits := by decide +kernel
  content := ⟨by decide, by decide, by decide, fun _ hrow => absurd hrow List.not_mem_nil⟩

theorem not_conforms_interrupted :
    ¬ ∀ (protocol : ProtocolType) (r : Response), r.WellFormed protocol → r.Conforms protocol := by
  intro hall
  have hreadable := readable_of_conforms wellFormed_interrupted
    (hall .text interrupted wellFormed_interrupted)
  obtain ⟨⟨warnings, statusFlag, hending⟩, -⟩ := hreadable
  cases hending

end Response

end Jengine.Dbo.Internal
