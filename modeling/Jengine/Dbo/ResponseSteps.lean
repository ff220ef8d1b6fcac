import Jengine.Dbo.RowFields

/-!
# One packet of a response

What `Parse` does with each packet of a response in the phase it comes in, however the packet is
cut into chunks: where it returns, and where it throws because a length has the three-byte form
and the variable it is read into is dirty.
-/

namespace Jengine.Dbo.Internal

open Jengine.Lib Jengine.Memory RefMemoryChunk

/-! ### Reading into an object -/

namespace PacketIn

/-- `op` consumes exactly the bytes `xs` and changes the object by `f`. -/
def Fills (m : Bytes) {σ : Type} (op : Into σ Unit) (xs : List UInt8) (f : σ → σ) : Prop :=
  ∀ x s bs, Holds m s bs → xs <+: bs.drop s.packet.pos →
    ∃ s', op (x, s) = (.ok (), f x, s') ∧ Holds m s' bs ∧
      s'.packet.pos = s.packet.pos + xs.length

/-- `op` throws at the object and the packet. -/
def ThrowsInto {σ α : Type} (op : Into σ α) (st : σ × PacketIn) : Prop :=
  ∃ e st', op st = (.error e, st')

section

variable {m : Bytes} {σ α β : Type} {x x' : σ} {s s' : PacketIn} {bs : List UInt8}

theorem into_bind_ok {op : Into σ α} {f : α → Into σ β} {a : α} {st st' : σ × PacketIn}
    (h : op st = (.ok a, st')) : (op >>= f) st = f a st' := by
  show (ExceptT.bind op f) st = _
  simp only [ExceptT.bind, ExceptT.mk, StateT.bind, bind, h, ExceptT.bindCont]

theorem into_bind_error {op : Into σ α} {f : α → Into σ β} {e : Fault} {st st' : σ × PacketIn}
    (h : op st = (.error e, st')) : (op >>= f) st = (.error e, st') := by
  show (ExceptT.bind op f) st = _
  simp only [ExceptT.bind, ExceptT.mk, StateT.bind, bind, h, ExceptT.bindCont]
  rfl

theorem ThrowsInto.bind {op : Into σ α} {f : α → Into σ β} {st : σ × PacketIn}
    (h : ThrowsInto op st) : ThrowsInto (op >>= f) st := by
  obtain ⟨e, st', hop⟩ := h
  exact ⟨e, st', into_bind_error hop⟩

theorem ThrowsInto.of_bind {op : Into σ α} {f : α → Into σ β} {a : α} {st st' : σ × PacketIn}
    (hop : op st = (.ok a, st')) (h : ThrowsInto (f a) st') : ThrowsInto (op >>= f) st := by
  obtain ⟨e, st2, hf⟩ := h
  exact ⟨e, st2, (into_bind_ok hop).trans hf⟩

theorem onPacket_ok {op : Op α} {a : α} (h : op s = (.ok a, s')) (x : σ) :
    onPacket op (x, s) = (.ok a, x, s') := by
  simp only [onPacket, h]

theorem onPacket_error {op : Op α} {e : Fault} (h : op s = (.error e, s')) (x : σ) :
    onPacket op (x, s) = (.error e, x, s') := by
  simp only [onPacket, h]

theorem into_ok {op : Op α} {a : α} (h : op s = (.ok a, s')) (f : α → σ → σ) (x : σ) :
    into op f (x, s) = (.ok (), f a x, s') :=
  (into_bind_ok (onPacket_ok h x)).trans rfl

theorem into_throws {op : Op α} (h : Throws op s) (f : α → σ → σ) (x : σ) :
    ThrowsInto (into op f) (x, s) := by
  obtain ⟨e, s', hop⟩ := h
  exact ThrowsInto.bind ⟨e, (x, s'), onPacket_error hop x⟩

theorem fills_into {op : Op α} {xs : List UInt8} {a : α} (h : Reads m op xs a) (f : α → σ → σ) :
    Fills m (into op f) xs (f a) := by
  intro x s bs hs hxs
  obtain ⟨s', hop, hholds, hpos⟩ := h s bs hs hxs
  exact ⟨s', into_ok hop f x, hholds, hpos⟩

theorem Fills.seq {op op' : Into σ Unit} {xs ys : List UInt8} {f g : σ → σ}
    (h : Fills m op xs f) (h' : Fills m op' ys g) :
    Fills m (do op; op') (xs ++ ys) (fun x => g (f x)) := by
  intro x s bs hs hxs
  obtain ⟨s1, hop, hholds, hpos⟩ := h x s bs hs ((List.prefix_append xs ys).trans hxs)
  have hys := prefix_drop_add hxs
  rw [← hpos] at hys
  obtain ⟨s2, hop', hholds', hpos'⟩ := h' (f x) s1 bs hholds hys
  refine ⟨s2, (into_bind_ok hop).trans hop', hholds', ?_⟩
  rw [hpos', hpos, List.length_append, Nat.add_assoc]

/-- A number of `n` bytes. -/
theorem reads_toLE (m : Bytes) {n v : Nat} (h : v < 256 ^ n) :
    Reads m (readFixedInteger m n 0) (toLE n v) v := by
  have hread := reads_readFixedInteger m (length_toLE n v) 0
  rwa [overwritten, ofLE_toLE_of_lt h, Nat.zero_div, Nat.zero_mul, Nat.add_zero] at hread

/-- The first byte of a packet. -/
theorem reads_byte (m : Bytes) (b : UInt8) : Reads m (readFixedInteger m 1 0) [b] b.toNat := by
  have hread := reads_readFixedInteger m (show [b].length = 1 from rfl) 0
  rwa [show overwritten 0 [b] = b.toNat by simp [overwritten, ofLE]] at hread

theorem Reads.next {op : Op α} {xs ys : List UInt8} {a : α} (h : Reads m op xs a)
    (hs : Holds m s bs) (hb : bs.drop s.packet.pos = xs ++ ys) :
    ∃ s', op s = (.ok a, s') ∧ Holds m s' bs ∧ bs.drop s'.packet.pos = ys := by
  obtain ⟨s', hop, hholds, hpos⟩ := h s bs hs ⟨ys, hb.symm⟩
  refine ⟨s', hop, hholds, ?_⟩
  rw [hpos, ← List.drop_drop, hb, List.drop_left]

theorem Holds.readRest (h : Holds m s bs) (txt : List UInt8) :
    ∃ s', readRestOfPacketString m txt s = (.ok (bs.drop s.packet.pos), s') := by
  have hsize := h.size_eq
  have hle := h.pos_le
  have hfits := h.fits
  have hleft : Gateway.u32 (s.packet.size + 2 ^ 32 - s.packet.pos) =
      (bs.drop s.packet.pos).length := by
    rw [List.length_drop, Gateway.u32]
    omega
  obtain ⟨s', hop, -, -⟩ := reads_readFixedString m txt (bs.drop s.packet.pos) s bs h
    List.prefix_rfl
  refine ⟨s', ?_⟩
  rw [readRestOfPacketString, bind_get, hleft]
  exact hop

end

end PacketIn

/-! ### Column definitions -/

theorem length_le_columnPayload {cm : ColumnDefinition} {str : List UInt8}
    (h : str ∈ cm.strings) : str.length ≤ (columnPayload cm).length := by
  have hle := length_le_lengthEncoded str
  obtain ⟨strs1, strs2, hsplit⟩ := List.append_of_mem h
  unfold columnPayload
  simp only [hsplit, List.flatMap_append, List.flatMap_cons, List.length_append]
  omega

theorem columnPayload_eq (cm : ColumnDefinition) :
    columnPayload cm = lengthEncoded cm.catalog ++ (lengthEncoded cm.schema ++
      (lengthEncoded cm.table ++ (lengthEncoded cm.orgTable ++ (lengthEncoded cm.name ++
        (lengthEncoded cm.orgName ++ (variableInteger cm.fixedLength.toNat ++
          (toLE 2 cm.charset.toNat ++ (toLE 4 cm.columnLength.toNat ++
            (toLE 1 cm.type.code.toNat ++ (toLE 2 cm.flag.toNat ++
              (toLE 1 cm.decimals.toNat ++ toLE 2 cm.filter.toNat))))))))))) := by
  simp only [columnPayload, ColumnDefinition.strings, List.flatMap_cons, List.flatMap_nil,
    List.append_nil, List.append_assoc]

/-- A definition without a string whose length has the three-byte form is read right. -/
theorem fills_columnDefinition (m : Bytes) (un : Nat → Locals) {cm : ColumnDefinition}
    (hshort : ∀ str ∈ cm.strings, ¬ ThreeBytes str.length)
    (hfits : (columnPayload cm).length < 2 ^ 32)
    (hcode : MysqlFieldType.ofCode cm.type.code = cm.type) :
    PacketIn.Fills m (ColumnDefinition.parse m un) (columnPayload cm) fun _ => cm := by
  have hstring (k : Nat) {str : List UInt8} (h : str ∈ cm.strings) :
      PacketIn.Reads m (PacketIn.readLengthEncodedString m (un k) []) (lengthEncoded str) str :=
    PacketIn.reads_readLengthEncodedString m [] ((un k).clean_of_not_threeBytes (hshort str h))
      (Nat.lt_of_le_of_lt (length_le_columnPayload h) hfits)
  have hfixed : cm.fixedLength.toNat < 2 ^ 16 := cm.fixedLength.toNat_lt
  have hlength := PacketIn.reads_readVariableInteger m 16 (un 6)
    (Nat.lt_trans hfixed (show 2 ^ 16 < 2 ^ 64 by decide))
  rw [((un 6).decoded_eq_iff _).mpr ((un 6).clean_of_not_threeBytes fun h => by
    have hge : 65536 ≤ cm.fixedLength.toNat := h.1
    omega), Nat.mod_eq_of_lt hfixed] at hlength
  have hcatalog := PacketIn.fills_into (hstring 0 (.head _))
    fun v (x : ColumnDefinition) => { x with catalog := v }
  have hschema := PacketIn.fills_into (hstring 1 (.tail _ (.head _)))
    fun v (x : ColumnDefinition) => { x with schema := v }
  have htable := PacketIn.fills_into (hstring 2 (.tail _ (.tail _ (.head _))))
    fun v (x : ColumnDefinition) => { x with table := v }
  have horgTable := PacketIn.fills_into (hstring 3 (.tail _ (.tail _ (.tail _ (.head _)))))
    fun v (x : ColumnDefinition) => { x with orgTable := v }
  have hname := PacketIn.fills_into (hstring 4 (.tail _ (.tail _ (.tail _ (.tail _ (.head _))))))
    fun v (x : ColumnDefinition) => { x with name := v }
  have horgName := PacketIn.fills_into
    (hstring 5 (.tail _ (.tail _ (.tail _ (.tail _ (.tail _ (.head _)))))))
    fun v (x : ColumnDefinition) => { x with orgName := v }
  have hfixedLength := PacketIn.fills_into hlength
    fun v (x : ColumnDefinition) => { x with fixedLength := .ofNat v }
  have hcharset := PacketIn.fills_into (PacketIn.reads_toLE m (n := 2) cm.charset.toNat_lt)
    fun v (x : ColumnDefinition) => { x with charset := .ofNat v }
  have hcolumnLength := PacketIn.fills_into
    (PacketIn.reads_toLE m (n := 4) cm.columnLength.toNat_lt)
    fun v (x : ColumnDefinition) => { x with columnLength := .ofNat v }
  have htype := PacketIn.fills_into (PacketIn.reads_toLE m (n := 1) cm.type.code.toNat_lt)
    fun v (x : ColumnDefinition) => { x with type := .ofCode (.ofNat v) }
  have hflag := PacketIn.fills_into (PacketIn.reads_toLE m (n := 2) cm.flag.toNat_lt)
    fun v (x : ColumnDefinition) => { x with flag := .ofNat v }
  have hdecimals := PacketIn.fills_into (PacketIn.reads_toLE m (n := 1) cm.decimals.toNat_lt)
    fun v (x : ColumnDefinition) => { x with decimals := .ofNat v }
  have hfilter := PacketIn.fills_into (PacketIn.reads_toLE m (n := 2) cm.filter.toNat_lt)
    fun v (x : ColumnDefinition) => { x with filter := .ofNat v }
  rw [UInt16.ofNat_toNat] at hfixedLength hcharset hflag hfilter
  rw [UInt32.ofNat_toNat] at hcolumnLength
  rw [UInt8.ofNat_toNat] at hdecimals
  rw [UInt8.ofNat_toNat, hcode] at htype
  rw [columnPayload_eq]
  exact hcatalog.seq <| hschema.seq <| htable.seq <| horgTable.seq <| hname.seq <|
    horgName.seq <| hfixedLength.seq <| hcharset.seq <| hcolumnLength.seq <| htype.seq <|
      hflag.seq <| hdecimals.seq hfilter

/-- A string is read with dirty variables: it ends the definition, or what follows does. -/
theorem PacketIn.throws_string {m : Bytes} {σ : Type} {x : σ} {s : PacketIn}
    {bs str ys : List UInt8} {f : List UInt8 → σ → σ} {op : PacketIn.Into σ Unit}
    (hs : PacketIn.Holds m s bs) (hfield : lengthEncoded str ++ ys <+: bs.drop s.packet.pos)
    (hsmall : bs.length < 2 ^ 24 + 4)
    (hrest : ¬ ThreeBytes str.length → ∀ s', PacketIn.Holds m s' bs →
      ys <+: bs.drop s'.packet.pos → PacketIn.ThrowsInto op (f str x, s')) :
    PacketIn.ThrowsInto
      (do PacketIn.into (PacketIn.readLengthEncodedString m dirty []) f; op) (x, s) := by
  have hstr := (List.prefix_append _ ys).trans hfield
  have hlt := Nat.lt_of_le_of_lt ((length_le_lengthEncoded str).trans hstr.length_le) hs.drop_lt
  by_cases hthree : ThreeBytes str.length
  · obtain ⟨len, s1, hlen, hholds, hlong⟩ :=
      hs.dirty_length hlt ((List.prefix_append _ _).trans hstr)
    obtain ⟨hlo, hhi⟩ := hlong hthree
    have hpos := hholds.pos_le
    refine PacketIn.ThrowsInto.bind (PacketIn.into_throws (PacketIn.Throws.of_bind hlen ?_) f x)
    exact (hholds.getByte_throws (by omega) (by omega)).bind
  · obtain ⟨s1, hread, hholds, hpos⟩ := PacketIn.reads_readLengthEncodedString m []
      (dirty.clean_of_not_threeBytes hthree) hlt s bs hs hstr
    have hys := prefix_drop_add hfield
    rw [← hpos] at hys
    exact PacketIn.ThrowsInto.of_bind (PacketIn.into_ok hread f x) (hrest hthree s1 hholds hys)

theorem columnDefinition_throws {m : Bytes} {un : Nat → Locals} {cm x : ColumnDefinition}
    {s : PacketIn} {bs : List UInt8} (hdirty : ∀ k, un k = dirty)
    (hlong : ∃ str ∈ cm.strings, ThreeBytes str.length) (hs : PacketIn.Holds m s bs)
    (hfield : columnPayload cm <+: bs.drop s.packet.pos) (hsmall : bs.length < 2 ^ 24 + 4) :
    PacketIn.ThrowsInto (ColumnDefinition.parse m un) (x, s) := by
  rw [columnPayload_eq] at hfield
  unfold ColumnDefinition.parse
  simp only [hdirty]
  refine PacketIn.throws_string hs hfield hsmall fun h0 s0 hs0 hfield => ?_
  refine PacketIn.throws_string hs0 hfield hsmall fun h1 s1 hs1 hfield => ?_
  refine PacketIn.throws_string hs1 hfield hsmall fun h2 s2 hs2 hfield => ?_
  refine PacketIn.throws_string hs2 hfield hsmall fun h3 s3 hs3 hfield => ?_
  refine PacketIn.throws_string hs3 hfield hsmall fun h4 s4 hs4 hfield => ?_
  refine PacketIn.throws_string hs4 hfield hsmall fun h5 s5 hs5 hfield => ?_
  obtain ⟨str, hmem, hthree⟩ := hlong
  simp only [ColumnDefinition.strings, List.mem_cons, List.not_mem_nil, or_false] at hmem
  rcases hmem with rfl | rfl | rfl | rfl | rfl | rfl
  all_goals contradiction

/-! ### First bytes -/

/-- A number of columns is not taken for another first packet. -/
theorem first_numColumns {n : Nat} (hpos : 0 < n) :
    ∃ b rest, variableInteger n = b :: rest ∧ b.toNat ≠ packetOk.toNat ∧
      b.toNat ≠ packetErr.toNat ∧ b.toNat ≠ 0xFB := by
  unfold variableInteger
  split
  · rename_i hshort
    refine ⟨UInt8.ofNat n, [], rfl, ?_⟩
    rw [UInt8.toNat_ofNat_of_lt' (Nat.lt_trans hshort (by decide))]
    exact ⟨Nat.ne_of_gt hpos, fun h => absurd (h ▸ hshort) (by decide),
      fun h => absurd (h ▸ hshort) (by decide)⟩
  · split
    · exact ⟨0xfc, _, rfl, by decide⟩
    · split
      · exact ⟨0xfd, _, rfl, by decide⟩
      · exact ⟨0xfe, _, rfl, by decide⟩

/-- Neither a string nor a row that fits into one packet starts like an EOF or ERR packet. -/
theorem first_lengthEncoded {str : List UInt8} (h : str.length < 2 ^ 24) :
    ∃ b rest, lengthEncoded str = b :: rest ∧ b.toNat < packetEof.toNat := by
  unfold lengthEncoded variableInteger
  split
  · rename_i hshort
    refine ⟨UInt8.ofNat str.length, str, rfl, ?_⟩
    rw [UInt8.toNat_ofNat_of_lt' (Nat.lt_trans hshort (by decide))]
    exact Nat.lt_trans hshort (by decide)
  · split
    · exact ⟨0xfc, _, rfl, by decide⟩
    · split
      · exact ⟨0xfd, _, rfl, by decide⟩
      · exact absurd h (by assumption)

theorem first_columnPayload {cm : ColumnDefinition} (h : (columnPayload cm).length < 2 ^ 24) :
    ∃ b rest, columnPayload cm = b :: rest ∧ b.toNat < packetEof.toNat := by
  have hlen := length_le_columnPayload (show cm.catalog ∈ cm.strings from .head _)
  obtain ⟨b, rest, hfirst, hb⟩ := first_lengthEncoded (Nat.lt_of_le_of_lt hlen h)
  rw [columnPayload_eq, hfirst]
  exact ⟨b, _, rfl, hb⟩

theorem first_rowPayload {protocol : ProtocolType} {fields : List RowField}
    (hpos : 0 < fields.length) (h : (rowPayload protocol fields).length < 2 ^ 24) :
    ∃ b rest, rowPayload protocol fields = b :: rest ∧ b.toNat < packetEof.toNat := by
  cases protocol with
  | binary => exact ⟨0, _, rfl, by decide⟩
  | text =>
      obtain ⟨⟨cm, value⟩, fields, rfl⟩ := List.exists_cons_of_length_pos hpos
      cases value with
      | none => exact ⟨0xFB, _, rfl, by decide⟩
      | some value =>
          have hlen := length_le_lengthEncoded value
          have hsplit : rowPayload .text ((cm, some value) :: fields) =
              lengthEncoded value ++ fields.flatMap (RowField.encoded .text) := rfl
          rw [hsplit] at h ⊢
          rw [List.length_append] at h
          have hlt : value.length < 2 ^ 24 := by omega
          obtain ⟨b, rest, hfirst, hb⟩ := first_lengthEncoded hlt
          rw [hfirst]
          exact ⟨b, _, rfl, hb⟩

/-! ### One call of `Parse` -/

namespace ResultSet

open Jengine.Dbo.Internal.PacketIn (Into ThrowsInto into_bind_ok onPacket_ok)

variable {m : Bytes} {fl : Floats} {un : Uninit} {room : Nat} {protocol : ProtocolType}
  {rs rs' : ResultSet} {s s' : PacketIn} {bs : List UInt8}

/-- The result set with further definitions. -/
def addColumns (rs : ResultSet) (columns : List ColumnDefinition) : ResultSet :=
  { rs with metadata := { rs.metadata with columns := rs.metadata.columns ++ columns } }

@[simp] theorem phase_addColumns (rs : ResultSet) (columns : List ColumnDefinition) :
    (rs.addColumns columns).phase = rs.phase := rfl

@[simp] theorem addColumns_nil (rs : ResultSet) : rs.addColumns [] = rs := by
  simp only [addColumns, List.append_nil]

@[simp] theorem addColumns_append (rs : ResultSet) (columns columns' : List ColumnDefinition) :
    (rs.addColumns columns).addColumns columns' = rs.addColumns (columns ++ columns') := by
  simp only [addColumns, List.append_assoc]

/-- The result set with further row readers. -/
def addReaders (rs : ResultSet) (readers : List RowReader) : ResultSet :=
  { rs with rowReaders := rs.rowReaders ++ readers }

@[simp] theorem phase_addReaders (rs : ResultSet) (readers : List RowReader) :
    (rs.addReaders readers).phase = rs.phase := rfl

@[simp] theorem metadata_addReaders (rs : ResultSet) (readers : List RowReader) :
    (rs.addReaders readers).metadata = rs.metadata := rfl

@[simp] theorem addReaders_nil (rs : ResultSet) : rs.addReaders [] = rs := by
  simp only [addReaders, List.append_nil]

@[simp] theorem addReaders_append (rs : ResultSet) (readers readers' : List RowReader) :
    (rs.addReaders readers).addReaders readers' = rs.addReaders (readers ++ readers') := by
  simp only [addReaders, List.append_assoc]

theorem parse_ok (h : parsePhase m fl un room protocol rs.phase (rs, s) = (.ok (), rs', s')) :
    parse m fl un room protocol (rs, s) = (.ok (decide (rs'.phase = .parseFinish)), rs', s') :=
  (into_bind_ok (show (MonadState.get : Into ResultSet _) (rs, s) = (.ok (rs, s), rs, s)
    from rfl)).trans ((into_bind_ok h).trans rfl)

theorem parse_continues (h : parsePhase m fl un room protocol rs.phase (rs, s) = (.ok (), rs', s'))
    (hphase : rs'.phase ≠ .parseFinish) :
    parse m fl un room protocol (rs, s) = (.ok false, rs', s') := by
  rw [parse_ok h, decide_eq_false hphase]

theorem parse_finishes (h : parsePhase m fl un room protocol rs.phase (rs, s) = (.ok (), rs', s'))
    (hphase : rs'.phase = .parseFinish) :
    parse m fl un room protocol (rs, s) = (.ok true, rs', s') := by
  rw [parse_ok h, decide_eq_true hphase]

theorem parse_throws (h : ThrowsInto (parsePhase m fl un room protocol rs.phase) (rs, s)) :
    ThrowsInto (parse m fl un room protocol) (rs, s) :=
  ThrowsInto.of_bind (show (MonadState.get : Into ResultSet _) (rs, s) = (.ok (rs, s), rs, s)
    from rfl) h.bind

/-- The first byte has been read. -/
theorem exists_first {b : UInt8} {rest : List UInt8} (hs : PacketIn.Holds m s bs)
    (hb : bs.drop s.packet.pos = b :: rest) :
    ∃ s1, PacketIn.readFixedInteger m 1 0 s = (.ok b.toNat, s1) ∧ PacketIn.Holds m s1 bs ∧
      s1.packet.pos = s.packet.pos + 1 ∧ bs.drop s1.packet.pos = rest := by
  obtain ⟨s1, hop, hholds, hpos⟩ := PacketIn.reads_byte m b s bs hs ⟨rest, hb.symm⟩
  refine ⟨s1, hop, hholds, hpos, ?_⟩
  rw [hpos, List.length_singleton, ← List.drop_drop, hb]
  rfl

/-- The first byte has been read, and `Skip(-1)` goes back to it. -/
theorem exists_first_back {b : UInt8} {rest : List UInt8} (hs : PacketIn.Holds m s bs)
    (hb : bs.drop s.packet.pos = b :: rest) :
    ∃ s1 s2, PacketIn.readFixedInteger m 1 0 s = (.ok b.toNat, s1) ∧
      PacketIn.skip (2 ^ 32 - 1) s1 = (.ok (), s2) ∧ PacketIn.Holds m s2 bs ∧
      s2.packet.pos = s.packet.pos := by
  obtain ⟨s1, hop, hholds, hpos, -⟩ := exists_first hs hb
  obtain ⟨s2, hskip, hholds2, hpos2⟩ := hholds.skip_back (by omega)
  exact ⟨s1, s2, hop, hskip, hholds2, by omega⟩

theorem parse_errPacket (fl : Floats) (un : Uninit) (room : Nat) (protocol : ProtocolType)
    {code : UInt16} {message : List UInt8} (hphase : rs.phase = .parseNew)
    (hs : PacketIn.Holds m s bs) (hb : bs.drop s.packet.pos = errPayload code message) :
    ∃ s', parse m fl un room protocol (rs, s) = (.ok true,
      { rs with errorCode := code, errorMessage := message, phase := .parseFinish }, s') := by
  obtain ⟨s1, hfirst, hholds1, -, hrest⟩ := exists_first hs hb
  obtain ⟨s2, hcode, hholds2, hmessage⟩ :=
    (PacketIn.reads_toLE m (n := 2) code.toNat_lt).next hholds1 hrest
  obtain ⟨s3, hread⟩ := hholds2.readRest []
  rw [hmessage] at hread
  have hrun : parsePhase m fl un room protocol rs.phase (rs, s) = (.ok (),
      { rs with errorCode := code, errorMessage := message, phase := .parseFinish }, s3) := by
    rw [hphase, parsePhase, parseNew, into_bind_ok (onPacket_ok hfirst rs),
      if_neg (by decide), if_pos rfl, into_bind_ok (PacketIn.into_ok hcode _ rs),
      into_bind_ok (PacketIn.into_ok hread _ _), UInt16.ofNat_toNat]
    rfl
  exact ⟨s3, parse_ok hrun⟩

theorem parse_okPacket (fl : Floats) (un : Uninit) (room : Nat) (protocol : ProtocolType)
    {affectedRows lastInsertId : UInt64} {statusFlag warnings : UInt16}
    {info : List UInt8} (hphase : rs.phase = .parseNew) (hs : PacketIn.Holds m s bs)
    (hb : bs.drop s.packet.pos = okPayload affectedRows lastInsertId statusFlag warnings info) :
    ∃ rs' s', parse m fl un room protocol (rs, s) = (.ok true, rs', s') ∧
      rs'.errorCode = rs.errorCode ∧ rs'.rowReaders = rs.rowReaders := by
  obtain ⟨s1, hfirst, hholds1, -, hrest⟩ := exists_first hs hb
  simp only [List.append_assoc] at hrest
  obtain ⟨s2, haffected, hholds2, hrest2⟩ := (PacketIn.reads_readVariableInteger m 64 (un.locals 0)
    affectedRows.toNat_lt).next hholds1 hrest
  obtain ⟨s3, hinsert, hholds3, hrest3⟩ := (PacketIn.reads_readVariableInteger m 64 (un.locals 1)
    lastInsertId.toNat_lt).next hholds2 hrest2
  obtain ⟨s4, hstatus, hholds4, hrest4⟩ :=
    (PacketIn.reads_toLE m (n := 2) statusFlag.toNat_lt).next hholds3 hrest3
  obtain ⟨s5, hwarnings, hholds5, hrest5⟩ :=
    (PacketIn.reads_toLE m (n := 2) warnings.toNat_lt).next hholds4 hrest4
  obtain ⟨s6, hinfo⟩ := hholds5.readRest []
  have hrun : ∃ rs', parsePhase m fl un room protocol rs.phase (rs, s) = (.ok (), rs', s6) ∧
      rs'.phase = .parseFinish ∧ rs'.errorCode = rs.errorCode ∧
      rs'.rowReaders = rs.rowReaders := by
    rw [hphase, parsePhase, parseNew, into_bind_ok (onPacket_ok hfirst rs), if_pos rfl,
      into_bind_ok (PacketIn.into_ok haffected _ rs), into_bind_ok (PacketIn.into_ok hinsert _ _),
      into_bind_ok (PacketIn.into_ok hstatus _ _), into_bind_ok (PacketIn.into_ok hwarnings _ _),
      into_bind_ok (PacketIn.into_ok hinfo _ _)]
    exact ⟨_, rfl, rfl, rfl, rfl⟩
  obtain ⟨rs', hrun, hfinish, hcode, hreaders⟩ := hrun
  exact ⟨rs', s6, parse_finishes hrun hfinish, hcode, hreaders⟩

/-- The number of columns: one that has the three-byte form is read wrong, and cut to 32 bits.
    Then there must be memory for as many. -/
theorem exists_numColumns (fl : Floats) (un : Uninit) (room : Nat) (protocol : ProtocolType)
    {n : Nat} (hphase : rs.phase = .parseNew) (hpos : 0 < n)
    (hlt : n < 2 ^ 64) (hs : PacketIn.Holds m s bs)
    (hb : bs.drop s.packet.pos = variableInteger n) :
    ∃ s', parsePhase m fl un room protocol rs.phase (rs, s) =
      (reserveColumns room >>= fun _ => PacketIn.assign fun rs =>
        { rs with phase := .parseColumnDefinition }) ({ rs with
          metadata := { rs.metadata with numColumns := (un.locals 0).decoded n % 2 ^ 32 } }, s') := by
  obtain ⟨b, rest, hvar, hok, herr, hfile⟩ := first_numColumns hpos
  obtain ⟨s1, s2, hfirst, hskip, hholds2, hpos2⟩ := exists_first_back hs (hb.trans hvar)
  obtain ⟨s3, hread, -⟩ := (PacketIn.reads_readVariableInteger m 32 (un.locals 0) hlt).next
    hholds2 (show bs.drop s2.packet.pos = variableInteger n ++ [] by
      rw [hpos2, hb, List.append_nil])
  have hnew : parsePhase m fl un room protocol rs.phase = parseNew m un room := by
    rw [hphase, parsePhase]
  refine ⟨s3, ?_⟩
  rw [hnew, parseNew, into_bind_ok (onPacket_ok hfirst rs), if_neg hok, if_neg herr,
    if_neg hfile, into_bind_ok (onPacket_ok hskip rs), into_bind_ok (PacketIn.into_ok hread _ rs)]

theorem parse_numColumns (fl : Floats) (un : Uninit) {room : Nat} (protocol : ProtocolType)
    {n : Nat} (hphase : rs.phase = .parseNew) (hpos : 0 < n)
    (hlt : n < 2 ^ 64) (hs : PacketIn.Holds m s bs)
    (hb : bs.drop s.packet.pos = variableInteger n)
    (hroom : (un.locals 0).decoded n % 2 ^ 32 ≤ room) :
    ∃ s', parse m fl un room protocol (rs, s) = (.ok false, { rs with
      metadata := { rs.metadata with numColumns := (un.locals 0).decoded n % 2 ^ 32 },
      phase := .parseColumnDefinition }, s') := by
  obtain ⟨s3, hcount⟩ := exists_numColumns fl un room protocol hphase hpos hlt hs hb
  have hreserve : reserveColumns room ({ rs with
      metadata := { rs.metadata with numColumns := (un.locals 0).decoded n % 2 ^ 32 } }, s3) =
      (.ok (), { rs with
        metadata := { rs.metadata with numColumns := (un.locals 0).decoded n % 2 ^ 32 } }, s3) :=
    if_pos hroom
  rw [into_bind_ok hreserve] at hcount
  exact ⟨s3, parse_ok hcount⟩

theorem parse_numColumns_throws (fl : Floats) (un : Uninit) {room : Nat} (protocol : ProtocolType)
    {n : Nat} (hphase : rs.phase = .parseNew) (hpos : 0 < n)
    (hlt : n < 2 ^ 64) (hs : PacketIn.Holds m s bs)
    (hb : bs.drop s.packet.pos = variableInteger n)
    (hroom : room < (un.locals 0).decoded n % 2 ^ 32) :
    ThrowsInto (parse m fl un room protocol) (rs, s) := by
  obtain ⟨s3, hcount⟩ := exists_numColumns fl un room protocol hphase hpos hlt hs hb
  have hreserve : reserveColumns room ({ rs with
      metadata := { rs.metadata with numColumns := (un.locals 0).decoded n % 2 ^ 32 } }, s3) =
      (.error .badAlloc, { rs with
        metadata := { rs.metadata with numColumns := (un.locals 0).decoded n % 2 ^ 32 } }, s3) :=
    if_neg (Nat.not_le.mpr hroom)
  rw [PacketIn.into_bind_error hreserve] at hcount
  exact parse_throws ⟨_, _, hcount⟩

/-- What `Parse` does with a column definition is what `pushColumn` does. -/
theorem exists_pushColumn (fl : Floats) (un : Uninit) (room : Nat) (protocol : ProtocolType)
    {cm : ColumnDefinition} (hphase : rs.phase = .parseColumnDefinition)
    (hs : PacketIn.Holds m s bs) (hb : bs.drop s.packet.pos = columnPayload cm)
    (hfits : (columnPayload cm).length < 2 ^ 24) :
    ∃ s2, parsePhase m fl un room protocol rs.phase (rs, s) = pushColumn m un (rs, s2) ∧
      PacketIn.Holds m s2 bs ∧ bs.drop s2.packet.pos = columnPayload cm := by
  obtain ⟨b, rest, hpayload, hlt⟩ := first_columnPayload hfits
  obtain ⟨s1, s2, hfirst, hskip, hholds2, hpos2⟩ := exists_first_back hs (hb.trans hpayload)
  refine ⟨s2, ?_, hholds2, by rw [hpos2, hb]⟩
  rw [hphase, parsePhase, parseColumnDefinition, into_bind_ok (onPacket_ok hfirst rs),
    if_neg (Nat.ne_of_lt hlt)]
  exact into_bind_ok (onPacket_ok hskip rs)

theorem parse_column (fl : Floats) (un : Uninit) (room : Nat) (protocol : ProtocolType)
    {cm : ColumnDefinition} (hphase : rs.phase = .parseColumnDefinition)
    (hs : PacketIn.Holds m s bs) (hb : bs.drop s.packet.pos = columnPayload cm)
    (hfits : (columnPayload cm).length < 2 ^ 24)
    (hcode : MysqlFieldType.ofCode cm.type.code = cm.type)
    (hshort : ∀ str ∈ cm.strings, ¬ ThreeBytes str.length) :
    ∃ s', parse m fl un room protocol (rs, s) = (.ok false, rs.addColumns [cm], s') := by
  obtain ⟨s2, hpush, hholds2, hb2⟩ := exists_pushColumn fl un room protocol hphase hs hb hfits
  obtain ⟨s3, hfill, -, -⟩ := fills_columnDefinition m un.locals hshort
    (Nat.lt_trans hfits (by decide)) hcode .make s2 bs hholds2 (by rw [hb2])
  have hrun : parsePhase m fl un room protocol rs.phase (rs, s) =
      (.ok (), rs.addColumns [cm], s3) := by
    rw [hpush, pushColumn, hfill]
    rfl
  refine ⟨s3, parse_continues hrun ?_⟩
  rw [phase_addColumns, hphase]
  exact nofun

theorem parse_column_throws (fl : Floats) (un : Uninit) (room : Nat) (protocol : ProtocolType)
    {cm : ColumnDefinition} (hphase : rs.phase = .parseColumnDefinition)
    (hs : PacketIn.Holds m s bs) (hb : bs.drop s.packet.pos = columnPayload cm)
    (hfits : (columnPayload cm).length < 2 ^ 24) (hsmall : bs.length < 2 ^ 24 + 4)
    (hdirty : ∀ k, un.locals k = dirty) (hlong : ∃ str ∈ cm.strings, ThreeBytes str.length) :
    ThrowsInto (parse m fl un room protocol) (rs, s) := by
  obtain ⟨s2, hpush, hholds2, hb2⟩ := exists_pushColumn fl un room protocol hphase hs hb hfits
  obtain ⟨e, ⟨cm', s3⟩, hthrows⟩ := columnDefinition_throws (x := .make) hdirty hlong hholds2
    (by rw [hb2]) hsmall
  refine parse_throws ⟨e, ?_⟩
  rw [hpush, pushColumn, hthrows]
  exact ⟨_, rfl⟩

theorem parse_endOfColumns (fl : Floats) (un : Uninit) (room : Nat) (protocol : ProtocolType)
    {warnings statusFlag : UInt16}
    (hphase : rs.phase = .parseColumnDefinition) (hs : PacketIn.Holds m s bs)
    (hb : bs.drop s.packet.pos = eofPayload warnings statusFlag) :
    ∃ s', parse m fl un room protocol (rs, s) =
      (.ok false, { rs with phase := .parseResultsetRow }, s') := by
  obtain ⟨s1, hfirst, -⟩ := exists_first hs hb
  have hrun : parsePhase m fl un room protocol rs.phase (rs, s) =
      (.ok (), { rs with phase := .parseResultsetRow }, s1) := by
    rw [hphase, parsePhase, parseColumnDefinition, into_bind_ok (onPacket_ok hfirst rs),
      if_pos rfl]
    rfl
  exact ⟨s1, parse_continues hrun nofun⟩

/-- What `Parse` does with a row is what `pushRow` does. -/
theorem exists_pushRow (fl : Floats) (un : Uninit) (room : Nat) {fields : List RowField}
    (hphase : rs.phase = .parseResultsetRow)
    (hs : PacketIn.Holds m s bs) (hb : bs.drop s.packet.pos = rowPayload protocol fields)
    (hpos : 0 < fields.length) (hfits : (rowPayload protocol fields).length < 2 ^ 24) :
    ∃ s1, parsePhase m fl un room protocol rs.phase (rs, s) = pushRow m fl un protocol (rs, s1) ∧
      PacketIn.Holds m s1 bs := by
  obtain ⟨b, rest, hpayload, hlt⟩ := first_rowPayload hpos hfits
  obtain ⟨s1, hfirst, hholds1, -⟩ := exists_first hs (hb.trans hpayload)
  have hrow : ¬ (b.toNat = packetEof.toNat ∨ b.toNat = packetErr.toNat) := by
    rintro (heof | herr)
    · exact Nat.ne_of_lt hlt heof
    · exact absurd (herr ▸ hlt) (by decide)
  refine ⟨s1, ?_, hholds1⟩
  rw [hphase, parsePhase, parseResultsetRow, into_bind_ok (onPacket_ok hfirst rs), if_neg hrow]

variable {fields : List RowField} {head : List UInt8}

theorem parse_row (fl : Floats) (un : Uninit) (room : Nat) (hphase : rs.phase = .parseResultsetRow)
    (hmd : rs.metadata = ⟨fields.map Prod.fst, fields.length⟩) (hhead : head.length = 4)
    (hs : PacketIn.Holds m s (head ++ rowPayload protocol fields)) (hcursor : s.packet.pos = 4)
    (hpos : 0 < fields.length) (hfits : (rowPayload protocol fields).length < 2 ^ 24)
    (hgood : ∀ f ∈ fields, f.Good protocol)
    (hsized : protocol = .binary → ∀ f ∈ fields, f.Sized) :
    ∃ r s', parse m fl un room protocol (rs, s) =
        (.ok false, rs.addReaders [r], s') ∧
      r.Took protocol m (head ++ rowPayload protocol fields) := by
  have hb : (head ++ rowPayload protocol fields).drop s.packet.pos =
      rowPayload protocol fields := by rw [hcursor, ← hhead, List.drop_left]
  obtain ⟨s1, hpush, hholds1⟩ := exists_pushRow fl un room hphase hs hb hpos hfits
  have hsize := length_le_rowPayload protocol fields
  obtain ⟨r, hparse, htook⟩ := RowReader.parseRowPacket_accepts fl un hhead hholds1 hgood hsized
    (by omega)
  have hrun : parsePhase m fl un room protocol rs.phase (rs, s) =
      (.ok (), rs.addReaders [r], ⟨.empty, s1.asked⟩) := by
    rw [← hmd] at hparse
    rw [hpush, pushRow, hparse]
    rfl
  refine ⟨r, _, parse_continues hrun ?_, htook⟩
  rw [phase_addReaders, hphase]
  exact nofun

/-- A row that is parsed with dirty variables is good, and `num_columns` is right. -/
theorem good_of_parse_row {num : Nat} {b : Bool} (hphase : rs.phase = .parseResultsetRow)
    (hmd : rs.metadata = ⟨fields.map Prod.fst, num⟩) (hhead : head.length = 4)
    (hs : PacketIn.Holds m s (head ++ rowPayload protocol fields)) (hcursor : s.packet.pos = 4)
    (hpos : 0 < fields.length) (hfits : (rowPayload protocol fields).length < 2 ^ 24)
    (hdirty : ∀ k, un.locals k = dirty) (hnum : fields.length ≤ num)
    (hsized : protocol = .binary → ∀ f ∈ fields, f.Sized)
    (hok : parse m fl un room protocol (rs, s) = (.ok b, rs', s')) :
    (∀ f ∈ fields, f.Good protocol) ∧ num = fields.length := by
  have hb : (head ++ rowPayload protocol fields).drop s.packet.pos =
      rowPayload protocol fields := by rw [hcursor, ← hhead, List.drop_left]
  obtain ⟨s1, hpush, hholds1⟩ := exists_pushRow fl un room hphase hs hb hpos hfits
  rcases hparse : RowReader.parseRowPacket m fl un protocol ⟨fields.map Prod.fst, num⟩ s1
    with e | r
  · have hthrows : ThrowsInto (parsePhase m fl un room protocol rs.phase) (rs, s) := by
      rw [ThrowsInto, hpush, pushRow, hmd, hparse]
      exact ⟨e, _, rfl⟩
    obtain ⟨e', st', hthrows⟩ := parse_throws hthrows
    rw [hok] at hthrows
    cases hthrows
  · exact RowReader.good_of_parseRowPacket hhead hholds1 hdirty hsized hfits hpos hnum hparse

/-- The packet behind the rows: the code of an ERR packet is not looked at. -/
theorem parse_ending (fl : Floats) (un : Uninit) (room : Nat) (protocol : ProtocolType)
    {ending : Ending} (hphase : rs.phase = .parseResultsetRow)
    (hs : PacketIn.Holds m s bs) (hb : bs.drop s.packet.pos = ending.payload) :
    ∃ s', parse m fl un room protocol (rs, s) =
      (.ok true, { rs with phase := .parseFinish }, s') := by
  obtain ⟨b, rest, hpayload, hlast⟩ : ∃ b rest, ending.payload = b :: rest ∧
      (b.toNat = packetEof.toNat ∨ b.toNat = packetErr.toNat) := by
    cases ending with
    | eof warnings statusFlag => exact ⟨packetEof, _, rfl, .inl rfl⟩
    | err code message => exact ⟨packetErr, _, rfl, .inr rfl⟩
  obtain ⟨s1, hfirst, -⟩ := exists_first hs (hb.trans hpayload)
  have hrun : parsePhase m fl un room protocol rs.phase (rs, s) =
      (.ok (), { rs with phase := .parseFinish }, s1) := by
    rw [hphase, parsePhase, parseResultsetRow, into_bind_ok (onPacket_ok hfirst rs),
      if_pos hlast]
    rfl
  exact ⟨s1, parse_finishes hrun rfl⟩

/-! ### The phase -/

/-- Where `op` returns, the phase is `phase`. -/
def Ends {α : Type} (phase : ParsePhase) (op : Into ResultSet α) : Prop :=
  ∀ st a st', op st = (.ok a, st') → st'.1.phase = phase

theorem Ends.bind {α β : Type} {phase : ParsePhase} {op : Into ResultSet α}
    {f : α → Into ResultSet β} (h : ∀ a, Ends phase (f a)) : Ends phase (op >>= f) := by
  intro st b st' hok
  rcases hop : op st with ⟨e | a, st1⟩
  · rw [PacketIn.into_bind_error hop] at hok
    cases hok
  · rw [into_bind_ok hop] at hok
    exact h a st1 b st' hok

theorem ends_assign {phase : ParsePhase} {f : ResultSet → ResultSet}
    (h : ∀ rs, (f rs).phase = phase) : Ends phase (PacketIn.assign f) := by
  rintro ⟨rs, s⟩ a st' hok
  obtain rfl := congrArg Prod.snd hok
  exact h rs

theorem phase_pushColumn (m : Bytes) (un : Uninit) (st : ResultSet × PacketIn) :
    (pushColumn m un st).2.1.phase = st.1.phase := by
  obtain ⟨rs, s⟩ := st
  rw [pushColumn]
  rcases ColumnDefinition.parse m un.locals (.make, s) with ⟨r, cm, s'⟩
  rfl

theorem phase_pushRow (m : Bytes) (fl : Floats) (un : Uninit) (protocol : ProtocolType)
    (st : ResultSet × PacketIn) :
    (pushRow m fl un protocol st).2.1.phase = st.1.phase := by
  obtain ⟨rs, s⟩ := st
  rw [pushRow]
  cases RowReader.parseRowPacket m fl un protocol rs.metadata s <;> rfl

variable {first : UInt8} {rest : List UInt8}

theorem phase_parseNew (hs : PacketIn.Holds m s bs) (hb : bs.drop s.packet.pos = first :: rest)
    (hrun : parseNew m un room (rs, s) = (.ok (), rs', s')) :
    ParsePhase.parseNew.parse first = .ok rs'.phase := by
  obtain ⟨s1, hfirst, -⟩ := exists_first hs hb
  rw [parseNew, into_bind_ok (onPacket_ok hfirst rs)] at hrun
  rw [ParsePhase.parse]
  by_cases hok : first = packetOk
  · rw [if_pos (congrArg UInt8.toNat hok)] at hrun
    have hphase : rs'.phase = .parseFinish := by
      refine (?_ : Ends _ _) _ _ _ hrun
      iterate 5 refine Ends.bind fun _ => ?_
      exact ends_assign fun _ => rfl
    rw [if_pos hok, hphase]
  · rw [if_neg (mt UInt8.toNat_inj.mp hok)] at hrun
    rw [if_neg hok]
    by_cases herr : first = packetErr
    · rw [if_pos (congrArg UInt8.toNat herr)] at hrun
      have hphase : rs'.phase = .parseFinish := by
        refine (?_ : Ends _ _) _ _ _ hrun
        iterate 2 refine Ends.bind fun _ => ?_
        exact ends_assign fun _ => rfl
      rw [if_pos herr, hphase]
    · rw [if_neg (mt UInt8.toNat_inj.mp herr)] at hrun
      rw [if_neg herr]
      by_cases hfile : first = 0xFB
      · rw [if_pos (show first.toNat = 0xFB from congrArg UInt8.toNat hfile)] at hrun
        have hphase : rs'.phase = .parseFinish := by
          refine (?_ : Ends _ _) _ _ _ hrun
          exact ends_assign fun _ => rfl
        rw [if_pos hfile, hphase]
      · rw [if_neg (show ¬ first.toNat = 0xFB from fun heq => hfile (UInt8.toNat_inj.mp heq))]
          at hrun
        have hphase : rs'.phase = .parseColumnDefinition := by
          refine (?_ : Ends _ _) _ _ _ hrun
          iterate 3 refine Ends.bind fun _ => ?_
          exact ends_assign fun _ => rfl
        rw [if_neg hfile, hphase]

theorem phase_parseColumnDefinition (hphase : rs.phase = .parseColumnDefinition)
    (hs : PacketIn.Holds m s bs) (hb : bs.drop s.packet.pos = first :: rest)
    (hrun : parseColumnDefinition m un (rs, s) = (.ok (), rs', s')) :
    ParsePhase.parseColumnDefinition.parse first = .ok rs'.phase := by
  obtain ⟨s1, hfirst, -⟩ := exists_first hs hb
  rw [parseColumnDefinition, into_bind_ok (onPacket_ok hfirst rs)] at hrun
  rw [ParsePhase.parse]
  by_cases heof : first = packetEof
  · rw [if_pos (congrArg UInt8.toNat heof)] at hrun
    have hphase' : rs'.phase = .parseResultsetRow := by
      refine (?_ : Ends _ _) _ _ _ hrun
      exact ends_assign fun _ => rfl
    rw [if_pos heof, hphase']
  · rw [if_neg (mt UInt8.toNat_inj.mp heof)] at hrun
    rw [if_neg heof]
    rcases hskip : PacketIn.skip (2 ^ 32 - 1) s1 with ⟨e | u, s2⟩
    · rw [PacketIn.into_bind_error (PacketIn.onPacket_error hskip rs)] at hrun
      cases hrun
    · rw [into_bind_ok (onPacket_ok hskip rs)] at hrun
      have hkept := phase_pushColumn m un (rs, s2)
      rw [hrun] at hkept
      exact congrArg Except.ok (hkept.trans hphase).symm

theorem phase_parseResultsetRow (hphase : rs.phase = .parseResultsetRow)
    (hs : PacketIn.Holds m s bs) (hb : bs.drop s.packet.pos = first :: rest)
    (hrun : parseResultsetRow m fl un protocol (rs, s) = (.ok (), rs', s')) :
    ParsePhase.parseResultsetRow.parse first = .ok rs'.phase := by
  obtain ⟨s1, hfirst, -⟩ := exists_first hs hb
  rw [parseResultsetRow, into_bind_ok (onPacket_ok hfirst rs)] at hrun
  rw [ParsePhase.parse]
  by_cases hlast : first = packetEof ∨ first = packetErr
  · rw [if_pos (hlast.imp (congrArg UInt8.toNat) (congrArg UInt8.toNat))] at hrun
    have hphase' : rs'.phase = .parseFinish := by
      refine (?_ : Ends _ _) _ _ _ hrun
      exact ends_assign fun _ => rfl
    rw [if_pos hlast, hphase']
  · rw [if_neg (mt (Or.imp UInt8.toNat_inj.mp UInt8.toNat_inj.mp) hlast)] at hrun
    rw [if_neg hlast]
    have hkept := phase_pushRow m fl un protocol (rs, s1)
    rw [hrun] at hkept
    exact congrArg Except.ok (hkept.trans hphase).symm

/-- Where `Parse` returns, the first byte has decided the phase, as `ParsePhase.parse` says. -/
theorem phase_parse {b : Bool} (hs : PacketIn.Holds m s bs)
    (hb : bs.drop s.packet.pos = first :: rest)
    (hok : parse m fl un room protocol (rs, s) = (.ok b, rs', s')) :
    rs.phase.parse first = .ok rs'.phase ∧ b = decide (rs'.phase = .parseFinish) := by
  rcases hrun : parsePhase m fl un room protocol rs.phase (rs, s) with ⟨e | u, rs1, s1⟩
  · obtain ⟨e', st', hthrows⟩ := parse_throws ⟨e, _, hrun⟩
    rw [hok] at hthrows
    cases hthrows
  · rw [parse_ok hrun] at hok
    cases hok
    refine ⟨?_, rfl⟩
    cases hphase : rs.phase with
    | parseFinish =>
        rw [hphase, parsePhase] at hrun
        cases hrun
    | parseNew =>
        rw [hphase] at hrun
        exact phase_parseNew hs hb hrun
    | parseColumnDefinition =>
        rw [hphase] at hrun
        exact phase_parseColumnDefinition hphase hs hb hrun
    | parseResultsetRow =>
        rw [hphase] at hrun
        exact phase_parseResultsetRow hphase hs hb hrun

end ResultSet

end Jengine.Dbo.Internal
