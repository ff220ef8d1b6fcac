import Jengine.Gateway.FlatPacket

/-!
# Packets of the mysql protocol

`Packet`, `PacketIn` and `PacketOut` (`base/dbo_bk/internal/packet.h`).  The chunks, the
cursor and the sizes, and with them `SkipTo`, `UpdateSize`, `UpdateCapacity`, `GetByte`,
`PutByte`, `AquireMemory` and `FetchData`, are those of `base/gateway/packet_base.h`, word
for word; the readers and writers over them are other ones.

`ReadVariableInteger` reads into local variables that are not initialised; `Locals` is what
they hold.  The three-byte form fills three of the four bytes of one of them.
-/

namespace Jengine.Dbo.Internal

open Jengine.Lib Jengine.Memory RefMemoryChunk
open Gateway (u32)

/-- Why an operation on a received packet, or on what is read from it, did not return. -/
inductive Fault where
  /-- A failed `assert`. -/
  | assertion
  /-- An `Exception` with its text. -/
  | exception (what : String)
  /-- An index behind the end of an array. -/
  | outOfRange
  /-- `std::bad_alloc`. -/
  | badAlloc
  /-- A loop that does not end. -/
  | diverges
deriving DecidableEq, Repr

/-- The same for an operation on a packet that is written. -/
def Fault.ofPacket : Gateway.Fault → Fault
  | .assertion => .assertion
  | .noMoreData => .exception "Packet::GetByte no more data"
  | .diverges => .diverges

/-- `PacketIn`.  `asked` is not in the source: it lists where the cursor was and how many bytes
    were wanted whenever `GetByte` or `Skip` was called. -/
structure PacketIn where
  packet : Gateway.Packet
  asked : List (Nat × Nat)
deriving DecidableEq, Repr

/-- An operation on a received packet; what it did before it failed is not undone. -/
abbrev PacketIn.Op := ExceptT Fault (StateM PacketIn)

/-- What the three variables `follow` of `ReadVariableInteger` hold before they are read into. -/
structure Locals where
  follow16 : UInt16
  follow32 : UInt32
  follow64 : UInt64
deriving DecidableEq, Repr

/-- An integer variable whose first bytes have been overwritten. -/
def overwritten (old : Nat) (bs : List UInt8) : Nat :=
  ofLE bs + old / 256 ^ bs.length * 256 ^ bs.length

/-- `std::string::resize`. -/
def resize (txt : List UInt8) (len : Nat) : List UInt8 :=
  txt.take len ++ List.replicate (len - txt.length) 0

namespace PacketIn

/-- The constructor `PacketIn(packet_data_t&)`. -/
def make (data : List RefMemoryChunk) : PacketIn :=
  let pk := Gateway.Packet.updateCapacity { Gateway.Packet.empty with data := data }
  ⟨{ pk with size := pk.capacity }, []⟩

/-- `Swap` into a new `PacketIn`, whose cursor is at the start. -/
def swap (s : PacketIn) : PacketIn :=
  ⟨{ s.packet with pos := 0, posY := 0 }, []⟩

/-- `SkipTo`. -/
def skipTo (pos : Nat) : Op Unit := fun s =>
  match s.packet.skipTo pos with
  | .ok pk => (.ok (), { s with packet := pk })
  | .error _ => (.error .assertion, s)

/-- `Skip`. -/
def skip (step : Nat) : Op Unit := fun s =>
  skipTo (u32 (s.packet.pos + step)) { s with asked := s.asked ++ [(s.packet.pos, step)] }

/-- `GetByte`; it throws before the cursor is moved. -/
def getByte (m : Bytes) (count : Nat) : Op (List UInt8) := fun s =>
  match Gateway.PacketIn.getByte m count s.packet with
  | .ok (bs, pk) => (.ok bs, ⟨pk, s.asked ++ [(s.packet.pos, count)]⟩)
  | .error _ => (.error (.exception "Packet::GetByte no more data"),
      { s with asked := s.asked ++ [(s.packet.pos, count)] })

/-- `CurrentByte`. -/
def currentByte (m : Bytes) : Op UInt8 := fun s =>
  match s.packet.data[s.packet.posY]? with
  | some ck =>
      if ck.pos < ck.count then (.ok (m ck.chunk (ck.data + ck.pos)), s)
      else (.error .outOfRange, s)
  | none => (.error .outOfRange, s)

/-- `ReadFixedInteger<N>` into a variable that holds `old`. -/
def readFixedInteger (m : Bytes) (n old : Nat) : Op Nat := do
  let bs ← getByte m n
  return overwritten old bs

/-- `ReadVariableInteger` into a variable of `w` bits. -/
def readVariableInteger (m : Bytes) (w : Nat) (l : Locals) : Op Nat := do
  let first ← readFixedInteger m 1 0
  if first < 251 then
    return first % 2 ^ w
  else if first = 0xfc then
    let follow ← readFixedInteger m 2 l.follow16.toNat
    return follow % 2 ^ w
  else if first = 0xfd then
    let follow ← readFixedInteger m 3 l.follow32.toNat
    return follow % 2 ^ w
  else if first = 0xfe then
    let follow ← readFixedInteger m 8 l.follow64.toNat
    return follow % 2 ^ w
  else
    throw .assertion

/-- `ReadFixedString` into a string that holds `v`. -/
def readFixedString (m : Bytes) (v : List UInt8) (fixedLen : Nat) : Op (List UInt8) := do
  let bs ← getByte m fixedLen
  return bs ++ (resize v fixedLen).drop bs.length

/-- `ReadLengthEncodedString` into a string that holds `txt`. -/
def readLengthEncodedString (m : Bytes) (l : Locals) (txt : List UInt8) : Op (List UInt8) := do
  let len ← readVariableInteger m 32 l
  readFixedString m txt len

/-- `ReadRestOfPacketString` into a string that holds `txt`. -/
def readRestOfPacketString (m : Bytes) (txt : List UInt8) : Op (List UInt8) := do
  let s ← get
  readFixedString m txt (u32 (s.packet.size + 2 ^ 32 - s.packet.pos))

/-- `ReadHead`: `payload_` and `sequence_id_`, which a new packet has at 0. -/
def readHead (m : Bytes) : Op (Nat × Nat) := do
  skipTo 0
  let payload ← readFixedInteger m 3 0
  let sequenceId ← readFixedInteger m 1 0
  let s ← get
  if u32 (payload + 3 + 1) ≠ s.packet.size then
    throw (.exception "broken packet from mysql")
  return (payload, sequenceId)

/-! ### A packet as a byte string -/

/-- The packet has the bytes `bs`, and its cursor is placed. -/
structure Holds (m : Bytes) (s : PacketIn) (bs : List UInt8) : Prop where
  placed : Gateway.Placed s.packet
  nonempty : ∀ v ∈ s.packet.data, 0 < v.count
  bytes : bytesOf m s.packet.data = bs
  size : s.packet.size = s.packet.capacity
  fits : bs.length < 2 ^ 32

/-- `op` consumes exactly the bytes `xs` and returns `a`, however the packet is cut into chunks,
    and whatever is around `xs`. -/
def Reads (m : Bytes) {α : Type} (op : Op α) (xs : List UInt8) (a : α) : Prop :=
  ∀ s bs, Holds m s bs → xs <+: bs.drop s.packet.pos →
    ∃ s', op s = (.ok a, s') ∧ Holds m s' bs ∧ s'.packet.pos = s.packet.pos + xs.length

section

variable {m : Bytes} {s : PacketIn} {bs : List UInt8}

theorem Holds.size_eq (h : Holds m s bs) : s.packet.size = bs.length := by
  rw [h.size, h.placed.capacity, ← length_bytesOf m, h.bytes]

theorem Holds.pos_le (h : Holds m s bs) : s.packet.pos ≤ bs.length := by
  rw [← h.size_eq]
  exact h.placed.pos_le

/-- A new packet of views that have not been read from. -/
theorem holds_make (m : Bytes) {data : List RefMemoryChunk} (hfresh : ∀ v ∈ data, v.pos = 0)
    (hne : ∀ v ∈ data, 0 < v.count) (hfits : total data < 2 ^ 32) :
    Holds m (make data) (bytesOf m data) := by
  have hu : u32 (total data) = total data := Nat.mod_eq_of_lt hfits
  have hmake : make data = ⟨⟨data, total data, 0, 0, total data⟩, []⟩ := by
    simp only [make, Gateway.Packet.updateCapacity, hu, Gateway.Packet.empty]
  rw [hmake]
  refine ⟨⟨fun v hv => absurd hv List.not_mem_nil, Gateway.Open.of_fresh hfresh hne,
    Nat.zero_le _, Gateway.sum_pos_of_fresh hfresh, rfl, Nat.zero_le _, Nat.le_refl _⟩, hne, rfl,
    rfl, ?_⟩
  rw [length_bytesOf]
  exact hfits

/-- Every byte string is in some packet. -/
theorem exists_holds {bs : List UInt8} (hne : bs ≠ []) (hfits : bs.length < 2 ^ 32) :
    ∃ m s, Holds m s bs ∧ s.packet.pos = 0 := by
  let v : RefMemoryChunk := ⟨0, 0, 0, bs.length⟩
  let m : Bytes := fun _ i => bs.getD i 0
  have hbytes : bytesOf m [v] = bs := by
    rw [bytesOf_cons, bytesOf_nil, List.append_nil]
    refine List.ext_getElem (length_bytes m v) fun i hi hi' => ?_
    simp only [bytes, Segments.read, List.getElem_map, List.getElem_range, m, v, Nat.zero_add,
      List.getD_eq_getElem?_getD, List.getElem?_eq_getElem hi', Option.getD_some]
  have hholds : Holds m (make [v]) (bytesOf m [v]) := by
    refine holds_make m (fun w hw => by rw [List.mem_singleton.mp hw]) (fun w hw => ?_) ?_
    · rw [List.mem_singleton.mp hw]
      exact List.length_pos_iff.mpr hne
    · rwa [total_cons, total_nil, Nat.add_zero]
  rw [hbytes] at hholds
  exact ⟨m, make [v], hholds, rfl⟩

/-- An operation that moves the cursor only. -/
theorem Holds.moved (h : Holds m s bs) {pk : Gateway.Packet} (asked : List (Nat × Nat))
    (hplaced : Gateway.Placed pk) (hregion : pk.data.map region = s.packet.data.map region)
    (hsize : pk.size = s.packet.size) (hcap : pk.capacity = s.packet.capacity) :
    Holds m ⟨pk, asked⟩ bs where
  placed := hplaced
  nonempty := Gateway.nonempty_of_region_eq hregion h.nonempty
  bytes := (bytesOf_of_region_eq m hregion).trans h.bytes
  size := by rw [hsize, hcap, h.size]
  fits := h.fits

theorem Holds.getByte (h : Holds m s bs) {n : Nat} (hn : s.packet.pos + n ≤ bs.length) :
    ∃ s', PacketIn.getByte m n s = (.ok ((bs.drop s.packet.pos).take n), s') ∧ Holds m s' bs ∧
      s'.packet.pos = s.packet.pos + n := by
  have hsize := h.size_eq
  have hfits := h.fits
  obtain ⟨pk, hop, hplaced, hregion, hsize', hpos, hcap⟩ :=
    h.placed.getByte h.nonempty m (by omega) (show s.packet.pos + n ≤ s.packet.size by omega)
  rw [h.bytes] at hop
  exact ⟨⟨pk, s.asked ++ [(s.packet.pos, n)]⟩, by simp only [PacketIn.getByte, hop],
    h.moved _ hplaced hregion hsize' hcap, hpos⟩

theorem Holds.skipTo (h : Holds m s bs) {pos : Nat} (hpos : pos ≤ bs.length) :
    ∃ s', PacketIn.skipTo pos s = (.ok (), s') ∧ Holds m s' bs ∧ s'.packet.pos = pos := by
  have hsize := h.size_eq
  have hcap := h.size
  obtain ⟨pk, hop, hplaced, hregion, hsize', hat, hcap'⟩ :=
    h.placed.skipTo h.nonempty m (show pos ≤ s.packet.capacity by omega)
  rw [Nat.max_eq_left (by omega)] at hsize'
  exact ⟨⟨pk, s.asked⟩, by simp only [PacketIn.skipTo, hop],
    h.moved _ hplaced hregion hsize' hcap', hat⟩

/-- `Swap` leaves the cursors of the chunks where they are; `SkipTo` places them. -/
theorem Holds.skipTo_swap (h : Holds m s bs) {pos : Nat} (hpos : pos ≤ bs.length) :
    ∃ s', PacketIn.skipTo pos s.swap = (.ok (), s') ∧ Holds m s' bs ∧ s'.packet.pos = pos := by
  have hsize := h.size_eq
  have hcap := h.size
  obtain ⟨pk, hop, hplaced, hregion, hsize', hat, hcap'⟩ :=
    Gateway.placed_skipTo
      (show s.swap.packet.capacity = total s.swap.packet.data from h.placed.capacity)
      h.placed.size_le h.nonempty m (show pos ≤ s.packet.capacity by omega)
  have hmax : max s.swap.packet.size pos = s.packet.size :=
    Nat.max_eq_left (show pos ≤ s.packet.size by omega)
  rw [hmax] at hsize'
  refine ⟨⟨pk, []⟩, ?_,
    h.moved _ hplaced hregion hsize' hcap', hat⟩
  rw [PacketIn.skipTo, hop]
  rfl

theorem Holds.skip (h : Holds m s bs) {step : Nat} (hstep : s.packet.pos + step ≤ bs.length) :
    ∃ s', PacketIn.skip step s = (.ok (), s') ∧ Holds m s' bs ∧
      s'.packet.pos = s.packet.pos + step := by
  have hfits := h.fits
  have hu : u32 (s.packet.pos + step) = s.packet.pos + step := Nat.mod_eq_of_lt (by omega)
  have hlogged := h.moved (s.asked ++ [(s.packet.pos, step)]) h.placed rfl rfl rfl
  obtain ⟨s', hop, hholds, hpos⟩ := hlogged.skipTo hstep
  exact ⟨s', by simp only [PacketIn.skip, hu, hop], hholds, hpos⟩

/-- `Skip(-1)`, behind the first byte. -/
theorem Holds.skip_back (h : Holds m s bs) (hpos : 0 < s.packet.pos) :
    ∃ s', PacketIn.skip (2 ^ 32 - 1) s = (.ok (), s') ∧ Holds m s' bs ∧
      s'.packet.pos = s.packet.pos - 1 := by
  have hle := h.pos_le
  have hfits := h.fits
  have hu : u32 (s.packet.pos + (2 ^ 32 - 1)) = s.packet.pos - 1 := by
    unfold u32
    omega
  have hlogged := h.moved (s.asked ++ [(s.packet.pos, 2 ^ 32 - 1)]) h.placed rfl rfl rfl
  obtain ⟨s', hop, hholds, hat⟩ := hlogged.skipTo (show s.packet.pos - 1 ≤ bs.length by omega)
  exact ⟨s', by simp only [PacketIn.skip, hu, hop], hholds, hat⟩

theorem Holds.currentByte (h : Holds m s bs) {b : UInt8} {rest : List UInt8}
    (hb : bs.drop s.packet.pos = b :: rest) : PacketIn.currentByte m s = (.ok b, s) := by
  have hunread := (h.placed.split m).2
  rw [h.bytes, hb] at hunread
  have hopen := h.placed.cursor
  rcases hdata : s.packet.data.drop s.packet.posY with _ | ⟨ck, cks⟩
  · rw [hdata] at hunread
    cases hunread
  · rw [hdata] at hunread hopen
    have hlt : ck.pos < ck.count := hopen.1
    have hck : s.packet.data[s.packet.posY]? = some ck := by
      rw [← List.head?_drop, hdata, List.head?_cons]
    have hone : ck.freeCount = 1 + (ck.count - ck.pos - 1) := by
      unfold freeCount
      omega
    rw [unreadOf_cons, unread, hone, Segments.read_add, List.append_assoc] at hunread
    have hbyte : m ck.chunk (ck.data + ck.pos) = b := (List.cons.inj hunread).1
    simp only [PacketIn.currentByte, hck, if_pos hlt, hbyte]

theorem bind_ok {α β : Type} {op : Op α} {f : α → Op β} {a : α} {s' : PacketIn}
    (h : op s = (.ok a, s')) : (op >>= f) s = f a s' := by
  show (ExceptT.bind op f) s = _
  simp only [ExceptT.bind, ExceptT.mk, StateT.bind, bind, h, ExceptT.bindCont]

theorem bind_error {α β : Type} {op : Op α} {f : α → Op β} {e : Fault} {s' : PacketIn}
    (h : op s = (.error e, s')) : (op >>= f) s = (.error e, s') := by
  show (ExceptT.bind op f) s = _
  simp only [ExceptT.bind, ExceptT.mk, StateT.bind, bind, h, ExceptT.bindCont]
  rfl

end

theorem Reads.pure (m : Bytes) {α : Type} (a : α) : Reads m (Pure.pure a : Op α) [] a :=
  fun s _ h _ => ⟨s, rfl, h, rfl⟩

theorem Reads.bind {m : Bytes} {α β : Type} {op : Op α} {f : α → Op β} {xs ys : List UInt8}
    {a : α} {b : β} (hop : Reads m op xs a) (hf : Reads m (f a) ys b) :
    Reads m (op >>= f) (xs ++ ys) b := by
  intro s bs h hxs
  obtain ⟨s1, h1, hholds1, hpos1⟩ := hop s bs h ((List.prefix_append xs ys).trans hxs)
  have hys : ys <+: bs.drop s1.packet.pos := by
    obtain ⟨zs, hzs⟩ := hxs
    rw [hpos1, ← List.drop_drop, ← hzs, List.append_assoc, List.drop_left]
    exact List.prefix_append ys zs
  obtain ⟨s2, h2, hholds2, hpos2⟩ := hf s1 bs hholds1 hys
  refine ⟨s2, (bind_ok h1).trans h2, hholds2, ?_⟩
  rw [hpos2, hpos1, List.length_append, Nat.add_assoc]

theorem Reads.map {m : Bytes} {α β : Type} {op : Op α} {f : α → β} {xs : List UInt8} {a : α}
    (hop : Reads m op xs a) : Reads m (do let a ← op; return f a) xs (f a) := by
  have hbind := hop.bind (f := fun a => Pure.pure (f a)) (Reads.pure m (f a))
  rwa [List.append_nil] at hbind

theorem reads_getByte (m : Bytes) (xs : List UInt8) : Reads m (getByte m xs.length) xs xs := by
  intro s bs h hxs
  have hle := h.pos_le
  have hlen := hxs.length_le
  rw [List.length_drop] at hlen
  obtain ⟨s', hop, hholds, hpos⟩ := h.getByte (n := xs.length) (by omega)
  rw [← List.prefix_iff_eq_take.mp hxs] at hop
  exact ⟨s', hop, hholds, hpos⟩

theorem reads_skip (m : Bytes) (xs : List UInt8) : Reads m (skip xs.length) xs () := by
  intro s bs h hxs
  have hle := h.pos_le
  have hlen := hxs.length_le
  rw [List.length_drop] at hlen
  exact h.skip (by omega)

theorem reads_readFixedInteger (m : Bytes) {n : Nat} {xs : List UInt8} (h : xs.length = n)
    (old : Nat) : Reads m (readFixedInteger m n old) xs (overwritten old xs) := by
  subst h
  exact (reads_getByte m xs).map

theorem reads_readFixedString (m : Bytes) (v str : List UInt8) :
    Reads m (readFixedString m v str.length) str str := by
  have hread : Reads m (readFixedString m v str.length) str
      (str ++ (resize v str.length).drop str.length) := (reads_getByte m str).map
  have hnil : (resize v str.length).drop str.length = [] := by
    refine List.drop_eq_nil_of_le ?_
    rw [resize, List.length_append, List.length_take, List.length_replicate]
    omega
  rwa [hnil, List.append_nil] at hread

end PacketIn

/-! ### Writing -/

namespace PacketOut

open Gateway.PacketOut (Op putByte)

/-- `WriteVariableInteger`. -/
def writeVariableInteger (v : UInt64) : Op Unit :=
  if v < 251 then
    putByte (toLE 1 v.toNat)
  else if 251 ≤ v ∧ v < 65536 then do
    putByte [0xfc]
    putByte (toLE 2 v.toNat)
  else if 65536 ≤ v ∧ v < 16777216 then do
    putByte [0xfd]
    putByte (toLE 3 v.toNat)
  else do
    putByte [0xfe]
    putByte (toLE 8 v.toNat)

/-- `WriteLengthEncodedString`: `PutByte` takes the length as a `uint32_t`. -/
def writeLengthEncodedString (str : List UInt8) : Op Unit := do
  writeVariableInteger (UInt64.ofNat str.length)
  putByte (str.take (u32 str.length))

end PacketOut

end Jengine.Dbo.Internal
