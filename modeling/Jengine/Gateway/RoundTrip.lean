import Jengine.Gateway.Packet

/-!
# What is written is what is read

The types a packet carries, with their encoding, writer and reader.  The
writers are `Write*` and `<<`; the containers have a `<<` of their own, which
writes the number of elements and then every element.  On the reading side a
container is read the way it was written, by `ReadUShort` and one reader call
for each element.

`Appends` and `Reads` are proved once for every type, by recursion on it.  The
round trip then says nothing about chunks any more: whatever the chunk size of
the pool, the recycled chunks' content and the cut of the received bytes, the
values read are the values written.
-/

namespace Jengine.Gateway

open Jengine.Lib Jengine.Memory RefMemoryChunk

/-- The types of the values of a packet. -/
inductive Ty where
  | bool
  | sbyte
  | byte
  | short
  | ushort
  | int
  | uint
  | float
  | double
  | long
  | ulong
  | string
  | bits
  | list (t : Ty)
deriving DecidableEq, Repr

namespace Ty

/-- The values of a type.  Strings are byte strings, floating-point values are bit
    patterns. -/
@[reducible] def Value : Ty → Type
  | bool => Bool
  | sbyte => Int8
  | byte => UInt8
  | short => Int16
  | ushort => UInt16
  | int => Int32
  | uint => UInt32
  | float => UInt32
  | double => UInt64
  | long => Int64
  | ulong => UInt64
  | string => List UInt8
  | bits => List UInt8
  | list t => List (Value t)

/-- Strings, bit blocks and containers have at most 65535 elements: their length is
    sent as a `uint16_t`. -/
def Fits : (t : Ty) → t.Value → Prop
  | string, v => List.length v ≤ 65535
  | bits, v => List.length v ≤ 65535
  | list t, v => List.length v ≤ 65535 ∧ ∀ x ∈ v, Fits t x
  | bool, _ | sbyte, _ | byte, _ | short, _ | ushort, _ | int, _ | uint, _ | float, _ | double, _
  | long, _ | ulong, _ => True

/-- The encoding of a value. -/
def encode : (t : Ty) → t.Value → List UInt8
  | bool, v => toLE 1 (cond v 1 0)
  | sbyte, v => toLE 1 (Int8.toBitVec v).toNat
  | byte, v => toLE 1 (UInt8.toNat v)
  | short, v => toLE 2 (Int16.toBitVec v).toNat
  | ushort, v => toLE 2 (UInt16.toNat v)
  | int, v => toLE 4 (Int32.toBitVec v).toNat
  | uint, v => toLE 4 (UInt32.toNat v)
  | float, v => toLE 4 (UInt32.toNat v)
  | double, v => toLE 8 (UInt64.toNat v)
  | long, v => toLE 8 (Int64.toBitVec v).toNat
  | ulong, v => toLE 8 (UInt64.toNat v)
  | string, v => toLE 2 (List.length v) ++ v
  | bits, v => toLE 2 (List.length v) ++ v
  | list t, v => toLE 2 (List.length v) ++ List.flatMap (encode t) v

end Ty

/-- The loop of `<<` on a container. -/
def PacketOut.writeEach {α : Type} (write : α → PacketOut.Op Unit) : List α → PacketOut.Op Unit
  | [] => pure ()
  | x :: xs => do
      write x
      PacketOut.writeEach write xs

/-- One reader call for each of `n` elements. -/
def PacketIn.readEach {α : Type} (read : PacketIn.Op α) : Nat → PacketIn.Op (List α)
  | 0 => pure []
  | n + 1 => do
      let x ← read
      let xs ← PacketIn.readEach read n
      return x :: xs

/-- The writer of a type. -/
def PacketOut.write : (t : Ty) → t.Value → PacketOut.Op Unit
  | .bool, v => writeBoolean v
  | .sbyte, v => writeSByte v
  | .byte, v => writeByte v
  | .short, v => writeShort v
  | .ushort, v => writeUShort v
  | .int, v => writeInt v
  | .uint, v => writeUInt v
  | .float, v => writeFloat v
  | .double, v => writeDouble v
  | .long, v => writeLong v
  | .ulong, v => writeULong v
  | .string, v => writeString v
  | .bits, v => writeBits v
  | .list t, v => do
      writeUShort (UInt16.ofNat (List.length v))
      writeEach (PacketOut.write t) v

/-- The reader of a type. -/
def PacketIn.read (m : Bytes) : (t : Ty) → PacketIn.Op t.Value
  | .bool => readBoolean m
  | .sbyte => readSByte m
  | .byte => readByte m
  | .short => readShort m
  | .ushort => readUShort m
  | .int => readInt32 m
  | .uint => readUInt m
  | .float => readFloat m
  | .double => readDouble m
  | .long => readLong m
  | .ulong => readULong m
  | .string => readString m
  | .bits => readBits m
  | .list t => do
      let n ← readUShort m
      readEach (PacketIn.read m t) n.toNat

/-! ### Every writer writes the encoding -/

namespace PacketOut

theorem appends_writeEach {α : Type} {write : α → Op Unit} {enc : α → List UInt8} :
    ∀ {xs : List α}, (∀ x ∈ xs, Appends (write x) (enc x)) →
      Appends (writeEach write xs) (xs.flatMap enc) := by
  intro xs
  induction xs with
  | nil => intro _; exact Appends.pure
  | cons x xs ih =>
      intro h
      exact (h x List.mem_cons_self).seq (ih fun y hy => h y (List.mem_cons_of_mem x hy))

/-- A length that fits its `uint16_t`. -/
theorem toNat_ofNat_length {α : Type} {v : List α} (h : v.length ≤ 65535) :
    (UInt16.ofNat v.length).toNat = v.length :=
  UInt16.toNat_ofNat_of_lt' (by show v.length < 2 ^ 16; omega)

theorem appends_length {α : Type} {v : List α} (h : v.length ≤ 65535) :
    Appends (writeUShort (UInt16.ofNat v.length)) (toLE 2 v.length) := by
  have hw := appends_writeUShort (UInt16.ofNat v.length)
  rwa [toNat_ofNat_length h] at hw

/-- A block of bytes behind its length. -/
theorem appends_block {v : List UInt8} {n : Nat} (h : v.length ≤ 65535) (hn : n = v.length) :
    Appends (do writeUShort (UInt16.ofNat v.length); putByte (v.take n)) (toLE 2 v.length ++ v) := by
  rw [hn, List.take_length]
  exact (appends_length h).seq (appends_putByte h)

theorem appends_write : ∀ (t : Ty) (v : t.Value), t.Fits v → Appends (write t v) (t.encode v) := by
  intro t
  induction t with
  | bool =>
      intro v _
      cases v
      · exact appends_putByte (by simp)
      · exact appends_putByte (by simp)
  | string =>
      intro v hfit
      refine appends_block hfit ?_
      simp only [Ty.Fits] at hfit
      exact Nat.mod_eq_of_lt (by omega)
  | bits => exact fun v hfit => appends_block hfit (toNat_ofNat_length hfit)
  | list t ih =>
      intro v hfit
      exact (appends_length hfit.1).seq (appends_writeEach fun x hx => ih x (hfit.2 x hx))
  | _ =>
      intro v _
      exact appends_putByte (by simp)

end PacketOut

/-! ### Every reader reads the encoding back -/

namespace PacketIn

theorem reads_readEach {m : Bytes} {α : Type} {read : Op α} {enc : α → List UInt8} :
    ∀ {xs : List α}, (∀ x ∈ xs, Reads m read (enc x) x) →
      Reads m (readEach read xs.length) (xs.flatMap enc) xs := by
  intro xs
  induction xs with
  | nil => intro _; exact Reads.pure m []
  | cons x xs ih =>
      intro h
      have hrest := ih fun y hy => h y (List.mem_cons_of_mem x hy)
      have htail := hrest.bind (f := fun ys => Pure.pure (x :: ys)) (Reads.pure m (x :: xs))
      rw [List.append_nil] at htail
      exact (h x List.mem_cons_self).bind
        (f := fun y => readEach read xs.length >>= fun ys => Pure.pure (y :: ys)) htail

theorem reads_readUShort (m : Bytes) (v : UInt16) :
    Reads m (readUShort m) (toLE 2 v.toNat) v := by
  have hread := (reads_readInt_toLE m (n := 2) v.toNat_lt).map UInt16.ofNat
  rwa [UInt16.ofNat_toNat] at hread

theorem reads_readShort (m : Bytes) (v : Int16) :
    Reads m (readShort m) (toLE 2 v.toBitVec.toNat) v := by
  have hread := (reads_readInt_toLE m (n := 2) v.toBitVec.isLt).map
    (fun n => Int16.ofBitVec (.ofNat 16 n))
  rwa [BitVec.ofNat_toNat, BitVec.setWidth_eq] at hread

theorem reads_readByte (m : Bytes) (v : UInt8) : Reads m (readByte m) (toLE 1 v.toNat) v := by
  have hread := (reads_readInt_toLE m (n := 1) v.toNat_lt).map UInt8.ofNat
  rwa [UInt8.ofNat_toNat] at hread

theorem reads_readUInt (m : Bytes) (v : UInt32) :
    Reads m (readUInt m) (toLE 4 v.toNat) v := by
  have hread := (reads_readInt_toLE m (n := 4) v.toNat_lt).map UInt32.ofNat
  rwa [UInt32.ofNat_toNat] at hread

theorem reads_readULong (m : Bytes) (v : UInt64) :
    Reads m (readULong m) (toLE 8 v.toNat) v := by
  have hread := (reads_readInt_toLE m (n := 8) v.toNat_lt).map UInt64.ofNat
  rwa [UInt64.ofNat_toNat] at hread

/-- A block of bytes behind its length. -/
theorem reads_block (m : Bytes) {v : List UInt8} (h : v.length ≤ 65535) :
    Reads m (do let len ← readUShort m; getByte m len.toNat) (toLE 2 v.length ++ v) v := by
  have hlen := reads_readUShort m (UInt16.ofNat v.length)
  have hget := reads_getByte m v
  rw [PacketOut.toNat_ofNat_length h] at hlen
  rw [← PacketOut.toNat_ofNat_length h] at hget
  exact hlen.bind hget

theorem reads_read (m : Bytes) : ∀ (t : Ty) (v : t.Value), t.Fits v →
    Reads m (read m t) (t.encode v) v := by
  intro t
  induction t with
  | bool =>
      intro v _
      cases v
      · exact (reads_readByte m 0).map (fun b => b == 1)
      · exact (reads_readByte m 1).map (fun b => b == 1)
  | sbyte =>
      intro v _
      have hread := (reads_readInt_toLE m (n := 1) (Int8.toBitVec v).isLt).map
        (fun n => Int8.ofBitVec (.ofNat 8 n))
      rwa [BitVec.ofNat_toNat, BitVec.setWidth_eq] at hread
  | byte => exact fun v _ => reads_readByte m v
  | short => exact fun v _ => reads_readShort m v
  | ushort => exact fun v _ => reads_readUShort m v
  | int =>
      intro v _
      have hread := (reads_readInt_toLE m (n := 4) (Int32.toBitVec v).isLt).map
        (fun n => Int32.ofBitVec (.ofNat 32 n))
      rwa [BitVec.ofNat_toNat, BitVec.setWidth_eq] at hread
  | uint => exact fun v _ => reads_readUInt m v
  | float => exact fun v _ => reads_readUInt m v
  | double => exact fun v _ => reads_readULong m v
  | long =>
      intro v _
      have hread := (reads_readInt_toLE m (n := 8) (Int64.toBitVec v).isLt).map
        (fun n => Int64.ofBitVec (.ofNat 64 n))
      rwa [BitVec.ofNat_toNat, BitVec.setWidth_eq] at hread
  | ulong => exact fun v _ => reads_readULong m v
  | string => exact fun v hfit => reads_block m hfit
  | bits => exact fun v hfit => reads_block m hfit
  | list t ih =>
      intro v hfit
      have hlen := reads_readUShort m (UInt16.ofNat (List.length v))
      have heach : Reads m (readEach (read m t) (List.length v)) (List.flatMap t.encode v) v :=
        reads_readEach fun x hx => ih x (hfit.2 x hx)
      rw [PacketOut.toNat_ofNat_length hfit.1] at hlen
      rw [← PacketOut.toNat_ofNat_length hfit.1] at heach
      exact hlen.bind heach

end PacketIn

/-! ### Whole packets -/

/-- A sequence of typed values. -/
abbrev Values := List (Σ t : Ty, t.Value)

/-- The encodings of a sequence of values, one after the other. -/
def encodeAll (vs : Values) : List UInt8 := vs.flatMap fun v => v.1.encode v.2

/-- Write a sequence of values. -/
def PacketOut.writeAll (vs : Values) : PacketOut.Op Unit :=
  PacketOut.writeEach (fun v => PacketOut.write v.1 v.2) vs

/-- Read values of the given types. -/
def PacketIn.readAll (m : Bytes) : List Ty → PacketIn.Op Values
  | [] => pure []
  | t :: ts => do
      let v ← PacketIn.read m t
      let vs ← PacketIn.readAll m ts
      return ⟨t, v⟩ :: vs

/-- Construct a packet, fill it and write its head. -/
def PacketOut.build (mempool : MemoryPool) (approxSize : Nat) (code sessionid : UInt16)
    (vs : Values) : Except Fault PacketOut := do
  let p ← PacketOut.make code approxSize mempool
  let p := p.setSessionID sessionid
  let (_, out) ← PacketOut.writeAll vs p.out
  PacketOut.writeHead { p with out := out } false

/-- Receive a packet: its head, and values of the given types. -/
def PacketIn.receive (m : Bytes) (data : List RefMemoryChunk) (ts : List Ty) :
    Except Fault (((UInt16 × UInt16) × Values) × Packet) := do
  let pk ← PacketIn.make data
  let (head, pk) ← PacketIn.readHead m pk
  let (vs, pk) ← PacketIn.readAll m ts pk
  return ((head, vs), pk)

/-- The packet built from `vs` consists of its head and the encodings, and every
    packet received with these bytes, in whatever memory and however cut, gives
    the head and the values back and is then used up. -/
def RoundTrips (mempool : MemoryPool) (approxSize : Nat) (code sessionid : UInt16)
    (vs : Values) : Prop :=
  ∃ p, PacketOut.build mempool approxSize code sessionid vs = .ok p ∧
    bytesOf p.out.pool.mem (PacketOut.fetchData p.out.packet) =
      headBytes (UInt16.ofNat (headSize + (encodeAll vs).length)) code sessionid ++ encodeAll vs ∧
    ∀ (m : Bytes) (data : List RefMemoryChunk),
      bytesOf m data = bytesOf p.out.pool.mem (PacketOut.fetchData p.out.packet) →
      ∃ pk, PacketIn.receive m data (vs.map Sigma.fst) = .ok (((code, sessionid), vs), pk) ∧
        pk.pos = pk.size

theorem PacketOut.appends_writeAll {vs : Values} (h : ∀ v ∈ vs, v.1.Fits v.2) :
    Appends (writeAll vs) (encodeAll vs) :=
  appends_writeEach fun v hv => appends_write v.1 v.2 (h v hv)

theorem PacketIn.reads_readAll (m : Bytes) : ∀ {vs : Values}, (∀ v ∈ vs, v.1.Fits v.2) →
    Reads m (readAll m (vs.map Sigma.fst)) (encodeAll vs) vs := by
  intro vs
  induction vs with
  | nil => intro _; exact Reads.pure m []
  | cons v vs ih =>
      intro h
      have hrest := ih fun w hw => h w (List.mem_cons_of_mem v hw)
      have htail := hrest.bind (f := fun ws => Pure.pure (⟨v.1, v.2⟩ :: ws))
        (Reads.pure m (⟨v.1, v.2⟩ :: vs))
      rw [List.append_nil] at htail
      exact (reads_read m v.1 v.2 (h v List.mem_cons_self)).bind
        (f := fun x => readAll m (vs.map Sigma.fst) >>= fun ws => Pure.pure (⟨v.1, x⟩ :: ws)) htail

theorem codeOf_headBytes (length code sessionid : UInt16) (body : List UInt8) :
    codeOf (headBytes length code sessionid ++ body) = code := by
  have hcode : ((headBytes length code sessionid ++ body).drop 4).take 2 = toLE 2 code.toNat := by
    simp [headBytes, toLE]
  rw [codeOf, hcode, ofLE_toLE_of_lt code.toNat_lt, UInt16.ofNat_toNat]

theorem sessionidOf_headBytes (length code sessionid : UInt16) (body : List UInt8) :
    sessionidOf (headBytes length code sessionid ++ body) = sessionid := by
  have hsid : ((headBytes length code sessionid ++ body).drop 8).take 2 =
      toLE 2 sessionid.toNat := by
    simp [headBytes, toLE]
  rw [sessionidOf, hsid, ofLE_toLE_of_lt sessionid.toNat_lt, UInt16.ofNat_toNat]

/-- **Packets round-trip.**  The only conditions beyond those on the values keep the
    `uint32_t` counters from wrapping: the chunks of the constructor, and the
    finished packet with room for one more growth step, stay within `2 ^ 32`
    bytes. -/
theorem roundTrips_of_fits (mempool : MemoryPool) (approxSize : Nat) (code sessionid : UInt16)
    (vs : Values) (hinv : mempool.Inv []) (hcs : 1 ≤ mempool.chunksize)
    (happrox : approxSize + 10 < 2 ^ 32) (hfits : ∀ v ∈ vs, v.1.Fits v.2)
    (hfirst : mempool.calculateChunkCount (approxSize + 10) * mempool.chunksize < 2 ^ 32)
    (hsize : headSize + (encodeAll vs).length + 65545 + mempool.chunksize ≤ 2 ^ 32) :
    RoundTrips mempool approxSize code sessionid vs := by
  obtain ⟨out, stale, hmake, hrep, hstale, hsize0, hchunk, -⟩ :=
    PacketOut.make_spec code hinv hcs happrox hfirst
  have hwrites : PacketOut.Writes (PacketOut.writeAll vs) (encodeAll vs) :=
    (PacketOut.appends_writeAll hfits).writes
  obtain ⟨out1, hop1, hrep1, -, hsize1, hchunk1⟩ := hwrites out stale hrep (by omega)
    (by rw [hstale, hchunk]; exact hsize)
  obtain ⟨p, hhead, hbytes⟩ := PacketOut.writeHead_spec (p := ⟨out1, code, sessionid, false⟩)
    hrep1 hstale (by rw [hsize1, hstale, hsize0]; exact Nat.max_eq_right (Nat.le_add_right _ _))
    (by rw [hchunk1, hchunk]; exact hcs) rfl false
  refine ⟨p, ?_, hbytes, ?_⟩
  · simp only [PacketOut.build, hmake, bind, Except.bind, PacketOut.setSessionID]
    rw [hop1]
    exact hhead
  · intro m data hdata
    rw [hbytes] at hdata
    have htotal : total data = headSize + (encodeAll vs).length := by
      rw [← length_bytesOf m, hdata, List.length_append, length_headBytes]
    obtain ⟨pk, hpk, hunread, -, hpksize, hpkcap, hregion⟩ :=
      PacketIn.make_spec m data (by omega)
    have hpkbytes := bytesOf_of_region_eq m hregion
    have hpktotal : total pk.data = total data := by
      rw [← length_bytesOf m, hpkbytes, length_bytesOf]
    obtain ⟨pk1, hread1, hunread1, -⟩ := PacketIn.readHead_spec (hpkcap.trans hpktotal.symm)
      (hpksize.trans hpkcap.symm) (by omega)
      (show headSize ≤ (bytesOf m pk.data).length by rw [length_bytesOf]; omega)
    rw [hpkbytes.trans hdata, codeOf_headBytes, sessionidOf_headBytes] at hread1
    rw [hpkbytes.trans hdata, List.drop_left' (length_headBytes _ _ _)] at hunread1
    have hunread1' : PacketIn.Unread m pk1 (encodeAll vs ++ []) := by
      rw [List.append_nil]
      exact hunread1
    obtain ⟨pk2, hread2, hunread2, -⟩ := PacketIn.reads_readAll m hfits pk1 [] hunread1'
    refine ⟨pk2, ?_, hunread2.size⟩
    simp only [PacketIn.receive, hpk, hread1, hread2, bind, Except.bind, pure, Except.pure]

/-- One recycled chunk, full of old bytes, and chunks of three bytes: every value
    straddles chunks. -/
theorem roundTrips_of_fits_recycled :
    RoundTrips ⟨3, 8, [0], fun _ => 0, 1, fun _ _ => 170⟩ 1 7 9
      [⟨.uint, 305419896⟩, ⟨.list .short, [-1, 2]⟩, ⟨.string, [104, 105]⟩] := by
  refine roundTrips_of_fits _ _ _ _ _ ⟨by decide, by decide, by decide, ?_, ?_, ?_⟩ (by decide)
    (by decide) ?_ (by decide) (by decide)
  · exact fun _ => Nat.zero_le _
  · exact fun _ h => absurd h List.not_mem_nil
  · exact fun _ h => absurd h List.not_mem_nil
  · intro v hv
    simp only [List.mem_cons, List.not_mem_nil, or_false] at hv
    rcases hv with rfl | rfl | rfl <;> simp [Ty.Fits]

/-! ### Where the counters wrap -/

namespace PacketOut

/-- `op` keeps `size_` a `uint32_t`. -/
def Bounded (op : Op Unit) : Prop :=
  ∀ o o', op o = .ok ((), o') → o.packet.size < 2 ^ 32 → o'.packet.size < 2 ^ 32

theorem Bounded.seq {op op' : Op Unit} (h : Bounded op) (h' : Bounded op') :
    Bounded (do op; op') := by
  intro o o' heq hlt
  change (op o >>= fun r => op' r.2) = _ at heq
  rcases hop : op o with e | ⟨⟨⟩, o1⟩
  · rw [hop] at heq
    cases heq
  · rw [hop] at heq
    exact h' o1 o' heq (h o o1 hop hlt)

theorem size_grow : ∀ (fuel n : Nat) (o o' : Out), grow fuel n o = .ok o' →
    o'.packet.size = o.packet.size := by
  intro fuel
  induction fuel with
  | zero => intro n o o' h; cases h
  | succ fuel ih =>
      intro n o o' h
      simp only [grow] at h
      split at h
      · exact (ih n _ o' h).trans rfl
      · cases h
        rfl

theorem bounded_putByte (src : List UInt8) : Bounded (putByte src) := by
  intro o o' h hlt
  simp only [putByte, bind, Except.bind, pure, Except.pure] at h
  split at h
  · cases h
  · rename_i o1 hgrow
    have hsize := size_grow _ _ _ _ hgrow
    have hu : u32 (o1.packet.pos + src.length) < 2 ^ 32 := Nat.mod_lt _ (by decide)
    cases h
    rw [updateSize_eq]
    simp only
    omega

theorem bounded_skipTo {pos : Nat} (h : pos < 2 ^ 32) : Bounded (skipTo pos) := by
  intro o o' heq hlt
  simp only [skipTo, Packet.skipTo] at heq
  split at heq
  · cases heq
    rw [updateSize_eq]
    simp only
    omega
  · cases heq

theorem bounded_writeEach {α : Type} {write : α → Op Unit} (h : ∀ x, Bounded (write x)) :
    ∀ xs : List α, Bounded (writeEach write xs) := by
  intro xs
  induction xs with
  | nil => intro o o' heq hlt; cases heq; exact hlt
  | cons x xs ih => exact (h x).seq ih

theorem bounded_write : ∀ (t : Ty) (v : t.Value), Bounded (write t v) := by
  intro t
  induction t with
  | bool => intro v; cases v <;> exact bounded_putByte _
  | string => exact fun v => (bounded_putByte _).seq (bounded_putByte _)
  | bits => exact fun v => (bounded_putByte _).seq (bounded_putByte _)
  | list t ih => exact fun v => (bounded_putByte _).seq (bounded_writeEach ih v)
  | _ => exact fun v => bounded_putByte _

theorem bounded_putHead (code sessionid : UInt16) : Bounded (putHead code sessionid) := by
  refine (bounded_skipTo (by decide)).seq ((bounded_putByte _).seq ?_)
  intro o
  exact ((bounded_putByte _).seq ((bounded_putByte _).seq
    ((bounded_putByte _).seq (bounded_putByte _)))) o

end PacketOut

/-- A packet that round-trips is shorter than `2 ^ 32` bytes. -/
theorem RoundTrips.length_lt {mempool : MemoryPool} {approxSize : Nat} {code sessionid : UInt16}
    {vs : Values} (h : RoundTrips mempool approxSize code sessionid vs) :
    headSize + (encodeAll vs).length < 2 ^ 32 := by
  obtain ⟨p, hbuild, hbytes, -⟩ := h
  have hsize : p.out.packet.size < 2 ^ 32 := by
    simp only [PacketOut.build, PacketOut.make, PacketOut.writeHead, PacketOut.setSessionID, bind,
      Except.bind, pure, Except.pure] at hbuild
    split at hbuild
    · cases hbuild
    rename_i p0 hmake
    split at hmake
    · cases hmake
    rename_i r0 hskip
    cases hmake
    split at hbuild
    · cases hbuild
    rename_i r1 hwrite
    simp only [Bool.not_false, Bool.true_or, if_true] at hbuild
    split at hbuild
    · cases hbuild
    rename_i r2 hput
    cases hbuild
    have h0 := PacketOut.bounded_skipTo (show headSize < 2 ^ 32 by decide) _ _ hskip
      (by simp [PacketOut.aquireMemory, Packet.updateCapacity, Packet.empty])
    have h1 := PacketOut.bounded_writeEach (fun v : Σ t : Ty, t.Value =>
      PacketOut.bounded_write v.1 v.2) vs _ _ hwrite h0
    exact PacketOut.bounded_putHead code sessionid _ _ hput h1
  have hlen := congrArg List.length hbytes
  rw [PacketOut.fetchData, PacketOut.bytesOf_fetchChunks, List.length_take, List.length_append,
    length_headBytes] at hlen
  omega

/-- As many strings of the longest length as exceed a `uint32_t`. -/
def longStrings : Values := List.replicate 65536 ⟨.string, List.replicate 65535 0⟩

theorem length_encodeAll_longStrings : (encodeAll longStrings).length = 65536 * 65537 := by
  simp only [encodeAll, longStrings, List.length_flatMap, List.map_replicate, Ty.encode,
    List.length_append, length_toLE, List.length_replicate, List.sum_replicate_nat]

/-- Two chunks of `2 ^ 31` bytes make `capacity_` wrap to 0, so that the constructor
    fails its assertion; and `2 ^ 16` strings of 65535 bytes do not fit a packet
    at all. -/
theorem not_roundTrips_wrapped :
    ((MemoryPool.emptyPool (2 ^ 31)).Inv [] ∧ 1 ≤ (MemoryPool.emptyPool (2 ^ 31)).chunksize ∧
      2 ^ 32 - 11 + 10 < 2 ^ 32 ∧ ¬ RoundTrips (MemoryPool.emptyPool (2 ^ 31)) (2 ^ 32 - 11) 0 0 []) ∧
    ((MemoryPool.emptyPool 1024).Inv [] ∧ 1 ≤ (MemoryPool.emptyPool 1024).chunksize ∧ 0 + 10 < 2 ^ 32 ∧
      (∀ v ∈ longStrings, v.1.Fits v.2) ∧ ¬ RoundTrips (MemoryPool.emptyPool 1024) 0 0 0 longStrings) := by
  refine ⟨⟨MemoryPool.emptyPool_inv _, by decide, by decide, ?_⟩,
    ⟨MemoryPool.emptyPool_inv _, by decide, by decide, ?_, ?_⟩⟩
  · rintro ⟨p, hbuild, -⟩
    have hmake : PacketOut.make 0 (2 ^ 32 - 11) (MemoryPool.emptyPool (2 ^ 31)) = .error .assertion := rfl
    simp only [PacketOut.build, hmake, bind, Except.bind] at hbuild
    cases hbuild
  · intro v hv
    rw [longStrings, List.mem_replicate] at hv
    rw [hv.2]
    exact Nat.le_of_eq List.length_replicate
  · intro h
    have hlt := h.length_lt
    rw [length_encodeAll_longStrings] at hlt
    omega

end Jengine.Gateway
