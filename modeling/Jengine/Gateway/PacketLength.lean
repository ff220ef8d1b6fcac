import Jengine.Gateway.RoundTrip
import Jengine.Gateway.UserClient

/-!
# The length field of a packet

`PacketOut` counts its bytes in a `uint32_t` and sends the count in a
`uint16_t`; `UserClient::OnReceive` takes the field at its word.  `Calls` is a
whole history of writes, with no bound on any of them.  A packet is delivered
when the field is the number of bytes `FetchData` gives out, so that the
receiver pops this packet and goes on behind it.  The result is that this
happens exactly below `2 ^ 16` bytes.

The argument for the long packets does not go through the contents at all:
`Advances` follows `pos_` and `size_` alone, through every way an operation can
return.
-/

namespace Jengine.Gateway

open Jengine.Lib Jengine.Memory RefMemoryChunk Jengine.Net

namespace PacketOut

/-- `WriteRaw`: the size is a `uint16_t` parameter. -/
def writeRaw (data : List UInt8) : Op Unit :=
  putByte (data.take (UInt16.ofNat data.length).toNat)

/-- `WriteString(const char*)`: the length is cut to a `uint16_t` before the bytes are
    copied. -/
def writeCString (str : List UInt8) : Op Unit := do
  writeUShort (UInt16.ofNat str.length)
  putByte (str.take (UInt16.ofNat str.length).toNat)

/-- The calls that fill a packet. -/
inductive Call where
  | value (t : Ty) (v : t.Value)
  | raw (data : List UInt8)
  | text (str : List UInt8)

/-- A history of writes. -/
abbrev Calls := List Call

/-- The bytes a writer hands to `PutByte`. -/
def written : (t : Ty) → t.Value → List UInt8
  | .string, v => toLE 2 (UInt16.ofNat (List.length v)).toNat ++ List.take (u32 (List.length v)) v
  | .bits, v => toLE 2 (UInt16.ofNat (List.length v)).toNat ++
      List.take (UInt16.ofNat (List.length v)).toNat v
  | .list t, v => toLE 2 (UInt16.ofNat (List.length v)).toNat ++ List.flatMap (written t) v
  | .bool, v => Ty.encode .bool v
  | .sbyte, v => Ty.encode .sbyte v
  | .byte, v => Ty.encode .byte v
  | .short, v => Ty.encode .short v
  | .ushort, v => Ty.encode .ushort v
  | .int, v => Ty.encode .int v
  | .uint, v => Ty.encode .uint v
  | .float, v => Ty.encode .float v
  | .double, v => Ty.encode .double v
  | .long, v => Ty.encode .long v
  | .ulong, v => Ty.encode .ulong v

namespace Call

def perform : Call → Op Unit
  | value t v => write t v
  | raw data => writeRaw data
  | text str => writeCString str

def bytes : Call → List UInt8
  | value t v => written t v
  | raw data => data.take (UInt16.ofNat data.length).toNat
  | text str => toLE 2 (UInt16.ofNat str.length).toNat ++
      str.take (UInt16.ofNat str.length).toNat

end Call

def performAll (calls : Calls) : Op Unit := writeEach Call.perform calls

/-- Everything a history of writes hands to `PutByte`. -/
def callBytes (calls : Calls) : List UInt8 := calls.flatMap Call.bytes

/-- Construct a packet, fill it by any writes, and write its head. -/
def assemble (mempool : MemoryPool) (approxSize : Nat) (code sessionid : UInt16)
    (calls : Calls) : Except Fault PacketOut := do
  let p ← make code approxSize mempool
  let p := p.setSessionID sessionid
  let (_, out) ← performAll calls p.out
  writeHead { p with out := out } false

/-! ### Cursor and size alone -/

/-- The packet has the chunks it says it has. -/
structure Held (pk : Packet) : Prop where
  pos_le : pk.pos ≤ pk.size
  size_le : pk.size ≤ total pk.data
  capacity_le : pk.capacity ≤ total pk.data

/-- If `op` returns, the cursor has moved by `n`, and `size_` covers it. -/
def Advances (op : Op Unit) (n : Nat) : Prop :=
  ∀ o o', op o = .ok ((), o') → Held o.packet → o.packet.pos + n < 2 ^ 32 →
    o'.packet.pos = o.packet.pos + n ∧
      o'.packet.size = max o.packet.size (o.packet.pos + n) ∧ Held o'.packet

theorem region_writeChunks : ∀ (vs : List RefMemoryChunk) (m : Bytes) (src : List UInt8),
    (writeChunks m src vs).2.1.map region = vs.map region := by
  intro vs
  induction vs with
  | nil => intro m src; rfl
  | cons v vs ih =>
      intro m src
      simp only [writeChunks]
      split
      · rfl
      · split
        · simp only [List.map_cons, ih]
          rfl
        · rfl

theorem total_of_region_eq {vs ws : List RefMemoryChunk} (h : vs.map region = ws.map region) :
    total vs = total ws := by
  rw [← length_bytesOf (fun _ _ => 0) vs, bytesOf_of_region_eq _ h, length_bytesOf]

theorem grow_held : ∀ (fuel n : Nat) (o o' : Out), grow fuel n o = .ok o' → Held o.packet →
    o'.packet.pos = o.packet.pos ∧ o'.packet.size = o.packet.size ∧ Held o'.packet ∧
      u32 (o.packet.pos + n) ≤ o'.packet.capacity := by
  intro fuel
  induction fuel with
  | zero => intro n o o' h; cases h
  | succ fuel ih =>
      intro n o o' h hheld
      simp only [grow] at h
      split at h
      · have hgrown : Held (aquireMemory o n).packet := by
          have hsize := hheld.size_le
          simp only [aquireMemory, Packet.updateCapacity]
          refine ⟨hheld.pos_le, ?_, Nat.mod_le _ _⟩
          rw [total_append]
          exact Nat.le_add_right_of_le hsize
        exact ih n (aquireMemory o n) o' h hgrown
      · cases h
        exact ⟨rfl, rfl, hheld, by omega⟩

theorem advances_putByte (src : List UInt8) : Advances (putByte src) src.length := by
  intro o o' h hheld hlt
  simp only [putByte, bind, Except.bind, pure, Except.pure] at h
  split at h
  · cases h
  · rename_i o1 hgrow
    obtain ⟨hpos, hsize, hheld1, hcap⟩ := grow_held _ _ _ _ hgrow hheld
    have hu : u32 (o.packet.pos + src.length) = o.packet.pos + src.length := Nat.mod_eq_of_lt hlt
    have hle := hheld1.size_le
    have hle' := hheld1.capacity_le
    have hregion : (o1.packet.data.take o1.packet.posY ++ (writeChunks o1.pool.mem src
        (o1.packet.data.drop o1.packet.posY)).2.1).map region = o1.packet.data.map region := by
      rw [List.map_append, region_writeChunks, ← List.map_append, List.take_append_drop]
    have htotal := total_of_region_eq hregion
    rw [hu] at hcap
    have hfits : max o.packet.size (o.packet.pos + src.length) ≤ total o1.packet.data :=
      Nat.max_le.mpr ⟨hsize ▸ hle, Nat.le_trans hcap hle'⟩
    cases h
    simp only [updateSize_eq, hpos, hu, hsize]
    exact ⟨trivial, trivial, Nat.le_max_right _ _, hfits.trans_eq htotal.symm,
      hle'.trans_eq htotal.symm⟩

theorem Advances.seq {op op' : Op Unit} {n n' : Nat} (h : Advances op n) (h' : Advances op' n') :
    Advances (do op; op') (n + n') := by
  intro o o' heq hheld hlt
  change (op o >>= fun r => op' r.2) = _ at heq
  rcases hop : op o with e | ⟨⟨⟩, o1⟩
  · rw [hop] at heq
    cases heq
  · rw [hop] at heq
    obtain ⟨hpos, hsize, hheld1⟩ := h o o1 hop hheld (by omega)
    obtain ⟨hpos', hsize', hheld'⟩ := h' o1 o' heq hheld1 (by omega)
    refine ⟨by omega, ?_, hheld'⟩
    rw [hsize', hsize, hpos]
    omega

theorem advances_writeEach {α : Type} {write : α → Op Unit} {bytes : α → List UInt8}
    (h : ∀ x, Advances (write x) (bytes x).length) :
    ∀ xs : List α, Advances (writeEach write xs) (xs.flatMap bytes).length := by
  intro xs
  induction xs with
  | nil =>
      intro o o' heq hheld _
      have hpos := hheld.pos_le
      cases heq
      exact ⟨rfl, (Nat.max_eq_left hpos).symm, hheld⟩
  | cons x xs ih =>
      rw [List.flatMap_cons, List.length_append]
      exact (h x).seq ih

/-- A length and what it counts. -/
theorem Advances.block {α : Type} (v : List α) {op : Op Unit} {xs : List UInt8}
    (h : Advances op xs.length) :
    Advances (do writeUShort (UInt16.ofNat v.length); op)
      (toLE 2 (UInt16.ofNat v.length).toNat ++ xs).length := by
  rw [List.length_append]
  exact (advances_putByte _).seq h

theorem advances_write : ∀ (t : Ty) (v : t.Value), Advances (write t v) (written t v).length := by
  intro t
  induction t with
  | bool => intro v; cases v <;> exact advances_putByte _
  | string => exact fun v => (advances_putByte _).block v
  | bits => exact fun v => (advances_putByte _).block v
  | list t ih => exact fun v => (advances_writeEach ih v).block v
  | _ => exact fun v => advances_putByte _

theorem Call.advances (c : Call) : Advances c.perform c.bytes.length := by
  cases c with
  | value t v => exact advances_write t v
  | raw data => exact advances_putByte _
  | text str => exact (advances_putByte _).block str

theorem advances_performAll (calls : Calls) :
    Advances (performAll calls) (callBytes calls).length :=
  advances_writeEach Call.advances calls

theorem Held.skipTo {pk pk' : Packet} {pos : Nat} (h : pk.skipTo pos = .ok pk')
    (hsize : pk.size ≤ total pk.data)
    (hcap : pk.capacity ≤ total pk.data) :
    Held pk' ∧ pk'.pos = pos ∧ pk'.size = max pk.size pos := by
  simp only [Packet.skipTo] at h
  split at h
  · rename_i hle
    have hregion := (skipChunks_spec (fun _ _ => 0) pk.data pos (Nat.le_trans hle hcap)).2.2
    have htotal := total_of_region_eq hregion
    have hfits : max pk.size pos ≤ total pk.data :=
      Nat.max_le.mpr ⟨hsize, Nat.le_trans hle hcap⟩
    cases h
    simp only [updateSize_eq]
    exact ⟨⟨Nat.le_max_right _ _, hfits.trans_eq htotal.symm,
      hcap.trans_eq htotal.symm⟩, trivial, trivial⟩
  · cases h

/-- `FetchData` gives out `size_` bytes. -/
theorem Held.length_fetchData {pk : Packet} (h : Held pk) (m : Bytes) :
    (bytesOf m (fetchData pk)).length = pk.size := by
  rw [fetchData, bytesOf_fetchChunks, List.length_take, length_bytesOf]
  exact Nat.min_eq_left h.size_le

/-- Writing the head of a packet that has room for it leaves `size_` alone. -/
theorem size_putHead {code sessionid : UInt16} {o o' : Out}
    (h : putHead code sessionid o = .ok ((), o')) (hheld : Held o.packet)
    (hlow : headSize ≤ o.packet.size) :
    Held o'.packet ∧ o'.packet.size = o.packet.size := by
  change (skipTo 0 o >>= fun r => _) = _ at h
  rcases hskip : skipTo 0 o with e | ⟨⟨⟩, o1⟩
  · rw [hskip] at h
    cases h
  rw [hskip] at h
  have h0 : Held o1.packet ∧ o1.packet.pos = 0 ∧ o1.packet.size = max o.packet.size 0 := by
    simp only [skipTo, bind, Except.bind, pure, Except.pure] at hskip
    split at hskip
    · cases hskip
    · rename_i pk hpk
      cases hskip
      exact Held.skipTo hpk hheld.size_le hheld.capacity_le
  obtain ⟨hheld1, hpos1, hsize1⟩ := h0
  have hrest : ∀ n, Advances (do
      writeUShort (UInt16.ofNat n)
      writeUShort code
      writeShort calculateSignature
      writeUShort sessionid) 8 := fun n =>
    (advances_putByte _).seq ((advances_putByte _).seq
      ((advances_putByte _).seq (advances_putByte _)))
  change (writeUShort identifier o1 >>= fun r => _) = _ at h
  rcases hident : writeUShort identifier o1 with e | ⟨⟨⟩, o2⟩
  · rw [hident] at h
    cases h
  rw [hident] at h
  obtain ⟨hpos2, hsize2, hheld2⟩ := advances_putByte _ o1 o2 hident hheld1
    (by rw [hpos1, length_toLE]; decide)
  rw [length_toLE, hpos1] at hpos2 hsize2
  obtain ⟨-, hsize3, hheld3⟩ := hrest o2.packet.size o2 o' h hheld2 (by omega)
  refine ⟨hheld3, ?_⟩
  rw [hsize3, hsize2, hsize1, hpos2]
  simp only [headSize] at hlow
  omega

/-- Whatever was written, a packet that comes out of `WriteHead` has the size of its head
    and its writes, and gives out as many bytes. -/
theorem length_assemble {mempool : MemoryPool} {approxSize : Nat} {code sessionid : UInt16}
    {calls : Calls} {p : PacketOut} (h : assemble mempool approxSize code sessionid calls = .ok p)
    (hlt : headSize + (callBytes calls).length < 2 ^ 32) (m : Bytes) :
    (bytesOf m (fetchData p.out.packet)).length = headSize + (callBytes calls).length := by
  simp only [assemble, make, writeHead, setSessionID, bind, Except.bind, pure,
    Except.pure] at h
  split at h
  · cases h
  rename_i p0 hmake
  split at hmake
  · cases hmake
  rename_i r0 hskip
  cases hmake
  split at h
  · cases h
  rename_i r1 hcalls
  simp only [Bool.not_false, Bool.true_or, if_true] at h
  split at h
  · cases h
  rename_i r2 hput
  cases h
  -- the constructor leaves the cursor behind the head
  have h0 : Held r0.2.packet ∧ r0.2.packet.pos = headSize ∧ r0.2.packet.size = headSize := by
    simp only [skipTo, bind, Except.bind, pure, Except.pure] at hskip
    split at hskip
    · cases hskip
    · rename_i pk hpk
      cases hskip
      exact Held.skipTo hpk (Nat.zero_le _) (Nat.mod_le _ _)
  obtain ⟨hheld0, hpos0, hsize0⟩ := h0
  have h1 := advances_performAll calls r0.2 r1.2 hcalls hheld0 (by omega)
  obtain ⟨-, hsize1, hheld1⟩ := h1
  have h2 := size_putHead hput hheld1 (by rw [hsize1]; omega)
  rw [h2.1.length_fetchData, h2.2, hsize1, hsize0, hpos0]
  exact Nat.max_eq_right (Nat.le_add_right _ _)

/-! ### Short packets -/

/-- A length and what it counts. -/
theorem Appends.block {α : Type} (v : List α) {op : Op Unit} {xs : List UInt8}
    (h : Appends op xs) :
    Appends (do writeUShort (UInt16.ofNat v.length); op)
      (toLE 2 (UInt16.ofNat v.length).toNat ++ xs) :=
  (appends_writeUShort _).seq h

theorem length_le_of_mem_flatMap {α : Type} {f : α → List UInt8} {xs : List α} {x : α}
    (h : x ∈ xs) : (f x).length ≤ (xs.flatMap f).length :=
  (List.sublist_flatten_of_mem (List.mem_map_of_mem h)).length_le

/-- A writer whose bytes are few has no long `PutByte` in it. -/
theorem appends_written : ∀ (t : Ty) (v : t.Value), (written t v).length ≤ 65535 →
    Appends (write t v) (written t v) := by
  intro t
  induction t with
  | bool =>
      intro v _
      cases v
      · exact appends_putByte (by simp)
      · exact appends_putByte (by simp)
  | string =>
      intro v h
      rw [written, List.length_append] at h
      exact (appends_putByte (by omega)).block v
  | bits =>
      intro v h
      rw [written, List.length_append] at h
      exact (appends_putByte (by omega)).block v
  | list t ih =>
      intro v h
      rw [written, List.length_append] at h
      refine (appends_writeEach fun x hx => ih x ?_).block v
      have hle := length_le_of_mem_flatMap (f := written t) hx
      omega
  | _ =>
      intro v _
      exact appends_putByte (by simp)

theorem Call.appends {c : Call} (h : c.bytes.length ≤ 65535) : Appends c.perform c.bytes := by
  cases c with
  | value t v => exact appends_written t v h
  | raw data => exact appends_putByte h
  | text str =>
      rw [Call.bytes, List.length_append] at h
      exact (appends_putByte (by omega)).block str

theorem appends_performAll {calls : Calls} (h : (callBytes calls).length ≤ 65535) :
    Appends (performAll calls) (callBytes calls) :=
  appends_writeEach fun _ hc => Call.appends (Nat.le_trans (length_le_of_mem_flatMap hc) h)

end PacketOut

/-- The packet is taken off a stream as it was put on: `OnReceive`, with these bytes and
    any more in its queue, hands over this packet and treats the rest as if it had
    come alone. -/
def PopsExactly (bytes : List UInt8) : Prop :=
  ∀ (σ : Type) (handler : Handler σ) (c : UserClient σ) (s : σ) (rest : List UInt8),
    UserClient.WellBehaved handler → c.Inv → c.derived.session = some s →
    c.received = bytes ++ rest →
    (UserClient.onReceive handler c.recvqCount c).derived.handed =
        c.derived.handed ++ toFrame bytes :: (packetFraming.parse rest).frames.map toFrame ∧
      (UserClient.onReceive handler c.recvqCount c).received = (packetFraming.parse rest).rest ∧
      (UserClient.onReceive handler c.recvqCount c).closed =
        (c.closed || (packetFraming.parse rest).bad)

/-- The packet filled by `calls` comes out of `WriteHead` with its own length in the
    head, and is popped as it is. -/
def Delivered (mempool : MemoryPool) (approxSize : Nat) (code sessionid : UInt16)
    (calls : PacketOut.Calls) : Prop :=
  ∃ p, PacketOut.assemble mempool approxSize code sessionid calls = .ok p ∧
    lengthOf (bytesOf p.out.pool.mem (PacketOut.fetchData p.out.packet)) =
      (bytesOf p.out.pool.mem (PacketOut.fetchData p.out.packet)).length ∧
    PopsExactly (bytesOf p.out.pool.mem (PacketOut.fetchData p.out.packet))

theorem popsExactly_of_verdict {bytes : List UInt8}
    (h : packetVerdict bytes = .frame bytes.length) : PopsExactly bytes := by
  intro σ handler c s rest hw hinv hs hreceived
  have hverdict : packetFraming.verdict (bytes ++ rest) = .frame bytes.length :=
    packetFraming.frame_stable rest h
  have hparse := packetFraming.parse_of_frame hverdict
  rw [List.take_left, List.drop_left] at hparse
  obtain ⟨c', s', hloop, -, hrest, hhanded, -, hclosed, -⟩ :=
    UserClient.onReceiveLoop_spec hw (c.recvqCount + 1) c s hinv hs
      (by rw [hinv.count_eq]; exact Nat.lt_succ_self _)
  rw [← hinv.count_eq] at hloop
  rw [UserClient.onReceive, hloop]
  rw [hreceived, hparse] at hrest hhanded hclosed
  exact ⟨hhanded, hrest, hclosed⟩

theorem identifierOf_headBytes (length code sessionid : UInt16) (body : List UInt8) :
    identifierOf (headBytes length code sessionid ++ body) = identifier.toNat := by
  have hident : (headBytes length code sessionid ++ body).take 2 = toLE 2 identifier.toNat := by
    simp [headBytes, toLE]
  rw [identifierOf, hident, ofLE_toLE_of_lt identifier.toNat_lt]

theorem lengthOf_headBytes (length code sessionid : UInt16) (body : List UInt8) :
    lengthOf (headBytes length code sessionid ++ body) = length.toNat := by
  have hlength : ((headBytes length code sessionid ++ body).drop 2).take 2 =
      toLE 2 length.toNat := by
    simp [headBytes, toLE]
  rw [lengthOf, hlength, ofLE_toLE_of_lt length.toNat_lt]

theorem delivered_of_lt {mempool : MemoryPool} {approxSize : Nat} {code sessionid : UInt16}
    {calls : PacketOut.Calls} (hinv : mempool.Inv []) (hcs : 1 ≤ mempool.chunksize)
    (happrox : approxSize + 10 < 2 ^ 32)
    (hfirst : mempool.calculateChunkCount (approxSize + 10) * mempool.chunksize < 2 ^ 32)
    (hlt : headSize + (PacketOut.callBytes calls).length < 2 ^ 16) :
    Delivered mempool approxSize code sessionid calls := by
  obtain ⟨out, stale, hmake, hrep, hstale, hsize0, hchunk, hcap⟩ :=
    PacketOut.make_spec code hinv hcs happrox hfirst
  -- a chunk of `2 ^ 16` bytes holds the whole packet, and smaller ones leave room to grow
  have hroom : stale.length + (PacketOut.callBytes calls).length ≤ out.packet.capacity ∨
      stale.length + (PacketOut.callBytes calls).length + 65545 + out.pool.chunksize ≤ 2 ^ 32 := by
    omega
  obtain ⟨out1, hop1, hrep1, -, hsize1, hchunk1, -⟩ :=
    PacketOut.appends_performAll (by omega) out stale hrep (by omega) hroom
  obtain ⟨p, hhead, hbytes⟩ := PacketOut.writeHead_spec (p := ⟨out1, code, sessionid, false⟩)
    hrep1 hstale (by rw [hsize1, hstale, hsize0]; exact Nat.max_eq_right (Nat.le_add_right _ _))
    (by rw [hchunk1, hchunk]; exact hcs) rfl false
  have hfield : (UInt16.ofNat (headSize + (PacketOut.callBytes calls).length)).toNat =
      headSize + (PacketOut.callBytes calls).length := UInt16.toNat_ofNat_of_lt' hlt
  have hlength : lengthOf (bytesOf p.out.pool.mem (PacketOut.fetchData p.out.packet)) =
      (bytesOf p.out.pool.mem (PacketOut.fetchData p.out.packet)).length := by
    rw [hbytes, lengthOf_headBytes, hfield, List.length_append, length_headBytes]
  have hbuild : PacketOut.assemble mempool approxSize code sessionid calls = .ok p := by
    simp only [PacketOut.assemble, hmake, bind, Except.bind, PacketOut.setSessionID]
    rw [hop1]
    exact hhead
  refine ⟨p, hbuild, hlength, popsExactly_of_verdict ?_⟩
  have hge : headSize ≤ (bytesOf p.out.pool.mem (PacketOut.fetchData p.out.packet)).length := by
    rw [hbytes, List.length_append, length_headBytes]
    exact Nat.le_add_right _ _
  refine packetVerdict_frame.mpr ⟨hge, ?_, hge, Nat.le_refl _, hlength.symm⟩
  rw [hbytes, identifierOf_headBytes]

theorem not_delivered_of_le {mempool : MemoryPool} {approxSize : Nat} {code sessionid : UInt16}
    {calls : PacketOut.Calls} (hlt : headSize + (PacketOut.callBytes calls).length < 2 ^ 32)
    (hle : 2 ^ 16 ≤ headSize + (PacketOut.callBytes calls).length) :
    ¬ Delivered mempool approxSize code sessionid calls := by
  rintro ⟨p, hbuild, hlength, -⟩
  have hbound := UserClient.lengthOf_lt
    (bytesOf p.out.pool.mem (PacketOut.fetchData p.out.packet))
  rw [hlength, PacketOut.length_assemble hbuild hlt] at hbound
  omega

/-- **The length field holds below `2 ^ 16` bytes, and only there.**  The conditions on
    the pool are those of its constructor: chunks that are not empty, and a first
    growth step that `capacity_` can count. -/
theorem delivered_iff_lt (mempool : MemoryPool) (approxSize : Nat) (code sessionid : UInt16)
    (calls : PacketOut.Calls) (hinv : mempool.Inv []) (hcs : 1 ≤ mempool.chunksize)
    (happrox : approxSize + 10 < 2 ^ 32)
    (hfirst : mempool.calculateChunkCount (approxSize + 10) * mempool.chunksize < 2 ^ 32)
    (hcursor : headSize + (PacketOut.callBytes calls).length < 2 ^ 32) :
    Delivered mempool approxSize code sessionid calls ↔
      headSize + (PacketOut.callBytes calls).length < 2 ^ 16 := by
  constructor
  · intro h
    by_contra hge
    exact not_delivered_of_le hcursor (Nat.le_of_not_lt hge) h
  · exact delivered_of_lt hinv hcs happrox hfirst

/-- Chunks of three bytes. -/
theorem delivered_iff_lt_small :
    Delivered (MemoryPool.emptyPool 3) 1 7 9
        [.value .uint 305419896, .raw [1, 2], .text [104, 105]] ↔
      headSize + (PacketOut.callBytes
        [.value .uint 305419896, .raw [1, 2], .text [104, 105]]).length < 2 ^ 16 :=
  delivered_iff_lt _ _ _ _ _ (MemoryPool.emptyPool_inv 3) (by decide) (by decide) (by decide)
    (by decide)

/-- One string of the greatest length makes a packet of 65547 bytes, whose length field
    says 11. -/
theorem not_delivered_longString :
    (MemoryPool.emptyPool 1024).Inv [] ∧
      headSize + (PacketOut.callBytes [.value .string (List.replicate 65535 0)]).length = 65547 ∧
      ¬ Delivered (MemoryPool.emptyPool 1024) 0 0 0
        [.value .string (List.replicate 65535 0)] := by
  have hlen : headSize +
      (PacketOut.callBytes [.value .string (List.replicate 65535 0)]).length = 65547 := by
    simp only [PacketOut.callBytes, List.flatMap_cons, List.flatMap_nil, List.append_nil,
      PacketOut.Call.bytes, PacketOut.written, List.length_append, length_toLE, List.length_take,
      List.length_replicate]
    rfl
  refine ⟨MemoryPool.emptyPool_inv _, hlen, not_delivered_of_le ?_ ?_⟩
  · rw [hlen]
    decide
  · rw [hlen]
    decide

end Jengine.Gateway
