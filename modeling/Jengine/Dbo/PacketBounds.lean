import Jengine.Dbo.RowReader

/-!
# Bounds of a received packet

`GetByte` and `Skip` (`base/dbo_bk/internal/packet.h`) compare the sum of the cursor and a
length with the size of the packet, and the sum is a `uint32_t`.  A length that takes it to
`2 ^ 32` or beyond passes the test whatever is left, and the cursor goes back.  The strings of a
row are skipped in this way, so a row can make the cursor go back, too.

`Follows` is what the requests of a run say about the cursor; every operation of the row
readers is tracked by it.
-/

namespace Jengine.Dbo.Internal

open Jengine.Lib Jengine.Memory RefMemoryChunk
open Gateway (u32)

/-- A packet as `OnReceive` cuts it out: its length without the head is a number of three
    bytes. -/
structure Received (pk : Gateway.Packet) : Prop where
  pos_le : pk.pos ≤ pk.size
  capacity : pk.size = pk.capacity
  size_lt : pk.size < 2 ^ 24 + 4

/-- The outcome of wanting `len` bytes at `s`: they are there, or there is an error and the cursor
    stays. -/
def Bounded {α : Type} (outcome : Except Fault α × PacketIn) (len : Nat) (s : PacketIn) : Prop :=
  ((∃ a, outcome.1 = .ok a) ↔ len ≤ s.packet.size - s.packet.pos) ∧
    ((¬ ∃ a, outcome.1 = .ok a) → outcome.2.packet = s.packet)

/-- The positions at the requests of a run and at its end. -/
def PacketIn.positions (s : PacketIn) : List Nat := s.asked.map Prod.fst ++ [s.packet.pos]

/-- The cursor has never gone back. -/
def PacketIn.Ascending (s : PacketIn) : Prop := s.positions.IsChain (· ≤ ·)

/-- No request takes the sum of the cursor and the length to `2 ^ 32`. -/
def PacketIn.Fits (s : PacketIn) : Prop := ∀ r ∈ s.asked, r.1 + r.2 < 2 ^ 32

instance (s : PacketIn) : Decidable s.Ascending := by
  unfold PacketIn.Ascending
  infer_instance

instance (s : PacketIn) : Decidable s.Fits := by
  unfold PacketIn.Fits
  infer_instance

theorem received_make {data : List RefMemoryChunk} (h : total data < 2 ^ 24 + 4) :
    Received (PacketIn.make data).packet := by
  have hu : u32 (total data) = total data := Nat.mod_eq_of_lt (by omega)
  refine ⟨Nat.zero_le _, rfl, ?_⟩
  show u32 (total data) < 2 ^ 24 + 4
  rw [hu]
  exact h

theorem Received.swap {s : PacketIn} (h : Received s.packet) : Received s.swap.packet :=
  ⟨Nat.zero_le _, h.capacity, h.size_lt⟩

/-- The sum wraps to a position before the cursor, or does not wrap. -/
theorem u32_add {p n : Nat} (hp : p < 2 ^ 32) (hn : n < 2 ^ 32) :
    (p + n < 2 ^ 32 ∧ u32 (p + n) = p + n) ∨
      (2 ^ 32 ≤ p + n ∧ u32 (p + n) + 2 ^ 32 = p + n ∧ u32 (p + n) < p) := by
  unfold u32
  omega

/-! ### One request -/

section

variable {s : PacketIn} {len : Nat}

/-- `GetByte`: the test, and what it leaves. -/
theorem getByte_cases (m : Bytes) (len : Nat) (s : PacketIn) :
    (s.packet.size < u32 (s.packet.pos + len) ∧
      PacketIn.getByte m len s = (.error (.exception "Packet::GetByte no more data"),
        { s with asked := s.asked ++ [(s.packet.pos, len)] })) ∨
    (u32 (s.packet.pos + len) ≤ s.packet.size ∧ ∃ bs pk,
      PacketIn.getByte m len s = (.ok bs, ⟨pk, s.asked ++ [(s.packet.pos, len)]⟩) ∧
        pk.pos = u32 (s.packet.pos + len) ∧ pk.size = s.packet.size ∧
        pk.capacity = s.packet.capacity) := by
  by_cases h : s.packet.size < u32 (s.packet.pos + len)
  · refine Or.inl ⟨h, ?_⟩
    simp only [PacketIn.getByte, Gateway.PacketIn.getByte, if_pos h]
  · rcases hread : Gateway.readChunks m len (s.packet.data.drop s.packet.posY) with ⟨bs, vs, y⟩
    refine Or.inr ⟨not_lt.mp h, bs, ⟨s.packet.data.take s.packet.posY ++ vs, s.packet.size,
      u32 (s.packet.pos + len), s.packet.posY + y, s.packet.capacity⟩, ?_, rfl, rfl, rfl⟩
    simp only [PacketIn.getByte, Gateway.PacketIn.getByte, if_neg h, hread]

/-- `Skip`: the assertion, and what it leaves. -/
theorem skip_cases (step : Nat) (s : PacketIn) :
    (s.packet.capacity < u32 (s.packet.pos + step) ∧
      PacketIn.skip step s = (.error .assertion,
        { s with asked := s.asked ++ [(s.packet.pos, step)] })) ∨
    (u32 (s.packet.pos + step) ≤ s.packet.capacity ∧ ∃ pk,
      PacketIn.skip step s = (.ok (), ⟨pk, s.asked ++ [(s.packet.pos, step)]⟩) ∧
        pk.pos = u32 (s.packet.pos + step) ∧
        pk.size = max s.packet.size (u32 (s.packet.pos + step)) ∧
        pk.capacity = s.packet.capacity) := by
  by_cases h : u32 (s.packet.pos + step) ≤ s.packet.capacity
  · have hmax := Gateway.updateSize_eq { s.packet with pos := u32 (s.packet.pos + step) }
    rcases hskip : Gateway.Packet.skipChunks (u32 (s.packet.pos + step)) s.packet.data with ⟨r, y⟩
    refine Or.inr ⟨h, ⟨r, max s.packet.size (u32 (s.packet.pos + step)),
      u32 (s.packet.pos + step), y, s.packet.capacity⟩, ?_, rfl, rfl, rfl⟩
    simp only [PacketIn.skip, PacketIn.skipTo, Gateway.Packet.skipTo, if_pos h, hskip, hmax]
  · refine Or.inl ⟨not_le.mp h, ?_⟩
    simp only [PacketIn.skip, PacketIn.skipTo, Gateway.Packet.skipTo, if_neg h]

/-- An operation that returns where the test passes, and leaves the packet where it does not. -/
theorem bounded_iff_of_test {α : Type} {outcome : Except Fault α × PacketIn}
    (h : Received s.packet) (hlen : len < 2 ^ 32)
    (hok : (∃ a, outcome.1 = .ok a) ↔ u32 (s.packet.pos + len) ≤ s.packet.size)
    (herr : (¬ ∃ a, outcome.1 = .ok a) → outcome.2.packet = s.packet) :
    Bounded outcome len s ↔ s.packet.pos + len < 2 ^ 32 := by
  have hpos := h.pos_le
  have hsize := h.size_lt
  rcases u32_add (p := s.packet.pos) (n := len) (by omega) hlen with ⟨hlt, hu⟩ | ⟨hge, hu, hback⟩
  · refine ⟨fun _ => hlt, fun _ => ⟨?_, herr⟩⟩
    rw [hok, hu]
    omega
  · -- The test passes, although there are not so many bytes.
    refine ⟨fun hbounded => ?_, fun hlt => absurd hge (by omega)⟩
    have hleft := hbounded.1.mp (hok.mpr (by omega))
    omega

theorem bounded_getByte_iff (m : Bytes) (h : Received s.packet) (hlen : len < 2 ^ 32) :
    Bounded (PacketIn.getByte m len s) len s ↔ s.packet.pos + len < 2 ^ 32 := by
  rcases getByte_cases m len s with ⟨hshort, hop⟩ | ⟨hfits, bs, pk, hop, -⟩
  · refine bounded_iff_of_test h hlen ?_ ?_
    · rw [hop]
      exact ⟨fun ⟨_, hok⟩ => (by cases hok), fun hle => absurd hshort (not_lt.mpr hle)⟩
    · rw [hop]
      exact fun _ => rfl
  · refine bounded_iff_of_test h hlen ?_ ?_
    · rw [hop]
      exact ⟨fun _ => hfits, fun _ => ⟨bs, rfl⟩⟩
    · rw [hop]
      exact fun hnot => absurd ⟨bs, rfl⟩ hnot

theorem bounded_skip_iff (h : Received s.packet) (hlen : len < 2 ^ 32) :
    Bounded (PacketIn.skip len s) len s ↔ s.packet.pos + len < 2 ^ 32 := by
  have hcap := h.capacity
  rcases skip_cases len s with ⟨hshort, hop⟩ | ⟨hfits, pk, hop, -⟩
  · refine bounded_iff_of_test h hlen ?_ ?_
    · rw [hop]
      exact ⟨fun ⟨_, hok⟩ => (by cases hok), fun hle => absurd hshort (by omega)⟩
    · rw [hop]
      exact fun _ => rfl
  · refine bounded_iff_of_test h hlen ?_ ?_
    · rw [hop]
      exact ⟨fun _ => by omega, fun _ => ⟨(), rfl⟩⟩
    · rw [hop]
      exact fun hnot => absurd ⟨(), rfl⟩ hnot

/-- What is done with the bytes does not matter. -/
theorem bounded_map {α β : Type} {op : PacketIn.Op α} (f : α → β) :
    Bounded ((do let a ← op; return f a) s) len s ↔ Bounded (op s) len s := by
  rcases hop : op s with ⟨e | a, s'⟩
  · have hmap : (do let a ← op; return f a) s = (.error e, s') := PacketIn.bind_error hop
    rw [hmap]
    simp [Bounded]
  · have hmap : (do let a ← op; return f a) s = (.ok (f a), s') := PacketIn.bind_ok hop
    rw [hmap]
    simp [Bounded]

theorem bounded_readFixedString_iff (m : Bytes) (v : List UInt8) (h : Received s.packet)
    (hlen : len < 2 ^ 32) :
    Bounded (PacketIn.readFixedString m v len s) len s ↔ s.packet.pos + len < 2 ^ 32 :=
  (bounded_map _).trans (bounded_getByte_iff m h hlen)

/-- `ReadLengthEncodedString`, behind the length it has read. -/
theorem bounded_readLengthEncodedString_iff (m : Bytes) (l : Locals) (txt : List UInt8)
    {start : PacketIn} (h : Received s.packet) (hlen : len < 2 ^ 32)
    (hread : PacketIn.readVariableInteger m 32 l start = (.ok len, s)) :
    Bounded (PacketIn.readLengthEncodedString m l txt start) len s ↔
      s.packet.pos + len < 2 ^ 32 := by
  rw [PacketIn.readLengthEncodedString, PacketIn.bind_ok hread]
  exact bounded_readFixedString_iff m txt h hlen

end

/-! ### A run of requests -/

/-- From `p` on the requests have been made one after the other, and the cursor is at `q` then.  A
    request that is refused leaves the cursor. -/
inductive Follows : Nat → List (Nat × Nat) → Nat → Prop
  | done (p : Nat) : Follows p [] p
  | moved {p n q : Nat} {rest : List (Nat × Nat)} (hn : n < 2 ^ 32)
      (h : Follows (u32 (p + n)) rest q) : Follows p ((p, n) :: rest) q
  | refused {p n q : Nat} {rest : List (Nat × Nat)} (hn : p + n < 2 ^ 32)
      (h : Follows p rest q) : Follows p ((p, n) :: rest) q

theorem Follows.append {p q r : Nat} {xs ys : List (Nat × Nat)} (h : Follows p xs q)
    (h' : Follows q ys r) : Follows p (xs ++ ys) r := by
  induction h with
  | done p => exact h'
  | moved hn h ih => exact .moved hn (ih h')
  | refused hn h ih => exact .refused hn (ih h')

theorem Follows.exists_positions {p q : Nat} {asked : List (Nat × Nat)} (h : Follows p asked q) :
    ∃ later, asked.map Prod.fst ++ [q] = p :: later := by
  cases h with
  | done p => exact ⟨[], rfl⟩
  | moved hn h => exact ⟨_, rfl⟩
  | refused hn h => exact ⟨_, rfl⟩

/-- The cursor goes back exactly where a sum wraps. -/
theorem Follows.ascending_iff {p q : Nat} {asked : List (Nat × Nat)} (h : Follows p asked q)
    (hp : p < 2 ^ 32) :
    (asked.map Prod.fst ++ [q]).IsChain (· ≤ ·) ↔ ∀ r ∈ asked, r.1 + r.2 < 2 ^ 32 := by
  induction h with
  | done p => simp
  | @moved p n q rest hn h ih =>
      obtain ⟨later, hlater⟩ := h.exists_positions
      have hwrap := u32_add hp hn
      rw [List.map_cons, List.cons_append, List.forall_mem_cons, ← ih (Nat.mod_lt _ (by decide)),
        hlater, List.isChain_cons_cons]
      refine and_congr_left fun _ => ?_
      show p ≤ u32 (p + n) ↔ p + n < 2 ^ 32
      omega
  | @refused p n q rest hn h ih =>
      obtain ⟨later, hlater⟩ := h.exists_positions
      rw [List.map_cons, List.cons_append, List.forall_mem_cons, ← ih hp, hlater,
        List.isChain_cons_cons]
      exact and_congr_left fun _ => ⟨fun _ => hn, fun _ => Nat.le_refl p⟩

/-- An operation that moves the cursor by requests only, and whose result satisfies `post`. -/
def Tracks {α : Type} (op : PacketIn.Op α) (post : α → Prop) : Prop :=
  ∀ s, Received s.packet → ∃ asked, (op s).2.asked = s.asked ++ asked ∧
    Received (op s).2.packet ∧ Follows s.packet.pos asked (op s).2.packet.pos ∧
    ∀ a, (op s).1 = .ok a → post a

section

variable {α β : Type} {post : α → Prop} {post' : β → Prop}

theorem Tracks.bind {op : PacketIn.Op α} {f : α → PacketIn.Op β} (h : Tracks op post)
    (hf : ∀ a, post a → Tracks (f a) post') : Tracks (op >>= f) post' := by
  intro s hs
  obtain ⟨asked, hasked, hreceived, hfollows, hpost⟩ := h s hs
  rcases hop : op s with ⟨e | a, s1⟩
  · rw [hop] at hasked hreceived hfollows
    rw [PacketIn.bind_error hop]
    exact ⟨asked, hasked, hreceived, hfollows, fun b hb => by cases hb⟩
  · rw [hop] at hasked hreceived hfollows hpost
    obtain ⟨later, hlater, hreceived', hfollows', hpost'⟩ := hf a (hpost a rfl) s1 hreceived
    rw [PacketIn.bind_ok hop]
    refine ⟨asked ++ later, ?_, hreceived', hfollows.append hfollows', hpost'⟩
    rw [hlater, hasked, List.append_assoc]

/-- An operation that does not touch the packet. -/
theorem Tracks.of_same {op : PacketIn.Op α} (hsame : ∀ s, (op s).2 = s)
    (hpost : ∀ s a, (op s).1 = .ok a → post a) : Tracks op post := by
  intro s hs
  refine ⟨[], ?_, ?_, ?_, hpost s⟩
  · rw [hsame, List.append_nil]
  · rw [hsame]
    exact hs
  · rw [hsame]
    exact .done _

theorem Tracks.pure {a : α} (h : post a) : Tracks (Pure.pure a : PacketIn.Op α) post :=
  .of_same (fun _ => rfl) fun _ _ hb => Except.ok.inj hb ▸ h

theorem Tracks.throw (e : Fault) : Tracks (throw e : PacketIn.Op α) post :=
  .of_same (fun _ => rfl) fun _ _ hb => by cases hb

theorem Tracks.orThrow (x : Except Fault α) : Tracks (orThrow x) fun _ => True :=
  .of_same (fun _ => rfl) fun _ _ _ => trivial

theorem Tracks.get : Tracks (get : PacketIn.Op PacketIn) fun _ => True :=
  .of_same (fun _ => rfl) fun _ _ _ => trivial

end

/-- A request that is refused does not wrap. -/
theorem refused_lt {s : PacketIn} (h : Received s.packet) {n : Nat} (hn : n < 2 ^ 32)
    (hshort : s.packet.size < u32 (s.packet.pos + n)) : s.packet.pos + n < 2 ^ 32 := by
  have hpos := h.pos_le
  have hsize := h.size_lt
  have hwrap := u32_add (p := s.packet.pos) (n := n) (by omega) hn
  omega

theorem tracks_getByte (m : Bytes) {n : Nat} (hn : n < 2 ^ 32) :
    Tracks (PacketIn.getByte m n) fun _ => True := by
  intro s hs
  refine ⟨[(s.packet.pos, n)], ?_⟩
  rcases getByte_cases m n s with ⟨hshort, hop⟩ | ⟨hfits, bs, pk, hop, hpos, hsize, hcap⟩
  · rw [hop]
    exact ⟨rfl, hs, .refused (refused_lt hs hn hshort) (.done _), fun _ _ => trivial⟩
  · rw [hop]
    refine ⟨rfl, ⟨?_, ?_, ?_⟩, .moved hn ?_, fun _ _ => trivial⟩
    · rw [hpos, hsize]
      exact hfits
    · rw [hsize, hcap]
      exact hs.capacity
    · rw [hsize]
      exact hs.size_lt
    · rw [hpos]
      exact .done _

theorem tracks_skip {n : Nat} (hn : n < 2 ^ 32) : Tracks (PacketIn.skip n) fun _ => True := by
  intro s hs
  have hcapacity := hs.capacity
  refine ⟨[(s.packet.pos, n)], ?_⟩
  rcases skip_cases n s with ⟨hshort, hop⟩ | ⟨hfits, pk, hop, hpos, hsize, hcap⟩
  · rw [hop]
    exact ⟨rfl, hs, .refused (refused_lt hs hn (by omega)) (.done _), fun _ _ => trivial⟩
  · rw [Nat.max_eq_left (by omega)] at hsize
    rw [hop]
    refine ⟨rfl, ⟨?_, ?_, ?_⟩, .moved hn ?_, fun _ _ => trivial⟩
    · rw [hpos, hsize, hcapacity]
      exact hfits
    · rw [hsize, hcap]
      exact hs.capacity
    · rw [hsize]
      exact hs.size_lt
    · rw [hpos]
      exact .done _

theorem tracks_currentByte (m : Bytes) : Tracks (PacketIn.currentByte m) fun _ => True := by
  refine .of_same (fun s => ?_) fun _ _ _ => trivial
  unfold PacketIn.currentByte
  split
  · split <;> rfl
  · rfl

theorem tracks_readFixedInteger (m : Bytes) {n : Nat} (hn : n < 2 ^ 32) (old : Nat) :
    Tracks (PacketIn.readFixedInteger m n old) fun _ => True :=
  (tracks_getByte m hn).bind fun _ _ => .pure trivial

theorem tracks_readFixedString (m : Bytes) (v : List UInt8) {len : Nat} (hlen : len < 2 ^ 32) :
    Tracks (PacketIn.readFixedString m v len) fun _ => True :=
  (tracks_getByte m hlen).bind fun _ _ => .pure trivial

theorem tracks_readVariableInteger (m : Bytes) (w : Nat) (l : Locals) :
    Tracks (PacketIn.readVariableInteger m w l) fun v => v < 2 ^ w := by
  have hlt : ∀ v, v % 2 ^ w < 2 ^ w := fun v => Nat.mod_lt _ (Nat.two_pow_pos w)
  unfold PacketIn.readVariableInteger
  refine (tracks_readFixedInteger m (by decide) 0).bind fun first _ => ?_
  split
  · exact .pure (hlt _)
  · split
    · exact (tracks_readFixedInteger m (by decide) _).bind fun _ _ => .pure (hlt _)
    · split
      · exact (tracks_readFixedInteger m (by decide) _).bind fun _ _ => .pure (hlt _)
      · split
        · exact (tracks_readFixedInteger m (by decide) _).bind fun _ _ => .pure (hlt _)
        · exact .throw _

/-! ### A row -/

theorem RowReaderText.tracks_parseColumn (m : Bytes) (fl : Floats) (md : ResultSetMetadata)
    (un : Uninit) (column : Nat) (buffer : List UInt8) :
    Tracks (parseColumn m fl md un column buffer) fun _ => True := by
  unfold parseColumn
  refine Tracks.get.bind fun s _ => ?_
  refine (tracks_currentByte m).bind fun flag _ => ?_
  split
  · exact (tracks_skip (by decide)).bind fun _ _ => .pure trivial
  · refine (tracks_readVariableInteger m 32 _).bind fun len hlen => ?_
    refine (Tracks.orThrow _).bind fun cm _ => ?_
    -- A number is read into the buffer, a string is skipped.
    have hnumber : ∀ f : List UInt8 → Field × List UInt8,
        Tracks (do let buffer ← PacketIn.readFixedString m buffer len; return f buffer)
          fun _ => True :=
      fun f => (tracks_readFixedString m buffer hlen).bind fun _ _ => .pure trivial
    have hstring : ∀ r : Field × List UInt8,
        Tracks (do PacketIn.skip len; return r) fun _ => True :=
      fun r => (tracks_skip hlen).bind fun _ _ => .pure trivial
    cases cm.type <;> first | exact hnumber _ | exact hstring _ | exact .throw _

theorem RowReaderText.tracks_parseColumns (m : Bytes) (fl : Floats) (md : ResultSetMetadata)
    (un : Uninit) (left column : Nat) (buffer : List UInt8) :
    Tracks (parseColumns m fl md un left column buffer) fun _ => True := by
  induction left generalizing column buffer with
  | zero => exact .pure trivial
  | succ left ih =>
      exact (tracks_parseColumn m fl md un column buffer).bind fun r _ =>
        (ih (column + 1) r.2).bind fun _ _ => .pure trivial

theorem RowReaderBinary.tracks_parseColumn (m : Bytes) (md : ResultSetMetadata) (un : Uninit)
    (bitmap : List UInt8) (column : Nat) :
    Tracks (parseColumn m md un bitmap column) fun _ => True := by
  unfold parseColumn
  refine (Tracks.orThrow _).bind fun cm _ => ?_
  refine (Tracks.orThrow _).bind fun null _ => ?_
  split
  · exact .pure trivial
  · have hstring : Tracks (do
        let s ← get
        let len ← PacketIn.readVariableInteger m 32 (un.locals column)
        PacketIn.skip len
        return FieldValue.store (un.values column) 4 s.packet.pos) fun _ => True :=
      Tracks.get.bind fun s _ => (tracks_readVariableInteger m 32 _).bind fun len hlen =>
        (tracks_skip hlen).bind fun _ _ => .pure trivial
    cases cm.type <;>
      first | exact tracks_readFixedInteger m (by decide) _ | exact hstring | exact .throw _

theorem RowReaderBinary.tracks_parseColumns (m : Bytes) (md : ResultSetMetadata) (un : Uninit)
    (bitmap : List UInt8) (left column : Nat) :
    Tracks (parseColumns m md un bitmap left column) fun _ => True := by
  induction left generalizing column with
  | zero => exact .pure trivial
  | succ left ih =>
      exact (tracks_parseColumn m md un bitmap column).bind fun _ _ =>
        (ih (column + 1)).bind fun _ _ => .pure trivial

/-- What follows the `SkipTo` at the start of a row is tracked. -/
theorem ascending_iff_of_tracks {α : Type} {op : PacketIn.Op α} (h : Tracks op fun _ => True)
    {s : PacketIn} (hs : Received s.packet) (start : Nat) :
    let final := (do PacketIn.skipTo start; op : PacketIn.Op α) s.swap
    final.2.Ascending ↔ final.2.Fits := by
  intro final
  have hswap := hs.swap
  by_cases hstart : start ≤ s.packet.capacity
  · obtain ⟨s1, hop, hnone, hreceived⟩ : ∃ s1, PacketIn.skipTo start s.swap = (.ok (), s1) ∧
        s1.asked = [] ∧ Received s1.packet := by
      have hmax := Gateway.updateSize_eq { s.swap.packet with pos := start }
      have hsize : max s.packet.size start = s.packet.size :=
        Nat.max_eq_left (hs.capacity ▸ hstart)
      rcases hskip : Gateway.Packet.skipChunks start s.swap.packet.data with ⟨r, y⟩
      refine ⟨⟨⟨r, s.packet.size, start, y, s.packet.capacity⟩, []⟩, ?_, rfl,
        ⟨hs.capacity ▸ hstart, hs.capacity, hs.size_lt⟩⟩
      have hle : start ≤ s.swap.packet.capacity := hstart
      simp only [PacketIn.skipTo, Gateway.Packet.skipTo, if_pos hle, hskip, hmax]
      simp only [PacketIn.swap, hsize]
    obtain ⟨asked, hasked, hreceived', hfollows, -⟩ := h s1 hreceived
    have hfinal : final = op s1 := PacketIn.bind_ok hop
    have hlt := hreceived.pos_le
    have hsize := hreceived.size_lt
    rw [hnone, List.nil_append] at hasked
    rw [hfinal, PacketIn.Ascending, PacketIn.Fits, PacketIn.positions, hasked]
    exact hfollows.ascending_iff (by omega)
  · have hop : PacketIn.skipTo start s.swap = (.error .assertion, s.swap) := by
      have hnot : ¬ start ≤ s.swap.packet.capacity := hstart
      simp only [PacketIn.skipTo, Gateway.Packet.skipTo, if_neg hnot]
    have hfinal : final = (.error .assertion, s.swap) := PacketIn.bind_error hop
    rw [hfinal]
    simp [PacketIn.Ascending, PacketIn.positions, PacketIn.Fits, PacketIn.swap]

/-- `num_columns` is a `uint32_t`, so the bitmap is shorter than `2 ^ 32` bytes. -/
theorem RowReaderBinary.ascending_parseRow_iff (m : Bytes) (md : ResultSetMetadata) (un : Uninit)
    {s : PacketIn} (hs : Received s.packet) :
    (parseRow m md un s.swap).2.Ascending ↔ (parseRow m md un s.swap).2.Fits := by
  have hbitmap : u32 (md.numColumns + 7 + 2) / 8 < 2 ^ 32 := by
    have hlt : u32 (md.numColumns + 7 + 2) < 2 ^ 32 := Nat.mod_lt _ (by decide)
    omega
  refine ascending_iff_of_tracks ?_ hs 5
  exact (tracks_getByte m hbitmap).bind fun bitmap _ =>
    (tracks_parseColumns m md un bitmap _ 0).bind fun _ _ => .pure trivial

theorem RowReaderText.ascending_parseRow_iff (m : Bytes) (fl : Floats) (md : ResultSetMetadata)
    (un : Uninit) {s : PacketIn} (hs : Received s.packet) :
    (parseRow m fl md un s.swap).2.Ascending ↔ (parseRow m fl md un s.swap).2.Fits :=
  ascending_iff_of_tracks (tracks_parseColumns m fl md un _ 0 []) hs 4

/-! ### The bounds hold where no sum wraps -/

/-- **Every request is bounded iff the sum of the cursor and the length is below `2 ^ 32`**, and
    while a row is parsed the cursor never goes back iff this is so for each of its requests. -/
theorem bounded_iff_fits (m : Bytes) (v : List UInt8) (fl : Floats) (md : ResultSetMetadata)
    (un : Uninit) {s : PacketIn} (h : Received s.packet) {len : Nat} (hlen : len < 2 ^ 32) :
    (Bounded (PacketIn.getByte m len s) len s ↔ s.packet.pos + len < 2 ^ 32) ∧
      (Bounded (PacketIn.readFixedString m v len s) len s ↔ s.packet.pos + len < 2 ^ 32) ∧
      (∀ l start, PacketIn.readVariableInteger m 32 l start = (.ok len, s) →
        (Bounded (PacketIn.readLengthEncodedString m l v start) len s ↔
          s.packet.pos + len < 2 ^ 32)) ∧
      (Bounded (PacketIn.skip len s) len s ↔ s.packet.pos + len < 2 ^ 32) ∧
      ((RowReaderText.parseRow m fl md un s.swap).2.Ascending ↔
        (RowReaderText.parseRow m fl md un s.swap).2.Fits) ∧
      ((RowReaderBinary.parseRow m md un s.swap).2.Ascending ↔
        (RowReaderBinary.parseRow m md un s.swap).2.Fits) :=
  ⟨bounded_getByte_iff m h hlen, bounded_readFixedString_iff m v h hlen,
    fun l _ hread => bounded_readLengthEncodedString_iff m l v h hlen hread,
    bounded_skip_iff h hlen, RowReaderText.ascending_parseRow_iff m fl md un h,
    RowReaderBinary.ascending_parseRow_iff m md un h⟩

/-- A row packet with one string; its length is `2 ^ 32 - 1`, in eight bytes. -/
def longRow : List UInt8 := [9, 0, 0, 1, 0xfe, 0xff, 0xff, 0xff, 0xff, 0, 0, 0, 0]

/-- One column of a string type. -/
def oneString : ResultSetMetadata := ⟨[⟨[], [], [], [], [], [], 0, 0, 0, .varchar, 0, 0, 0⟩], 1⟩

def noFloats : Floats := ⟨fun _ => 0, fun _ => 0⟩

/-- All memory holds zero. -/
def zeroed : Uninit := ⟨fun _ => ⟨0, 0, 0⟩, fun _ => 0⟩

def longRowMemory : Bytes := fun _ i => longRow.getD i 0

/-- The packet in one chunk. -/
def longRowPacket : PacketIn := PacketIn.make [⟨0, 0, 0, 13⟩]

/-- It has been read up to its end. -/
def longRowRead : PacketIn := ⟨{ longRowPacket.packet with pos := 13 }, []⟩

/-- A row packet with a string of one byte. -/
def shortRowMemory : Bytes := fun _ i => ([2, 0, 0, 1, 1, 97] : List UInt8).getD i 0

def shortRowPacket : PacketIn := PacketIn.make [⟨0, 0, 0, 6⟩]

/-- `Skip` inside the packet and across `2 ^ 32`, and the text rows with a short and with the long
    string. -/
theorem bounded_iff_fits_longRow :
    Bounded (PacketIn.skip 4 longRowPacket) 4 longRowPacket ∧
      ¬ Bounded (PacketIn.skip 4294967295 longRowRead) 4294967295 longRowRead ∧
      (RowReaderText.parseRow shortRowMemory noFloats oneString zeroed
        shortRowPacket.swap).2.Ascending ∧
      ¬ (RowReaderText.parseRow longRowMemory noFloats oneString zeroed
        longRowPacket.swap).2.Ascending := by
  have hlong : Received longRowPacket.packet := received_make (by decide)
  have hread : Received longRowRead.packet := ⟨by decide, by decide, by decide⟩
  have hshort : Received shortRowPacket.packet := received_make (by decide)
  obtain ⟨-, -, -, hinside, htext, -⟩ := bounded_iff_fits longRowMemory [] noFloats oneString
    zeroed hlong (by decide : 4 < 2 ^ 32)
  obtain ⟨-, -, -, hacross, -⟩ := bounded_iff_fits longRowMemory [] noFloats oneString zeroed
    hread (by decide : 4294967295 < 2 ^ 32)
  obtain ⟨-, -, -, -, hrow, -⟩ := bounded_iff_fits shortRowMemory [] noFloats oneString zeroed
    hshort (by decide : 1 < 2 ^ 32)
  refine ⟨hinside.mpr (by decide), fun hbounded => ?_, hrow.mpr ?_, fun hasc => ?_⟩
  · exact absurd (hacross.mp hbounded) (by decide)
  · exact (by decide +kernel : (RowReaderText.parseRow shortRowMemory noFloats oneString zeroed
      shortRowPacket.swap).2.Fits)
  · exact absurd (htext.mp hasc) (by decide +kernel)

/-- Behind the length the cursor is at 13, and `Skip` takes it back to 12. -/
theorem not_ascending_longRow : ¬ ∀ (m : Bytes) (fl : Floats) (md : ResultSetMetadata)
    (un : Uninit) (s : PacketIn), Received s.packet →
    (RowReaderText.parseRow m fl md un s.swap).2.Ascending := by
  intro h
  have hrow := h longRowMemory noFloats oneString zeroed longRowPacket (received_make (by decide))
  exact absurd hrow (by decide +kernel)

end Jengine.Dbo.Internal
