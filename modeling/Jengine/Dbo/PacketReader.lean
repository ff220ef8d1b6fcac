import Jengine.Dbo.RowText

/-!
# Reading a packet is reading its bytes

What is read from a mysql packet is read through its chunks; the outcome depends on the bytes
behind the cursor only, also where a read fails.  `Simulates` says this of a reader of a packet
and a reader of a byte string, so that the code above can be stated on byte strings.  The
readers are those of the handshake (`base/dbo_bk/internal/packet.h`).
-/

namespace Jengine.Dbo.Internal

open Jengine.Lib Jengine.Memory RefMemoryChunk
open Gateway (u32)

namespace PacketIn

/-- `FreeCount`. -/
def packetFreeCount : Op Nat := do
  let s ← get
  return u32 (s.packet.capacity + 2 ^ 32 - s.packet.pos)

/-- The loop of `ReadNulTerminateString`; every pass takes a byte. -/
def readNulLoop (m : Bytes) : Nat → List UInt8 → Op (List UInt8)
  | 0, _ => throw .assertion
  | fuel + 1, txt => do
      let v ← getByte m 1
      if v = [0] then
        return txt
      else
        readNulLoop m fuel (txt ++ v)

/-- `ReadNulTerminateString` into a string that holds `txt`. -/
def readNulTerminateString (m : Bytes) (txt : List UInt8) : Op (List UInt8) := do
  let s ← get
  readNulLoop m (s.packet.size + 1) txt

end PacketIn

/-! ### Reading a byte string -/

/-- A reader of a byte string. -/
abbrev Reader := StateT (List UInt8) (Except Fault)

namespace Reader

def getByte (n : Nat) : Reader (List UInt8) := fun bs =>
  if n ≤ bs.length then .ok (bs.take n, bs.drop n)
  else .error (.exception "Packet::GetByte no more data")

def skip (n : Nat) : Reader Unit := fun bs =>
  if n ≤ bs.length then .ok ((), bs.drop n) else .error .assertion

def readFixedInteger (n : Nat) : Reader Nat := do
  let bs ← getByte n
  return ofLE bs

def freeCount : Reader Nat := fun bs => .ok (bs.length, bs)

def readFixedString (n : Nat) : Reader (List UInt8) := getByte n

def readRestOfPacketString : Reader (List UInt8) := fun bs => .ok (bs, [])

/-- Everything up to the first zero byte, which is taken, too. -/
def readNulTerminateString : Reader (List UInt8) := fun bs =>
  if 0 ∈ bs then .ok (bs.takeWhile (· ≠ 0), (bs.dropWhile (· ≠ 0)).tail)
  else .error (.exception "Packet::GetByte no more data")

variable {α β : Type}

theorem bind_apply (r : Reader α) (f : α → Reader β) (bs : List UInt8) :
    (r >>= f) bs = (r bs >>= fun p => f p.1 p.2) := rfl

theorem bind_of_ok {r : Reader α} {f : α → Reader β} {bs rest : List UInt8} {a : α}
    (h : r bs = .ok (a, rest)) : (r >>= f) bs = f a rest := by
  rw [bind_apply, h]
  rfl

theorem bind_of_error {r : Reader α} {f : α → Reader β} {bs : List UInt8} {e : Fault}
    (h : r bs = .error e) : (r >>= f) bs = .error e := by
  rw [bind_apply, h]
  rfl

theorem bind_eq_ok {r : Reader α} {f : α → Reader β} {bs rest : List UInt8} {b : β} :
    (r >>= f) bs = .ok (b, rest) ↔
      ∃ a mid, r bs = .ok (a, mid) ∧ f a mid = .ok (b, rest) := by
  rcases hr : r bs with e | ⟨a, mid⟩
  · rw [bind_of_error hr]
    exact ⟨nofun, fun ⟨_, _, h, _⟩ => nomatch h⟩
  · rw [bind_of_ok hr]
    constructor
    · exact fun h => ⟨a, mid, rfl, h⟩
    · rintro ⟨a', mid', h, hf⟩
      cases h
      exact hf

@[simp] theorem getByte_append {n : Nat} {xs : List UInt8} (h : xs.length = n)
    (rest : List UInt8) : getByte n (xs ++ rest) = .ok (xs, rest) := by
  subst h
  simp [getByte]

theorem skip_append {n : Nat} {xs : List UInt8} (h : xs.length = n) (rest : List UInt8) :
    skip n (xs ++ rest) = .ok ((), rest) := by
  subst h
  simp [skip]

theorem readFixedInteger_append {n : Nat} {xs : List UInt8} (h : xs.length = n)
    (rest : List UInt8) : readFixedInteger n (xs ++ rest) = .ok (ofLE xs, rest) :=
  bind_of_ok (getByte_append h rest)

theorem readFixedInteger_toLE {n v : Nat} (h : v < 256 ^ n) (rest : List UInt8) :
    readFixedInteger n (toLE n v ++ rest) = .ok (v, rest) := by
  rw [readFixedInteger_append (length_toLE n v), ofLE_toLE_of_lt h]

theorem readNulTerminateString_append {str : List UInt8} (h : 0 ∉ str) (rest : List UInt8) :
    readNulTerminateString (str ++ 0 :: rest) = .ok (str, rest) := by
  have hall : ∀ b ∈ str, (fun b : UInt8 => decide (b ≠ 0)) b = true := by
    intro b hb
    exact decide_eq_true fun hzero => h (hzero ▸ hb)
  rw [readNulTerminateString, if_pos (List.mem_append_right _ List.mem_cons_self),
    List.takeWhile_append_of_pos hall, List.dropWhile_append_of_pos hall]
  simp

end Reader

/-! ### The chunks and the bytes -/

namespace PacketIn

variable {m : Bytes} {α β : Type}

/-- `op` does through the chunks of a packet what `r` does to the bytes behind the cursor. -/
structure Simulates (m : Bytes) (op : Op α) (r : Reader α) : Prop where
  ok : ∀ {s bs a rest}, Holds m s bs → bs.length + 2 ^ 16 ≤ 2 ^ 32 →
    r (bs.drop s.packet.pos) = .ok (a, rest) →
    ∃ s', op s = (.ok a, s') ∧ Holds m s' bs ∧ bs.drop s'.packet.pos = rest
  throws : ∀ {s bs e}, Holds m s bs → bs.length + 2 ^ 16 ≤ 2 ^ 32 →
    r (bs.drop s.packet.pos) = .error e → ∃ s', op s = (.error e, s')

/-- The result is that of the bytes. -/
theorem Simulates.fst {op : Op α} {r : Reader α} (h : Simulates m op r) {s : PacketIn}
    {bs : List UInt8} (hs : Holds m s bs) (hfit : bs.length + 2 ^ 16 ≤ 2 ^ 32) :
    (op s).1 = (r (bs.drop s.packet.pos)).map Prod.fst := by
  rcases hr : r (bs.drop s.packet.pos) with e | ⟨a, rest⟩
  · obtain ⟨s', hop⟩ := h.throws hs hfit hr
    rw [hop]
    rfl
  · obtain ⟨s', hop, -, -⟩ := h.ok hs hfit hr
    rw [hop]
    rfl

theorem Simulates.pure (m : Bytes) (a : α) : Simulates m (Pure.pure a) (Pure.pure a) where
  ok := by
    intro s bs b rest h _ hr
    cases hr
    exact ⟨s, rfl, h, rfl⟩
  throws := by
    intro s bs e _ _ hr
    cases hr

theorem Simulates.throw (m : Bytes) (e : Fault) :
    Simulates m (throw e : Op α) (throw e : Reader α) where
  ok := by
    intro s bs b rest _ _ hr
    cases hr
  throws := by
    intro s bs e' _ _ hr
    cases hr
    exact ⟨s, rfl⟩

theorem Simulates.bind {op : Op α} {r : Reader α} {f : α → Op β} {g : α → Reader β}
    (h : Simulates m op r) (hf : ∀ a, Simulates m (f a) (g a)) :
    Simulates m (op >>= f) (r >>= g) where
  ok := by
    intro s bs b rest hs hfit hr
    obtain ⟨a, mid, hfirst, hsecond⟩ := Reader.bind_eq_ok.mp hr
    obtain ⟨s1, hop1, hholds1, hrest1⟩ := h.ok hs hfit hfirst
    rw [← hrest1] at hsecond
    obtain ⟨s2, hop2, hholds2, hrest2⟩ := (hf a).ok hholds1 hfit hsecond
    exact ⟨s2, (bind_ok hop1).trans hop2, hholds2, hrest2⟩
  throws := by
    intro s bs e hs hfit hr
    rcases hfirst : r (bs.drop s.packet.pos) with e' | ⟨a, mid⟩
    · rw [Reader.bind_of_error hfirst] at hr
      cases hr
      obtain ⟨s1, hop1⟩ := h.throws hs hfit hfirst
      exact ⟨s1, bind_error hop1⟩
    · rw [Reader.bind_of_ok hfirst] at hr
      obtain ⟨s1, hop1, hholds1, hrest1⟩ := h.ok hs hfit hfirst
      rw [← hrest1] at hr
      obtain ⟨s2, hop2⟩ := (hf a).throws hholds1 hfit hr
      exact ⟨s2, (bind_ok hop1).trans hop2⟩

theorem Simulates.ite {p : Prop} [Decidable p] {op op' : Op α} {r r' : Reader α}
    (h : Simulates m op r) (h' : Simulates m op' r') :
    Simulates m (if p then op else op') (if p then r else r') := by
  by_cases hp : p
  · rw [if_pos hp, if_pos hp]
    exact h
  · rw [if_neg hp, if_neg hp]
    exact h'

theorem simulates_getByte (m : Bytes) {n : Nat} (hn : n < 2 ^ 16) :
    Simulates m (getByte m n) (Reader.getByte n) where
  ok := by
    intro s bs a rest hs _ hr
    have hpos := hs.pos_le
    rw [Reader.getByte] at hr
    split at hr
    next hle =>
      cases hr
      rw [List.length_drop] at hle
      obtain ⟨s', hop, hholds, hpos'⟩ := hs.getByte (n := n) (by omega)
      exact ⟨s', hop, hholds, by rw [hpos', List.drop_drop]⟩
    next => cases hr
  throws := by
    intro s bs e hs hfit hr
    have hpos := hs.pos_le
    have hsize := hs.size_eq
    rw [Reader.getByte] at hr
    split at hr
    next => cases hr
    next hle =>
      cases hr
      rw [List.length_drop] at hle
      have hu : u32 (s.packet.pos + n) = s.packet.pos + n := Nat.mod_eq_of_lt (by omega)
      refine ⟨{ s with asked := s.asked ++ [(s.packet.pos, n)] }, ?_⟩
      rw [getByte, Gateway.PacketIn.getByte, hu, if_pos (by omega)]

theorem simulates_skip (m : Bytes) {n : Nat} (hn : n < 2 ^ 16) :
    Simulates m (skip n) (Reader.skip n) where
  ok := by
    intro s bs a rest hs _ hr
    have hpos := hs.pos_le
    rw [Reader.skip] at hr
    split at hr
    next hle =>
      cases hr
      rw [List.length_drop] at hle
      have hfits : s.packet.pos + n ≤ bs.length := by omega
      obtain ⟨s', hop, hholds, hpos'⟩ := hs.skip hfits
      exact ⟨s', hop, hholds, by rw [hpos', List.drop_drop]⟩
    next => cases hr
  throws := by
    intro s bs e hs hfit hr
    have hpos := hs.pos_le
    have hsize := hs.size_eq
    have hcap := hs.size
    rw [Reader.skip] at hr
    split at hr
    next => cases hr
    next hle =>
      cases hr
      rw [List.length_drop] at hle
      have hu : u32 (s.packet.pos + n) = s.packet.pos + n := Nat.mod_eq_of_lt (by omega)
      refine ⟨{ s with asked := s.asked ++ [(s.packet.pos, n)] }, ?_⟩
      rw [skip, hu, skipTo, Gateway.Packet.skipTo,
        if_neg (show ¬ _ ≤ s.packet.capacity by omega)]

/-- An integer that fills its variable. -/
theorem simulates_readFixedInteger (m : Bytes) {n old : Nat} (hn : n < 2 ^ 16)
    (hold : old < 256 ^ n) :
    Simulates m (readFixedInteger m n old) (Reader.readFixedInteger n) where
  ok := by
    intro s bs a rest hs hfit hr
    obtain ⟨xs, mid, hget, hpure⟩ := Reader.bind_eq_ok.mp hr
    obtain ⟨s', hop, hholds, hrest⟩ := (simulates_getByte m hn).ok hs hfit hget
    have hlen : xs.length = n := by
      rw [Reader.getByte] at hget
      split at hget
      next hle =>
        cases hget
        exact List.length_take_of_le hle
      next => cases hget
    cases hpure
    refine ⟨s', ?_, hholds, hrest⟩
    rw [readFixedInteger, bind_ok hop]
    show (Except.ok (overwritten old xs), s') = _
    rw [overwritten, hlen, Nat.div_eq_of_lt hold, Nat.zero_mul, Nat.add_zero]
  throws := by
    intro s bs e hs hfit hr
    rcases hget : Reader.getByte n (bs.drop s.packet.pos) with e' | ⟨xs, mid⟩
    · rw [Reader.readFixedInteger, Reader.bind_of_error hget] at hr
      cases hr
      obtain ⟨s', hop⟩ := (simulates_getByte m hn).throws hs hfit hget
      exact ⟨s', bind_error hop⟩
    · rw [Reader.readFixedInteger, Reader.bind_of_ok hget] at hr
      cases hr

theorem simulates_readFixedString (m : Bytes) (v : List UInt8) {n : Nat} (hn : n < 2 ^ 16) :
    Simulates m (readFixedString m v n) (Reader.readFixedString n) where
  ok := by
    intro s bs a rest hs hfit hr
    rw [Reader.readFixedString, Reader.getByte] at hr
    split at hr
    next hle =>
      cases hr
      have hlen := List.length_take_of_le hle
      obtain ⟨s', hop, hholds, hpos'⟩ := reads_readFixedString m v
        ((bs.drop s.packet.pos).take n) s bs hs (List.take_prefix _ _)
      rw [hlen] at hop hpos'
      exact ⟨s', hop, hholds, by rw [hpos', List.drop_drop]⟩
    next => cases hr
  throws := by
    intro s bs e hs hfit hr
    obtain ⟨s', hop⟩ := (simulates_getByte m hn).throws hs hfit hr
    exact ⟨s', bind_error hop⟩

theorem simulates_readRestOfPacketString (m : Bytes) (txt : List UInt8) :
    Simulates m (readRestOfPacketString m txt) Reader.readRestOfPacketString where
  ok := by
    intro s bs a rest hs _ hr
    cases hr
    have hpos := hs.pos_le
    have hsize := hs.size_eq
    have hfits := hs.fits
    have hleft : u32 (s.packet.size + 2 ^ 32 - s.packet.pos) = (bs.drop s.packet.pos).length := by
      rw [List.length_drop, u32]
      omega
    obtain ⟨s', hop, hholds, hpos'⟩ := reads_readFixedString m txt (bs.drop s.packet.pos) s bs hs
      List.prefix_rfl
    refine ⟨s', ?_, hholds, ?_⟩
    · rw [readRestOfPacketString, bind_get, hleft]
      exact hop
    · refine List.drop_eq_nil_of_le ?_
      rw [hpos', List.length_drop]
      omega
  throws := by
    intro s bs e _ _ hr
    cases hr

theorem simulates_freeCount (m : Bytes) : Simulates m packetFreeCount Reader.freeCount where
  ok := by
    intro s bs a rest hs _ hr
    cases hr
    have hpos := hs.pos_le
    have hsize := hs.size_eq
    have hcap := hs.size
    have hfits := hs.fits
    have hleft : u32 (s.packet.capacity + 2 ^ 32 - s.packet.pos) =
        (bs.drop s.packet.pos).length := by
      rw [List.length_drop, u32]
      omega
    exact ⟨s, by rw [packetFreeCount, bind_get, hleft]; rfl, hs, rfl⟩
  throws := by
    intro s bs e _ _ hr
    cases hr

/-- The loop takes the bytes up to the first zero, and throws where there is none. -/
theorem simulates_readNulLoop (m : Bytes) : ∀ (fuel : Nat) (txt : List UInt8) {s : PacketIn}
    {bs : List UInt8}, Holds m s bs → bs.length + 2 ^ 16 ≤ 2 ^ 32 →
    (bs.drop s.packet.pos).length < fuel →
    match Reader.readNulTerminateString (bs.drop s.packet.pos) with
    | .ok (str, rest) => ∃ s', readNulLoop m fuel txt s = (.ok (txt ++ str), s') ∧
        Holds m s' bs ∧ bs.drop s'.packet.pos = rest
    | .error e => ∃ s', readNulLoop m fuel txt s = (.error e, s') := by
  intro fuel
  induction fuel with
  | zero => exact fun _ _ _ _ _ hfuel => absurd hfuel (Nat.not_lt_zero _)
  | succ fuel ih =>
    intro txt s bs hs hfit hfuel
    rcases hleft : bs.drop s.packet.pos with _ | ⟨b, left⟩
    · obtain ⟨s', hop⟩ := (simulates_getByte m (n := 1) (by decide)).throws hs hfit
        (show Reader.getByte 1 (bs.drop s.packet.pos) = .error _ by rw [hleft]; rfl)
      exact ⟨s', bind_error hop⟩
    · obtain ⟨s', hop, hholds, hrest⟩ := (simulates_getByte m (n := 1) (by decide)).ok hs hfit
        (show Reader.getByte 1 (bs.drop s.packet.pos) = .ok ([b], left) by rw [hleft]; rfl)
      have hloop : ∀ {r}, (if [b] = [0] then Pure.pure txt else
          readNulLoop m fuel (txt ++ [b]) : Op _) s' = r →
          readNulLoop m (fuel + 1) txt s = r := fun h => (bind_ok hop).trans h
      by_cases hb : b = 0
      · subst hb
        have hread : Reader.readNulTerminateString (0 :: left) = .ok ([], left) :=
          Reader.readNulTerminateString_append (List.not_mem_nil : (0 : UInt8) ∉ []) left
        rw [hread]
        exact ⟨s', hloop (by rw [if_pos rfl, List.append_nil]; rfl), hholds, hrest⟩
      · have hne : ¬ ([b] : List UInt8) = [0] := fun heq => hb (List.cons.inj heq).1
        have hagain := ih (txt ++ [b]) hholds hfit (by
          rw [hrest]
          rw [hleft, List.length_cons] at hfuel
          omega)
        have hskip : Reader.readNulTerminateString (b :: left) =
            (Reader.readNulTerminateString left).map fun p => (b :: p.1, p.2) := by
          have hmem : (0 ∈ b :: left) ↔ 0 ∈ left := by
            rw [List.mem_cons, or_iff_right (Ne.symm hb)]
          unfold Reader.readNulTerminateString
          by_cases h0 : 0 ∈ left
          · rw [if_pos (hmem.mpr h0), if_pos h0]
            simp [hb, Except.map]
          · rw [if_neg (mt hmem.mp h0), if_neg h0]
            rfl
        rw [hrest] at hagain
        rw [hskip]
        rcases hread : Reader.readNulTerminateString left with e | ⟨str, rest⟩
        · rw [hread] at hagain
          obtain ⟨s2, hop2⟩ := hagain
          exact ⟨s2, hloop (by rw [if_neg hne]; exact hop2)⟩
        · rw [hread] at hagain
          obtain ⟨s2, hop2, hholds2, hrest2⟩ := hagain
          refine ⟨s2, hloop ?_, hholds2, hrest2⟩
          rw [if_neg hne, hop2, List.append_assoc]
          rfl

theorem simulates_readNulTerminateString (m : Bytes) :
    Simulates m (readNulTerminateString m []) Reader.readNulTerminateString where
  ok := by
    intro s bs a rest hs hfit hr
    have hsize := hs.size_eq
    have hloop := simulates_readNulLoop m (s.packet.size + 1) [] hs hfit (by
      rw [List.length_drop]
      omega)
    rw [hr] at hloop
    exact hloop
  throws := by
    intro s bs e hs hfit hr
    have hsize := hs.size_eq
    have hloop := simulates_readNulLoop m (s.packet.size + 1) [] hs hfit (by
      rw [List.length_drop]
      omega)
    rw [hr] at hloop
    exact hloop

/-- `ReadHead` of a packet whose length is in its head. -/
theorem Holds.readHead {m : Bytes} {s : PacketIn} {bs : List UInt8} (h : Holds m s bs)
    (hfit : bs.length + 2 ^ 16 ≤ 2 ^ 32) (hlen : ofLE (bs.take 3) + 4 = bs.length) :
    ∃ head s', PacketIn.readHead m s = (.ok head, s') ∧ Holds m s' bs ∧ s'.packet.pos = 4 := by
  have hsize := h.size_eq
  obtain ⟨s0, hskip, hholds0, hpos0⟩ := h.skipTo (Nat.zero_le _)
  have hread : ∀ {s1 : PacketIn} {n : Nat} {p : Nat}, Holds m s1 bs → n < 2 ^ 16 →
      s1.packet.pos = p → p + n ≤ bs.length →
      ∃ s2, readFixedInteger m n 0 s1 = (.ok (ofLE ((bs.drop p).take n)), s2) ∧ Holds m s2 bs ∧
        s2.packet.pos = p + n := by
    intro s1 n p hs hn hp hle
    subst hp
    have hxs : ((bs.drop s1.packet.pos).take n).length = n :=
      List.length_take_of_le (by rw [List.length_drop]; omega)
    obtain ⟨s2, hop, hholds, hpos⟩ := reads_readFixedInteger m hxs 0 s1 bs hs (List.take_prefix _ _)
    rw [hxs] at hpos
    rw [overwritten, Nat.zero_div, Nat.zero_mul, Nat.add_zero] at hop
    exact ⟨s2, hop, hholds, hpos⟩
  obtain ⟨s1, hpayload, hholds1, hpos1⟩ := hread hholds0 (n := 3) (by decide) hpos0 (by omega)
  obtain ⟨s2, hsequence, hholds2, hpos2⟩ := hread hholds1 (n := 1) (by decide) hpos1 (by omega)
  rw [List.drop_zero] at hpayload
  have hsize2 := hholds2.size_eq
  have hwhole : u32 (ofLE (bs.take 3) + 3 + 1) = s2.packet.size := by
    rw [hsize2, u32, Nat.mod_eq_of_lt (by omega)]
    omega
  refine ⟨(ofLE (bs.take 3), ofLE ((bs.drop 3).take 1)), s2, ?_, hholds2, hpos2⟩
  rw [PacketIn.readHead, bind_ok hskip, bind_ok hpayload, bind_ok hsequence, bind_get]
  simp only [hwhole, ne_eq, not_true_eq_false, if_false]
  rfl

end PacketIn

end Jengine.Dbo.Internal
