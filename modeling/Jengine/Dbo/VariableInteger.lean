import Jengine.Dbo.Packet

/-!
# Length-encoded integers and strings

`WriteVariableInteger` and `ReadVariableInteger`, `WriteLengthEncodedString` and
`ReadLengthEncodedString` (`base/dbo_bk/internal/packet.h`).  There are four encodings.  The
three-byte form is read into a `uint32_t` that is not initialised, so its fourth byte is
whatever the stack held: the value comes back iff that byte happens to be zero.
-/

namespace Jengine.Dbo.Internal

open Jengine.Lib Jengine.Memory RefMemoryChunk

/-- The bytes an integer is encoded in. -/
def variableInteger (v : Nat) : List UInt8 :=
  if v < 251 then toLE 1 v
  else if v < 65536 then 0xfc :: toLE 2 v
  else if v < 16777216 then 0xfd :: toLE 3 v
  else 0xfe :: toLE 8 v

/-- The bytes a string is encoded in. -/
def lengthEncoded (str : List UInt8) : List UInt8 := variableInteger str.length ++ str

/-! ### Writing -/

namespace PacketOut

open Gateway.PacketOut (Op Out Rep putByte)

/-- A writer puts the bytes `xs` at the cursor, if there is room for them or for one more growth
    step at each of them. -/
def Puts (op : Op Unit) (xs : List UInt8) : Prop :=
  ∀ o ws, Rep o ws → 0 < o.pool.chunksize →
    (ws.length + xs.length ≤ o.packet.capacity ∨
      ws.length + 2 * xs.length + 10 + o.pool.chunksize ≤ 2 ^ 32) →
    ∃ o', op o = .ok ((), o') ∧ Rep o' (ws ++ xs) ∧
      o'.packet.size = max o.packet.size (ws.length + xs.length) ∧
      o'.pool.chunksize = o.pool.chunksize ∧ o.packet.capacity ≤ o'.packet.capacity

theorem puts_putByte (src : List UInt8) : Puts (putByte src) src := by
  intro o ws h hcs hroom
  obtain ⟨o', hop, hrep, -, hsize, hchunk, hcap⟩ := Gateway.PacketOut.putByte_spec h hcs hroom
  exact ⟨o', hop, hrep, hsize, hchunk, hcap⟩

theorem Puts.seq {op op' : Op Unit} {xs ys : List UInt8} (h : Puts op xs) (h' : Puts op' ys) :
    Puts (do op; op') (xs ++ ys) := by
  intro o ws hrep hcs hroom
  rw [List.length_append] at hroom
  obtain ⟨o1, hop1, hrep1, hsize1, hcs1, hcap1⟩ := h o ws hrep hcs (by omega)
  have hlen : (ws ++ xs).length = ws.length + xs.length := List.length_append
  obtain ⟨o2, hop2, hrep2, hsize2, hcs2, hcap2⟩ := h' o1 (ws ++ xs) hrep1 (by omega) (by omega)
  refine ⟨o2, ?_, by rwa [← List.append_assoc], ?_, hcs2.trans hcs1, Nat.le_trans hcap1 hcap2⟩
  · show (op o >>= fun r => op' r.2) = _
    rw [hop1]
    exact hop2
  · rw [hsize2, hsize1, hlen, List.length_append]
    omega

theorem puts_writeVariableInteger (v : UInt64) :
    Puts (writeVariableInteger v) (variableInteger v.toNat) := by
  have h251 : v < 251 ↔ v.toNat < 251 := UInt64.lt_iff_toNat_lt
  have h65536 : v < 65536 ↔ v.toNat < 65536 := UInt64.lt_iff_toNat_lt
  have h16777216 : v < 16777216 ↔ v.toNat < 16777216 := UInt64.lt_iff_toNat_lt
  have hge251 : 251 ≤ v ↔ 251 ≤ v.toNat := UInt64.le_iff_toNat_le
  have hge65536 : 65536 ≤ v ↔ 65536 ≤ v.toNat := UInt64.le_iff_toNat_le
  unfold writeVariableInteger variableInteger
  simp only [h251, h65536, h16777216, hge251, hge65536]
  by_cases h1 : v.toNat < 251
  · rw [if_pos h1, if_pos h1]
    exact puts_putByte _
  · by_cases h2 : v.toNat < 65536
    · rw [if_neg h1, if_neg h1, if_pos ⟨by omega, h2⟩, if_pos h2]
      exact (puts_putByte [0xfc]).seq (puts_putByte _)
    · by_cases h3 : v.toNat < 16777216
      · rw [if_neg h1, if_neg h1, if_neg (fun h => h2 h.2), if_neg h2, if_pos ⟨by omega, h3⟩,
          if_pos h3]
        exact (puts_putByte [0xfd]).seq (puts_putByte _)
      · rw [if_neg h1, if_neg h1, if_neg (fun h => h2 h.2), if_neg h2, if_neg (fun h => h3 h.2),
          if_neg h3]
        exact (puts_putByte [0xfe]).seq (puts_putByte _)

theorem puts_writeLengthEncodedString {str : List UInt8} (h : str.length < 2 ^ 32) :
    Puts (writeLengthEncodedString str) (lengthEncoded str) := by
  have hlen : (UInt64.ofNat str.length).toNat = str.length :=
    UInt64.toNat_ofNat_of_lt' (Nat.lt_trans h (by decide))
  have hall : str.take (Gateway.u32 str.length) = str := by
    rw [Gateway.u32, Nat.mod_eq_of_lt h, List.take_length]
  have hhead := puts_writeVariableInteger (UInt64.ofNat str.length)
  rw [hlen] at hhead
  have hseq := hhead.seq (puts_putByte (str.take (Gateway.u32 str.length)))
  rw [hall] at hseq
  unfold writeLengthEncodedString
  rw [hall]
  exact hseq

end PacketOut

/-! ### Reading -/

/-- What is read where `v` was written: in the three-byte form the fourth byte of the variable is
    added. -/
def Locals.decoded (l : Locals) (v : Nat) : Nat :=
  if 65536 ≤ v ∧ v < 16777216 then v + l.follow32.toNat / 2 ^ 24 * 2 ^ 24 else v

/-- The fourth byte is zero where it is not overwritten. -/
def Locals.Clean (l : Locals) (v : Nat) : Prop :=
  65536 ≤ v → v < 16777216 → l.follow32.toNat < 2 ^ 24

theorem Locals.decoded_eq_iff (l : Locals) (v : Nat) : l.decoded v = v ↔ l.Clean v := by
  unfold decoded Clean
  split <;> omega

theorem Locals.decoded_lt (l : Locals) {v : Nat} (h : v < 2 ^ 32) : l.decoded v < 2 ^ 32 := by
  have hfollow : l.follow32.toNat < 2 ^ 32 := l.follow32.toNat_lt
  unfold decoded
  split <;> omega

namespace PacketIn

/-- The first byte has been read. -/
theorem reads_first (m : Bytes) {α : Type} {f : Nat → Op α} (b : UInt8) {ys : List UInt8} {a : α}
    (h : Reads m (f b.toNat) ys a) : Reads m (readFixedInteger m 1 0 >>= f) (b :: ys) a := by
  have hread := reads_readFixedInteger m (show [b].length = 1 from rfl) 0
  rw [show overwritten 0 [b] = b.toNat by simp [overwritten, ofLE]] at hread
  exact hread.bind h

/-- The `n` bytes of `v` have been read into a variable of at least so many bytes. -/
theorem reads_follow (m : Bytes) {n old v : Nat} (w : Nat) (h : v < 256 ^ n) :
    Reads m (do let follow ← readFixedInteger m n old; return follow % 2 ^ w) (toLE n v)
      ((v + old / 256 ^ n * 256 ^ n) % 2 ^ w) := by
  have hread := (reads_readFixedInteger m (length_toLE n v) old).map (f := fun k => k % 2 ^ w)
  rwa [overwritten, ofLE_toLE_of_lt h, length_toLE] at hread

theorem reads_readVariableInteger (m : Bytes) (w : Nat) (l : Locals) {v : Nat} (h : v < 2 ^ 64) :
    Reads m (readVariableInteger m w l) (variableInteger v) (l.decoded v % 2 ^ w) := by
  unfold readVariableInteger variableInteger Locals.decoded
  by_cases h1 : v < 251
  · have hbyte : (UInt8.ofNat v).toNat = v := UInt8.toNat_ofNat_of_lt' (Nat.lt_trans h1 (by decide))
    rw [if_pos h1, if_neg (by omega)]
    refine reads_first m _ ?_
    rw [hbyte, if_pos h1]
    exact Reads.pure m _
  · by_cases h2 : v < 65536
    · have hzero : l.follow16.toNat / 256 ^ 2 = 0 := Nat.div_eq_of_lt l.follow16.toNat_lt
      have hread : Reads m _ _ ((v + l.follow16.toNat / 256 ^ 2 * 256 ^ 2) % 2 ^ w) :=
        reads_follow m w h2
      rw [hzero, Nat.zero_mul, Nat.add_zero] at hread
      rw [if_neg h1, if_pos h2, if_neg (by omega)]
      exact reads_first m 0xfc hread
    · by_cases h3 : v < 16777216
      · rw [if_neg h1, if_neg h2, if_pos h3, if_pos ⟨by omega, h3⟩]
        exact reads_first m 0xfd (reads_follow m w h3)
      · have hzero : l.follow64.toNat / 256 ^ 8 = 0 := Nat.div_eq_of_lt l.follow64.toNat_lt
        have hread : Reads m _ _ ((v + l.follow64.toNat / 256 ^ 8 * 256 ^ 8) % 2 ^ w) :=
          reads_follow m w h
        rw [hzero, Nat.zero_mul, Nat.add_zero] at hread
        rw [if_neg h1, if_neg h2, if_neg h3, if_neg (fun hmid => h3 hmid.2)]
        exact reads_first m 0xfe hread

theorem reads_readLengthEncodedString (m : Bytes) {l : Locals} (txt : List UInt8)
    {str : List UInt8} (hclean : l.Clean str.length) (h : str.length < 2 ^ 32) :
    Reads m (readLengthEncodedString m l txt) (lengthEncoded str) str := by
  have hlen := reads_readVariableInteger m 32 l (v := str.length) (Nat.lt_trans h (by decide))
  rw [(l.decoded_eq_iff _).mpr hclean, Nat.mod_eq_of_lt h] at hlen
  exact hlen.bind (reads_readFixedString m txt str)

/-- Where the length is not, the string that is read is longer, or none. -/
theorem readLengthEncodedString_ne {m : Bytes} {l : Locals} {txt str : List UInt8}
    {s s' : PacketIn} {bs : List UInt8} (hclean : ¬ l.Clean str.length) (h : str.length < 2 ^ 32)
    (hholds : Holds m s bs) (hstr : variableInteger str.length <+: bs.drop s.packet.pos) :
    readLengthEncodedString m l txt s ≠ (.ok str, s') := by
  intro hread
  obtain ⟨s1, hlen, -, -⟩ := reads_readVariableInteger m 32 l (Nat.lt_trans h (by decide)) s bs
    hholds hstr
  rw [Nat.mod_eq_of_lt (l.decoded_lt h)] at hlen
  have hlong : str.length < l.decoded str.length := by
    have hne := mt (l.decoded_eq_iff _).mp hclean
    unfold Locals.decoded at hne ⊢
    split at hne
    · rw [if_pos (by assumption)]
      omega
    · exact absurd rfl hne
  rw [readLengthEncodedString, bind_ok hlen] at hread
  rcases hget : getByte m (l.decoded str.length) s1 with ⟨e | got, s2⟩
  · rw [readFixedString, bind_error hget] at hread
    cases hread
  · rw [readFixedString, bind_ok hget] at hread
    have heq : got ++ (resize txt (l.decoded str.length)).drop got.length = str :=
      Except.ok.inj (congrArg Prod.fst hread)
    have hcount := congrArg List.length heq
    rw [List.length_append, List.length_drop, resize, List.length_append, List.length_take,
      List.length_replicate] at hcount
    omega

end PacketIn

/-! ### What is read is what was written -/

/-- `ReadVariableInteger` into 64 bits gives back what `WriteVariableInteger` wrote. -/
def IntegerBack (l : Locals) (v : UInt64) : Prop :=
  PacketOut.Puts (PacketOut.writeVariableInteger v) (variableInteger v.toNat) ∧
    ∀ m, PacketIn.Reads m (PacketIn.readVariableInteger m 64 l) (variableInteger v.toNat) v.toNat

/-- `ReadLengthEncodedString` gives back what `WriteLengthEncodedString` wrote. -/
def StringBack (l : Locals) (str : List UInt8) : Prop :=
  PacketOut.Puts (PacketOut.writeLengthEncodedString str) (lengthEncoded str) ∧
    ∀ m txt, PacketIn.Reads m (PacketIn.readLengthEncodedString m l txt) (lengthEncoded str) str

theorem length_variableInteger (v : Nat) :
    0 < (variableInteger v).length ∧ (variableInteger v).length ≤ 9 := by
  unfold variableInteger
  split
  · simp
  · split
    · simp
    · split <;> simp

theorem integerBack_iff (l : Locals) (v : UInt64) : IntegerBack l v ↔ l.Clean v.toNat := by
  have hv : v.toNat < 2 ^ 64 := v.toNat_lt
  constructor
  · rintro ⟨-, hback⟩
    obtain ⟨hpos, hle⟩ := length_variableInteger v.toNat
    obtain ⟨m, s, hholds, hstart⟩ := PacketIn.exists_holds (List.length_pos_iff.mp hpos)
      (Nat.lt_of_le_of_lt hle (by decide))
    have hbytes : variableInteger v.toNat <+: (variableInteger v.toNat).drop s.packet.pos := by
      rw [hstart]
      exact List.prefix_rfl
    obtain ⟨s1, hread, -⟩ := PacketIn.reads_readVariableInteger m 64 l hv s _ hholds hbytes
    obtain ⟨s2, hread', -⟩ := hback m s _ hholds hbytes
    rw [hread'] at hread
    have heq : v.toNat = l.decoded v.toNat % 2 ^ 64 := Except.ok.inj (congrArg Prod.fst hread)
    refine (l.decoded_eq_iff _).mp ?_
    have hfollow : l.follow32.toNat < 2 ^ 32 := l.follow32.toNat_lt
    unfold Locals.decoded at heq ⊢
    split at heq <;> split <;> omega
  · intro hclean
    refine ⟨PacketOut.puts_writeVariableInteger v, fun m => ?_⟩
    have hread := PacketIn.reads_readVariableInteger m 64 l hv
    rwa [(l.decoded_eq_iff _).mpr hclean, Nat.mod_eq_of_lt hv] at hread

theorem stringBack_iff (l : Locals) {str : List UInt8} (h : str.length < 2 ^ 32) :
    StringBack l str ↔ l.Clean str.length := by
  constructor
  · rintro ⟨-, hback⟩
    by_contra hclean
    have hshort : str.length < 16777216 := by
      by_contra hlong
      exact hclean fun _ hlt => absurd hlt hlong
    obtain ⟨hpos, hle⟩ := length_variableInteger str.length
    have hlen : (lengthEncoded str).length = (variableInteger str.length).length + str.length :=
      List.length_append
    have hne : lengthEncoded str ≠ [] := List.length_pos_iff.mp (by omega)
    obtain ⟨m, s, hholds, hstart⟩ := PacketIn.exists_holds hne (by omega)
    have hbytes : lengthEncoded str <+: (lengthEncoded str).drop s.packet.pos := by
      rw [hstart]
      exact List.prefix_rfl
    obtain ⟨s1, hread, -⟩ := hback m [] s _ hholds hbytes
    refine PacketIn.readLengthEncodedString_ne hclean h hholds ?_ hread
    rw [hstart, List.drop_zero]
    exact List.prefix_append _ _
  · exact fun hclean => ⟨PacketOut.puts_writeLengthEncodedString h, fun m txt =>
      PacketIn.reads_readLengthEncodedString m txt hclean h⟩

/-- An integer or a string comes back iff its three-byte form, if it has one, is read into a
    variable whose fourth byte is zero. -/
theorem readBack_iff_clean (l : Locals) (v : UInt64) (str : List UInt8)
    (h : str.length < 2 ^ 32) :
    (IntegerBack l v ↔ l.Clean v.toNat) ∧ (StringBack l str ↔ l.Clean str.length) :=
  ⟨integerBack_iff l v, stringBack_iff l h⟩

/-- With a clean variable, with a short string, and a string of 65536 bytes with a one in the
    fourth byte. -/
theorem readBack_iff_clean_small :
    (IntegerBack ⟨0, 0, 0⟩ 65536 ∧ StringBack ⟨0, 0, 0⟩ (List.replicate 65536 97)) ∧
      StringBack ⟨0, 16777216, 0⟩ [97, 98] ∧
      ¬ StringBack ⟨0, 16777216, 0⟩ (List.replicate 65536 97) := by
  have hlong : (List.replicate 65536 (97 : UInt8)).length = 65536 := List.length_replicate
  have hshort : (List.replicate 65536 (97 : UInt8)).length < 2 ^ 32 := by
    rw [hlong]
    decide
  obtain ⟨hinteger, hstring⟩ := readBack_iff_clean ⟨0, 0, 0⟩ 65536 _ hshort
  obtain ⟨-, hdirty⟩ := readBack_iff_clean ⟨0, 16777216, 0⟩ 65536 _ hshort
  rw [hlong] at hstring hdirty
  refine ⟨⟨hinteger.mpr fun _ _ => by decide, hstring.mpr fun _ _ => by decide⟩,
    (readBack_iff_clean _ 65536 [97, 98] (by decide)).2.mpr fun hle => ?_, fun hback => ?_⟩
  · exact absurd hle (by decide)
  · exact absurd (hdirty.mp hback (by decide) (by decide)) (by decide)

/-- The stack holds a one in the fourth byte. -/
theorem not_readBack_dirty : ¬ ∀ (l : Locals) (v : UInt64), IntegerBack l v := by
  intro hall
  have hclean := (integerBack_iff ⟨0, 16777216, 0⟩ 65536).mp (hall _ _)
  exact absurd (hclean (by decide) (by decide)) (by decide)

end Jengine.Dbo.Internal
