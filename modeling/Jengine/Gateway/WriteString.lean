import Jengine.Cluster.Message
import Jengine.Gateway.PacketLength
import Mathlib.Data.List.TakeWhile

/-!
# Strings and their lengths

A string is sent behind its length in a `uint16_t` (`base/gateway/packet_base.h`).
`WriteString(const char*)` cuts the string to that length as well,
`WriteString(const std::string&)` does not, and neither does `<<` on a `vector` or a `list`
cut the container.  The receiver believes the length.

What is written is compared and read as a byte string.  `Outputs` says that the writers
append these bytes to a packet, and `Reader` is what the readers do on the bytes of a
packet.
-/

namespace Jengine.Gateway

open Jengine.Lib Jengine.Memory RefMemoryChunk Jengine.Cluster Jengine.Cluster.Reader

namespace PacketOut

/-- `op` appends the bytes `xs` to a packet with room for them and for the growth that a
    writer of so many bytes makes. -/
def Outputs (op : Op Unit) (xs : List UInt8) : Prop :=
  ∀ o ws, Rep o ws → 0 < o.pool.chunksize →
    ws.length + 2 * xs.length + 65545 + o.pool.chunksize ≤ 2 ^ 32 →
    ∃ o', op o = .ok ((), o') ∧ Rep o' (ws ++ xs) ∧ o'.pool.chunksize = o.pool.chunksize

theorem Appends.outputs {op : Op Unit} {xs : List UInt8} (h : Appends op xs) : Outputs op xs := by
  intro o ws hrep hcs hroom
  obtain ⟨o', hop, hrep', -, -, hchunk, -⟩ := h o ws hrep hcs (Or.inr (by omega))
  exact ⟨o', hop, hrep', hchunk⟩

theorem outputs_putByte (src : List UInt8) : Outputs (putByte src) src := by
  intro o ws hrep hcs hroom
  have hlong : ws.length + 2 * src.length + 10 + o.pool.chunksize ≤ 2 ^ 32 := by omega
  obtain ⟨o', hop, hrep', -, -, hchunk, -⟩ := putByte_spec hrep hcs (Or.inr hlong)
  exact ⟨o', hop, hrep', hchunk⟩

theorem Outputs.seq {op op' : Op Unit} {xs ys : List UInt8} (h : Outputs op xs)
    (h' : Outputs op' ys) : Outputs (do op; op') (xs ++ ys) := by
  intro o ws hrep hcs hroom
  rw [List.length_append] at hroom
  obtain ⟨o1, hop1, hrep1, hcs1⟩ := h o ws hrep hcs (by omega)
  have hlen : (ws ++ xs).length = ws.length + xs.length := List.length_append
  obtain ⟨o2, hop2, hrep2, hcs2⟩ := h' o1 (ws ++ xs) hrep1 (by omega) (by omega)
  refine ⟨o2, ?_, by rwa [← List.append_assoc], hcs2.trans hcs1⟩
  show (op o >>= fun r => op' r.2) = _
  rw [hop1]
  exact hop2

theorem outputs_writeEach {α : Type} {write : α → Op Unit} {enc : α → List UInt8}
    (h : ∀ x, Outputs (write x) (enc x)) (xs : List α) :
    Outputs (writeEach write xs) (xs.flatMap enc) := by
  induction xs with
  | nil => exact Appends.pure.outputs
  | cons x xs ih => exact (h x).seq ih

/-- A length and what it counts. -/
theorem outputs_block {α : Type} (v : List α) {op : Op Unit} {xs : List UInt8}
    (h : Outputs op xs) :
    Outputs (do writeUShort (UInt16.ofNat v.length); op)
      (toLE 2 (UInt16.ofNat v.length).toNat ++ xs) :=
  (appends_writeUShort _).outputs.seq h

end PacketOut

/-! ### What is written -/

/-- The string that a `const char*` to the bytes of `str` is. -/
def cString (str : List UInt8) : List UInt8 := str.takeWhile (· ≠ 0)

/-- What `WriteString(const char*)` appends. -/
def encodeCString (str : List UInt8) : List UInt8 :=
  toLE 2 (UInt16.ofNat str.length).toNat ++ str.take (UInt16.ofNat str.length).toNat

/-- What `<<` appends for a `vector`, an `array` or a `list` of strings. -/
def encodeStrings (strs : List (List UInt8)) : List UInt8 :=
  toLE 2 (UInt16.ofNat strs.length).toNat ++ strs.flatMap encodeString

/-- The writers append these bytes. -/
theorem outputs_strings (str : List UInt8) (strs : List (List UInt8)) :
    PacketOut.Outputs (PacketOut.writeCString str) (encodeCString str) ∧
      PacketOut.Outputs (PacketOut.writeString str) (encodeString str) ∧
      PacketOut.Outputs (PacketOut.write (.list .string) strs) (encodeStrings strs) := by
  refine ⟨?_, ?_, ?_⟩
  · exact PacketOut.outputs_block str (PacketOut.outputs_putByte _)
  · exact PacketOut.outputs_block str (PacketOut.outputs_putByte _)
  · apply PacketOut.outputs_block strs
    exact PacketOut.outputs_writeEach (fun s => PacketOut.outputs_block s (PacketOut.outputs_putByte _))
      strs

/-! ### What is read -/

/-- One reader call for each of `n` elements. -/
def readEach {α : Type} (r : Reader α) : Nat → Reader (List α)
  | 0 => pure []
  | n + 1 => do
      let x ← r
      let xs ← readEach r n
      return x :: xs

/-- A count and that many strings. -/
def readStrings : Reader (List (List UInt8)) := do
  let n ← readUShort
  readEach readString n.toNat

theorem simulates_readEach {m : Bytes} {α : Type} {op : PacketIn.Op α} {r : Reader α}
    (h : Simulates m op r) (n : Nat) : Simulates m (PacketIn.readEach op n) (readEach r n) := by
  induction n with
  | zero => exact Simulates.pure m []
  | succ n ih => exact h.bind fun x => ih.bind fun xs => Simulates.pure m (x :: xs)

/-- Reading the chunks of a packet is reading its bytes. -/
theorem simulates_readStrings (m : Bytes) :
    Simulates m (PacketIn.read m (.list .string)) readStrings := by
  obtain ⟨-, hshort, -, hstring⟩ := simulates_readers m
  exact hshort.bind fun n => simulates_readEach hstring n.toNat

/-- A reader of `xs` stands at the first byte behind it. -/
def Consumes {α : Type} (r : Reader α) (xs : List UInt8) : Prop :=
  ∀ rest, ∃ a, r (xs ++ rest) = some (a, rest)

/-- Both overloads append the same bytes, and what they append is read to its end. -/
structure StringRight (str : List UInt8) : Prop where
  same : encodeCString (cString str) = encodeString str
  cstring : Consumes readString (encodeCString (cString str))
  string : Consumes readString (encodeString str)

/-- The same for a container and the strings in it. -/
structure StringsRight (strs : List (List UInt8)) : Prop where
  each : ∀ s ∈ strs, StringRight s
  all : Consumes readStrings (encodeStrings strs)

/-- The length that `PutByte` gets, as a `uint32_t`, fits into a `uint16_t`. -/
def Short (str : List UInt8) : Prop := str.length % 2 ^ 32 < 2 ^ 16

/-! ### One string -/

theorem cString_eq {str : List UInt8} (h : 0 ∉ str) : cString str = str := by
  apply List.takeWhile_eq_self_iff.mpr
  intro b hb
  have hne : b ≠ 0 := fun heq => h (heq ▸ hb)
  exact decide_eq_true hne

/-- A string is read behind any length that is not more than what is there. -/
theorem readString_block (n : UInt16) {body : List UInt8} (h : n.toNat ≤ body.length) :
    readString (toLE 2 n.toNat ++ body) = some (body.take n.toNat, body.drop n.toNat) := by
  show ((readUShort (toLE 2 n.toNat ++ body)).bind fun p => getByte p.1.toNat p.2) = _
  rw [readUShort_toLE, Option.bind_some, getByte, if_pos h]

/-- What is read for a block, and what is left of it. -/
theorem readString_append (n : UInt16) {body : List UInt8} (h : n.toNat ≤ body.length)
    (rest : List UInt8) :
    readString ((toLE 2 n.toNat ++ body) ++ rest) =
      some (body.take n.toNat, body.drop n.toNat ++ rest) := by
  rw [List.append_assoc, readString_block n (by rw [List.length_append]; omega),
    List.take_append_of_le_length h, List.drop_append_of_le_length h]

theorem consumes_block_iff (n : UInt16) {body : List UInt8} (h : n.toNat ≤ body.length) :
    Consumes readString (toLE 2 n.toNat ++ body) ↔ body.length = n.toNat := by
  constructor
  · intro hcons
    obtain ⟨a, hread⟩ := hcons []
    rw [readString_append n h, Option.some.injEq, Prod.mk.injEq, List.append_nil] at hread
    have hlen := congrArg List.length hread.2
    rw [List.length_drop, List.length_nil] at hlen
    omega
  · intro heq rest
    refine ⟨body, ?_⟩
    rw [readString_append n h, List.take_of_length_le (Nat.le_of_eq heq),
      List.drop_of_length_le (Nat.le_of_eq heq), List.nil_append]

theorem toNat_length (str : List UInt8) :
    (UInt16.ofNat str.length).toNat = str.length % 2 ^ 16 := UInt16.toNat_ofNat'

/-- The overload for `const char*` writes as many bytes as it says. -/
theorem consumes_encodeCString (str : List UInt8) : Consumes readString (encodeCString str) := by
  have hle : (UInt16.ofNat str.length).toNat ≤ str.length := by
    rw [toNat_length]
    exact Nat.mod_le _ _
  have hlen := List.length_take_of_le hle
  exact (consumes_block_iff _ (Nat.le_of_eq hlen.symm)).mpr hlen

/-- The other one does so for short strings. -/
theorem consumes_encodeString_iff (str : List UInt8) :
    Consumes readString (encodeString str) ↔ Short str := by
  have hlen : (str.take (u32 str.length)).length = str.length % 2 ^ 32 :=
    List.length_take_of_le (Nat.mod_le _ _)
  have hle : (UInt16.ofNat str.length).toNat ≤ (str.take (u32 str.length)).length := by
    rw [hlen, toNat_length]
    omega
  rw [encodeString, consumes_block_iff _ hle, hlen, toNat_length, Short]
  omega

theorem stringRight_iff {str : List UInt8} (h : 0 ∉ str) : StringRight str ↔ Short str := by
  constructor
  · exact fun hright => (consumes_encodeString_iff str).mp hright.string
  · intro hshort
    have hlen : (UInt16.ofNat str.length).toNat = u32 str.length := by
      rw [toNat_length, u32]
      rw [Short] at hshort
      omega
    constructor
    · rw [cString_eq h, encodeCString, encodeString, hlen]
    · exact consumes_encodeCString _
    · exact (consumes_encodeString_iff str).mpr hshort

/-! ### Containers -/

/-- The reader takes the first `n` strings and leaves the others. -/
theorem readEach_encodeString : ∀ (strs : List (List UInt8)) (n : Nat) (rest : List UInt8),
    (∀ s ∈ strs, Consumes readString (encodeString s)) → n ≤ strs.length →
    ∃ as, readEach readString n (strs.flatMap encodeString ++ rest) =
      some (as, (strs.drop n).flatMap encodeString ++ rest) := by
  intro strs n
  induction n generalizing strs with
  | zero => exact fun rest _ _ => ⟨[], rfl⟩
  | succ n ih =>
      intro rest hcons hn
      obtain ⟨s, strs, rfl⟩ := List.exists_cons_of_length_pos (Nat.lt_of_lt_of_le n.succ_pos hn)
      obtain ⟨a, ha⟩ := hcons s List.mem_cons_self (strs.flatMap encodeString ++ rest)
      obtain ⟨as, has⟩ := ih strs rest (fun t ht => hcons t (List.mem_cons_of_mem s ht))
        (Nat.le_of_succ_le_succ hn)
      refine ⟨a :: as, ?_⟩
      rw [List.flatMap_cons, List.append_assoc, List.drop_succ_cons]
      show ((readString (encodeString s ++ (strs.flatMap encodeString ++ rest))).bind fun p =>
        (readEach readString n p.2).bind fun q => some (p.1 :: q.1, q.2)) = _
      rw [ha, Option.bind_some, has, Option.bind_some]

theorem consumes_encodeStrings_iff {strs : List (List UInt8)} (hshort : ∀ s ∈ strs, Short s) :
    Consumes readStrings (encodeStrings strs) ↔ strs.length < 2 ^ 16 := by
  have hmod : (UInt16.ofNat strs.length).toNat = strs.length % 2 ^ 16 := UInt16.toNat_ofNat'
  have hread : ∀ rest, ∃ as, readStrings (encodeStrings strs ++ rest) =
      some (as, (strs.drop (strs.length % 2 ^ 16)).flatMap encodeString ++ rest) := by
    intro rest
    obtain ⟨as, has⟩ := readEach_encodeString strs (strs.length % 2 ^ 16) rest
      (fun s hs => (consumes_encodeString_iff s).mpr (hshort s hs)) (Nat.mod_le _ _)
    refine ⟨as, ?_⟩
    rw [encodeStrings, List.append_assoc]
    show ((readUShort (toLE 2 (UInt16.ofNat strs.length).toNat ++ _)).bind fun p =>
      readEach readString p.1.toNat p.2) = _
    rw [readUShort_toLE, Option.bind_some, hmod, has]
  constructor
  · intro hcons
    by_contra hlong
    obtain ⟨a, ha⟩ := hcons []
    obtain ⟨as, has⟩ := hread []
    rw [has, Option.some.injEq, Prod.mk.injEq, List.append_nil] at ha
    -- The strings behind the count are still there, and each has two bytes for its length.
    obtain ⟨s, hs⟩ := List.exists_mem_of_length_pos
      (show 0 < (strs.drop (strs.length % 2 ^ 16)).length by rw [List.length_drop]; omega)
    have hnil := List.flatMap_eq_nil_iff.mp ha.2 s hs
    have hlen := congrArg List.length hnil
    rw [encodeString, List.length_append, length_toLE, List.length_nil] at hlen
    omega
  · intro hlt rest
    obtain ⟨as, has⟩ := hread rest
    rw [Nat.mod_eq_of_lt hlt, List.drop_length] at has
    exact ⟨as, has⟩

theorem stringsRight_iff {strs : List (List UInt8)} (h : ∀ s ∈ strs, 0 ∉ s) :
    StringsRight strs ↔ (∀ s ∈ strs, Short s) ∧ strs.length < 2 ^ 16 := by
  constructor
  · intro hright
    have hshort : ∀ s ∈ strs, Short s := fun s hs => (stringRight_iff (h s hs)).mp (hright.each s hs)
    exact ⟨hshort, (consumes_encodeStrings_iff hshort).mp hright.all⟩
  · rintro ⟨hshort, hlt⟩
    exact ⟨fun s hs => (stringRight_iff (h s hs)).mpr (hshort s hs),
      (consumes_encodeStrings_iff hshort).mpr hlt⟩

/-- **Exactly when strings and containers of strings keep the packet in step.** -/
theorem writeString_iff (str : List UInt8) (strs : List (List UInt8)) (hstr : 0 ∉ str)
    (hstrs : ∀ s ∈ strs, 0 ∉ s) :
    (StringRight str ↔ Short str) ∧
    (StringsRight strs ↔ (∀ s ∈ strs, Short s) ∧ strs.length < 2 ^ 16) ∧
    PacketOut.Outputs (PacketOut.writeCString (cString str)) (encodeCString (cString str)) ∧
    PacketOut.Outputs (PacketOut.writeString str) (encodeString str) ∧
    PacketOut.Outputs (PacketOut.write (.list .string) strs) (encodeStrings strs) :=
  ⟨stringRight_iff hstr, stringsRight_iff hstrs, (outputs_strings (cString str) strs).1,
    (outputs_strings str strs).2⟩

theorem writeString_iff_short : StringRight [97] ↔ Short [97] :=
  (writeString_iff [97] [[97], []] (by decide) (by decide)).1

/-- A string of `2 ^ 16` bytes: the length says none. -/
theorem longString_not_right : ¬ StringRight (List.replicate 65536 97) := by
  have hnul : 0 ∉ List.replicate 65536 (97 : UInt8) := fun h =>
    absurd (List.eq_of_mem_replicate h) (by decide)
  rw [stringRight_iff hnul, Short, List.length_replicate]
  decide

end Jengine.Gateway
