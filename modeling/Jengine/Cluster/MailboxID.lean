import Mathlib.Algebra.Ring.Nat

/-!
# Mailbox ids

`MailboxID` (`base/cluster/mailboxid.h`): the id of a node and the number of a
mailbox on it.  On the wire it is one `uint32_t`, the node id in the high byte.
`ValueID` does not cut the number to the 24 bits that are left for it
(`~0 >> 8` is all ones), `Parse` reads 24 bits.
-/

namespace Jengine.Cluster

/-- A byte string, `std::string`. -/
abbrev Name := List UInt8

/-- `MailboxID`; `pid` is the bit pattern of the `int32_t`. -/
structure MailboxID where
  nodeid : UInt8
  pid : UInt32
deriving DecidableEq, Repr

namespace MailboxID

/-- `NullID`. -/
def nullID : MailboxID := ⟨0, 0⟩

/-- `operator bool`. -/
def valid (m : MailboxID) : Bool := m.nodeid != 0 && m.pid != 0

/-- `ValueID`. -/
def valueID (m : MailboxID) : UInt32 := m.nodeid.toUInt32 <<< 24 ||| m.pid

/-- `Parse`. -/
def parse (value : UInt32) : MailboxID := ⟨(value >>> 24).toUInt8, (value <<< 8) >>> 8⟩

theorem toNat_valueID {m : MailboxID} (h : m.pid.toNat < 2 ^ 24) :
    m.valueID.toNat = m.nodeid.toNat * 2 ^ 24 + m.pid.toNat := by
  have hn := m.nodeid.toNat_lt
  have h24 : (24 : UInt32).toNat % 32 = 24 := rfl
  rw [valueID, UInt32.toNat_or, UInt32.toNat_shiftLeft, UInt8.toNat_toUInt32, h24,
    Nat.shiftLeft_eq, Nat.mod_eq_of_lt (by omega), ← Nat.shiftLeft_eq,
    ← Nat.shiftLeft_add_eq_or_of_lt h, Nat.shiftLeft_eq]

/-- The wire format keeps ids whose number has 24 bits. -/
theorem parse_valueID {m : MailboxID} (h : m.pid.toNat < 2 ^ 24) : parse m.valueID = m := by
  have hn := m.nodeid.toNat_lt
  have hv := toNat_valueID h
  obtain ⟨n, p⟩ := m
  simp only at h hn hv
  have h24 : (24 : UInt32).toNat % 32 = 24 := rfl
  have h8 : (8 : UInt32).toNat % 32 = 8 := rfl
  rw [parse, MailboxID.mk.injEq, ← UInt8.toNat_inj, ← UInt32.toNat_inj]
  constructor
  · rw [UInt32.toNat_toUInt8, UInt32.toNat_shiftRight, h24, hv, Nat.shiftRight_eq_div_pow]
    omega
  · rw [UInt32.toNat_shiftRight, UInt32.toNat_shiftLeft, h8, hv, Nat.shiftLeft_eq,
      Nat.shiftRight_eq_div_pow]
    omega

end MailboxID

end Jengine.Cluster
