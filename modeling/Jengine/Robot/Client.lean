import Jengine.Lib.Runs
import Jengine.Robot.CircularBuffer
import Jengine.Robot.WorldPacket

/-!
# The robot's connection

`Client` (`robot/client.h`) with its two buffers of 0x10000 bytes.  `OnRecvPacket` cuts packets
off the input buffer: the size of a packet is two more than the length word it starts with, a
sum that is kept in 16 bits, and the head of a packet has four bytes.  A size of 0 takes nothing
off the buffer, and the sizes 1 to 3 less than a head.
-/

namespace Jengine.Robot

open Jengine.Lib CircularBuffer

/-- `WorldPacket::Resize`. -/
def WorldPacket.resized (p : WorldPacket) (newsize : Nat) : WorldPacket :=
  { p with storage := resize p.storage newsize, pos := 0 }

/-- A packet that `ProcPacket` got, and the number of bytes it took off the buffer. -/
structure Handed where
  packet : WorldPacket
  consumed : Nat
deriving DecidableEq, Repr

/-- `EPOLLIN`, `EPOLLOUT` and `EPOLLET`. -/
def epollIn : UInt32 := 0x001
def epollOut : UInt32 := 0x004
def epollEt : UInt32 := 0x80000000

/-- `Client`, with the events that epoll watches its socket for and what `ProcPacket` got. -/
structure Client where
  pkHead : List UInt8
  ibuf : CircularBuffer
  obuf : CircularBuffer
  events : UInt32
  handed : List Handed

namespace Client

/-- A client behind `ConnectServer`'s `AddToDispatcher(EPOLLIN)`; the memory of the buffers
    holds anything. -/
def make (imem omem : Segments UInt8) : Client :=
  ⟨[0, 0, 0, 0], .make imem 0x10000, .make omem 0x10000, epollEt ||| epollIn, []⟩

/-- `ModifyIOEvent`. -/
def modifyIOEvent (c : Client) (evt : UInt32) : Client := { c with events := epollEt ||| evt }

/-! ### Receiving -/

/-- `sizeof(m_pkHead)`. -/
def headSize : Nat := 4

/-- `ntohs` of the word that a head starts with. -/
def ntohs (head : List UInt8) : Nat := ofLE (head.take 2).reverse

/-- The size of a packet with this head. -/
def packetSize (head : List UInt8) : UInt16 := UInt16.ofNat (ntohs head + 2)

/-- `pkin`: a packet for this head, with the bytes that are read into it. -/
def pkin (head bytes : List UInt8) : WorldPacket :=
  let size := packetSize head
  let opCode := UInt16.ofNat (ofLE (head.drop 2))
  let pkin := (WorldPacket.make opCode size).resized size.toNat
  { pkin with storage := bytes ++ pkin.storage.drop bytes.length }

/-- `ProcPacket`. -/
def procPacket (c : Client) (consumed : Nat) (pkin : WorldPacket) : Client :=
  { c with handed := c.handed ++ [⟨pkin, consumed⟩] }

/-- The loop of `OnRecvPacket`. -/
def recvLoop : Nat → Nat → Client → Except Stop Client
  | 0, _, _ => .error .running
  | fuel + 1, length, c =>
      if headSize ≤ length then do
        let (ok, head) ← c.ibuf.softRead true headSize
        let c := if ok then { c with pkHead := head } else c
        let size := packetSize c.pkHead
        if length < size.toNat then .ok c
        else do
          let ((ok, bytes), ibuf) ← c.ibuf.read true size.toNat
          let taken := c.ibuf.getLength - ibuf.getLength
          let c := { c with ibuf := ibuf }
          let c := if ok then c.procPacket taken (pkin c.pkHead bytes) else c
          recvLoop fuel c.ibuf.getLength c
      else .ok c

/-- `OnRecvPacket`. -/
def onRecvPacket (fuel : Nat) (c : Client) : Except Stop Client :=
  recvLoop fuel c.ibuf.getLength c

/-- The call comes to an end, and every packet handed on took its head at least. -/
def RecvRight (c : Client) : Prop :=
  ∃ fuel c' new, onRecvPacket fuel c = .ok c' ∧ c'.handed = c.handed ++ new ∧
    ∀ p ∈ new, headSize ≤ p.consumed

/-- A length word whose packet has a head and whose size needs no more than 16 bits. -/
def GoodWord (bs : List UInt8) : Prop := 2 ≤ ntohs bs ∧ ntohs bs < 65534

/-- Wherever a packet starts there are less than four bytes, or the length word is good. -/
inductive Framed : List UInt8 → Prop
  | short {bs : List UInt8} (hshort : bs.length < headSize) : Framed bs
  | wait {bs : List UInt8} (hgood : GoodWord bs) (hwait : bs.length < ntohs bs + 2) : Framed bs
  | packet {bs : List UInt8} (hgood : GoodWord bs) (hlen : ntohs bs + 2 ≤ bs.length)
      (hrest : Framed (bs.drop (ntohs bs + 2))) : Framed bs

theorem ntohs_lt (head : List UInt8) : ntohs head < 65536 := by
  have hlt : ntohs head < 256 ^ (head.take 2).reverse.length := ofLE_lt _
  have hlen : (head.take 2).reverse.length ≤ 2 := by
    rw [List.length_reverse]
    exact List.length_take_le 2 head
  calc ntohs head < 256 ^ (head.take 2).reverse.length := hlt
    _ ≤ 256 ^ 2 := Nat.pow_le_pow_right (by decide) hlen
    _ = 65536 := rfl

theorem ntohs_take (bs : List UInt8) : ntohs (bs.take headSize) = ntohs bs := by
  rw [ntohs, List.take_take]
  rfl

theorem packetSize_toNat (bs : List UInt8) : (packetSize bs).toNat = (ntohs bs + 2) % 65536 :=
  UInt16.toNat_ofNat'

theorem packetSize_take (bs : List UInt8) : packetSize (bs.take headSize) = packetSize bs := by
  rw [packetSize, packetSize, ntohs_take]

/-- The word is good iff its packet is as long as a head. -/
theorem goodWord_iff (bs : List UInt8) : GoodWord bs ↔ headSize ≤ (packetSize bs).toNat := by
  have hlt := ntohs_lt bs
  rw [packetSize_toNat, GoodWord, headSize]
  omega

theorem GoodWord.size {bs : List UInt8} (h : GoodWord bs) :
    (packetSize bs).toNat = ntohs bs + 2 := by
  obtain ⟨-, hlt⟩ := h
  rw [packetSize_toNat, Nat.mod_eq_of_lt (by omega)]

theorem recvLoop_short (fuel : Nat) {length : Nat} (c : Client) (hshort : length < headSize) :
    recvLoop (fuel + 1) length c = .ok c := by
  rw [recvLoop, if_neg (Nat.not_le.mpr hshort)]

theorem recvLoop_wait (fuel : Nat) {c : Client} {items : List UInt8} (h : c.ibuf.Holds items)
    (hlen : headSize ≤ items.length) (hwait : items.length < (packetSize items).toNat) :
    recvLoop (fuel + 1) items.length c = .ok { c with pkHead := items.take headSize } := by
  rw [recvLoop, if_pos hlen, softRead_eq h, ok_bind]
  simp only [if_pos hlen, if_true, packetSize_take, if_pos hwait]

/-- One packet: it takes its size off the buffer, and the loop goes on. -/
theorem recvLoop_packet {c : Client} {items : List UInt8} (h : c.ibuf.Holds items)
    (hlen : headSize ≤ items.length) (hsize : (packetSize items).toNat ≤ items.length) :
    ∃ c' packet, c'.ibuf.Holds (items.drop (packetSize items).toNat) ∧
      c'.handed = c.handed ++ [⟨packet, (packetSize items).toNat⟩] ∧
      ∀ fuel, recvLoop (fuel + 1) items.length c =
        recvLoop fuel (items.drop (packetSize items).toNat).length c' := by
  obtain ⟨ibuf, hread, -, h'⟩ := read_takes h true hsize
  have hleft : ibuf.getLength = (items.drop (packetSize items).toNat).length := h'.count
  have htaken : c.ibuf.getLength - (items.drop (packetSize items).toNat).length =
      (packetSize items).toNat := by
    rw [getLength, h.count, List.length_drop]
    omega
  refine ⟨{ c with
      pkHead := items.take headSize
      ibuf := ibuf
      handed := c.handed ++ [⟨pkin (items.take headSize) (items.take (packetSize items).toNat),
        (packetSize items).toNat⟩] }, _, h', rfl, ?_⟩
  intro fuel
  rw [recvLoop, if_pos hlen, softRead_eq h, ok_bind]
  simp only [if_pos hlen, if_true, packetSize_take, if_neg (Nat.not_lt.mpr hsize), hread, ok_bind,
    hleft, htaken, procPacket]

/-- A call that hands on nothing is right. -/
theorem recvRight_of_nothing {c c' : Client} (hrun : onRecvPacket 1 c = .ok c')
    (hsame : c'.handed = c.handed) : RecvRight c :=
  ⟨1, c', [], hrun, by rw [hsame, List.append_nil], fun _ hp => absurd hp List.not_mem_nil⟩

theorem recvRight_of_short {c : Client} {items : List UInt8} (h : c.ibuf.Holds items)
    (hshort : items.length < headSize) : RecvRight c := by
  have hrun : onRecvPacket 1 c = .ok c := by
    rw [onRecvPacket, getLength, h.count, recvLoop_short 0 c hshort]
  exact recvRight_of_nothing hrun rfl

/-- A packet whose word is good is taken off, and the loop ends on what is left. -/
theorem recvRight_of_framed {items : List UInt8} (hframed : Framed items) :
    ∀ {c : Client}, c.ibuf.Holds items → RecvRight c := by
  induction hframed with
  | short hshort =>
      intro c h
      exact recvRight_of_short h hshort
  | @wait items hgood hwait =>
      intro c h
      by_cases hlen : headSize ≤ items.length
      · have hloop := recvLoop_wait 0 h hlen (by rw [hgood.size]; exact hwait)
        rw [← h.count] at hloop
        exact recvRight_of_nothing hloop rfl
      · exact recvRight_of_short h (Nat.lt_of_not_le hlen)
  | @packet items hgood hsize hrest ih =>
      intro c h
      have hlen : headSize ≤ items.length := by
        obtain ⟨htwo, -⟩ := hgood
        rw [headSize]
        omega
      obtain ⟨c', packet, h', hhanded, hloop⟩ :=
        recvLoop_packet h hlen (by rw [hgood.size]; exact hsize)
      rw [hgood.size] at h' hhanded hloop
      obtain ⟨fuel, c'', new, hrun, hnew, hconsumed⟩ := ih h'
      refine ⟨fuel + 1, c'', ⟨packet, ntohs items + 2⟩ :: new, ?_, ?_, ?_⟩
      · rw [onRecvPacket, getLength, h'.count] at hrun
        rw [onRecvPacket, getLength, h.count, hloop, hrun]
      · rw [hnew, hhanded, List.append_assoc]
        rfl
      · intro p hp
        rcases List.mem_cons.mp hp with rfl | hp
        · exact Nat.add_le_add_right hgood.1 2
        · exact hconsumed p hp

/-- The loop only adds to what was handed on. -/
theorem recvLoop_handed (fuel : Nat) : ∀ {c c' : Client} {items : List UInt8},
    c.ibuf.Holds items → recvLoop fuel items.length c = .ok c' →
      ∃ new, c'.handed = c.handed ++ new := by
  induction fuel with
  | zero =>
      intro c c' items h hrun
      cases hrun
  | succ fuel ih =>
      intro c c' items h hrun
      by_cases hlen : headSize ≤ items.length
      · by_cases hsize : (packetSize items).toNat ≤ items.length
        · obtain ⟨c₁, packet, h₁, hhanded, hloop⟩ := recvLoop_packet h hlen hsize
          rw [hloop] at hrun
          obtain ⟨new, hnew⟩ := ih h₁ hrun
          exact ⟨_, by rw [hnew, hhanded, List.append_assoc]⟩
        · rw [recvLoop_wait fuel h hlen (Nat.lt_of_not_le hsize)] at hrun
          cases hrun
          exact ⟨[], (List.append_nil _).symm⟩
      · rw [recvLoop_short fuel c (Nat.lt_of_not_le hlen)] at hrun
        cases hrun
        exact ⟨[], (List.append_nil _).symm⟩

/-- Where the loop ends and every packet took its head, all words were good. -/
theorem framed_of_recvLoop (fuel : Nat) : ∀ {c c' : Client} {items : List UInt8}
    {new : List Handed}, c.ibuf.Holds items → recvLoop fuel items.length c = .ok c' →
      c'.handed = c.handed ++ new → (∀ p ∈ new, headSize ≤ p.consumed) → Framed items := by
  induction fuel with
  | zero =>
      intro c c' items new h hrun
      cases hrun
  | succ fuel ih =>
      intro c c' items new h hrun hnew hconsumed
      by_cases hlen : headSize ≤ items.length
      · by_cases hsize : (packetSize items).toNat ≤ items.length
        · obtain ⟨c₁, packet, h₁, hhanded, hloop⟩ := recvLoop_packet h hlen hsize
          rw [hloop] at hrun
          -- the first of the new packets is the one taken off now
          obtain ⟨later, hlater⟩ := recvLoop_handed fuel h₁ hrun
          have hsplit : new = ⟨packet, (packetSize items).toNat⟩ :: later := by
            rw [hlater, hhanded, List.append_assoc] at hnew
            exact (List.append_cancel_left hnew).symm
          have hgood : GoodWord items := by
            rw [goodWord_iff]
            exact hconsumed ⟨packet, (packetSize items).toNat⟩ (by
              rw [hsplit]
              exact List.mem_cons_self)
          rw [hgood.size] at h₁ hsize hrun
          refine .packet hgood hsize (ih h₁ hrun hlater fun p hp => hconsumed p ?_)
          rw [hsplit]
          exact List.mem_cons_of_mem _ hp
        · -- a size below that of a head is never waited for
          have hgood : GoodWord items := (goodWord_iff items).mpr (by omega)
          rw [hgood.size] at hsize
          exact .wait hgood (Nat.lt_of_not_le hsize)
      · exact .short (Nat.lt_of_not_le hlen)

theorem framed_of_recvRight {c : Client} {items : List UInt8} (h : c.ibuf.Holds items)
    (hright : RecvRight c) : Framed items := by
  obtain ⟨fuel, c', new, hrun, hnew, hconsumed⟩ := hright
  rw [onRecvPacket, getLength, h.count] at hrun
  exact framed_of_recvLoop fuel h hrun hnew hconsumed

/-- **Receiving.**  `OnRecvPacket` ends, and every packet takes its four bytes of head at least,
    iff no packet starts with one of the four length words 0, 1, 65534 and 65535. -/
theorem recvRight_iff (c : Client) (items : List UInt8) (h : c.ibuf.Holds items) :
    RecvRight c ↔ Framed items :=
  ⟨framed_of_recvRight h, fun hframed => recvRight_of_framed hframed h⟩

/-- A client whose input buffer has just been given `bytes`. -/
def holding (bytes : List UInt8) : Client :=
  let c := make (fun _ _ => 0) (fun _ _ => 0)
  match c.ibuf.write bytes with
  | .ok (_, ibuf) => { c with ibuf := ibuf }
  | .error _ => c

theorem holding_holds {bytes : List UInt8} (h : bytes.length ≤ 0x10000) :
    (holding bytes).ibuf.Holds bytes := by
  have hstart : (CircularBuffer.make (fun _ _ => 0) 0x10000).Holds [] :=
    holds_make _ (by decide) (by decide)
  obtain ⟨ibuf, hwrite, -, h'⟩ := write_fits (s := bytes) hstart (by
    rw [List.length_nil, Nat.zero_add]
    exact h)
  have hholding : (holding bytes).ibuf = ibuf := by
    simp only [holding, make, hwrite]
  rw [hholding]
  exact h'

/-- Two packets, and the start of a third one. -/
theorem recvRight_iff_twoPackets : RecvRight (holding [0, 3, 7, 0, 9, 0, 2, 7, 0, 0, 9]) :=
  (recvRight_iff _ _ (holding_holds (by decide))).mpr
    (.packet ⟨by decide, by decide⟩ (by decide)
      (.packet ⟨by decide, by decide⟩ (by decide) (.short (by decide))))

/-- The length word 65534: the sum is 0, nothing is taken off, and the loop never ends. -/
theorem not_recvRight_zero :
    (holding [255, 254, 0, 0]).ibuf.Holds [255, 254, 0, 0] ∧
      ¬ RecvRight (holding [255, 254, 0, 0]) := by
  have hholds : (holding [255, 254, 0, 0]).ibuf.Holds [255, 254, 0, 0] :=
    holding_holds (by decide)
  refine ⟨hholds, fun hright => ?_⟩
  have hword : ¬ GoodWord [255, 254, 0, 0] := by
    rintro ⟨-, hlt⟩
    exact absurd hlt (by decide)
  cases framed_of_recvRight hholds hright with
  | short hshort => exact absurd hshort (by decide)
  | wait hgood => exact hword hgood
  | packet hgood => exact hword hgood

end Client

end Jengine.Robot
