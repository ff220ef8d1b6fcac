import Jengine.Robot.Client

/-!
# Sending

`SendPacket` and `OnEventWriteable` of the robot's `Client` (`robot/client.h`).  `SendPacket`
queues a packet in the output buffer and asks for write events.  `OnEventWriteable` takes
everything out of the buffer, offers it to `send`, and does not look at how much of it `send`
has taken; the socket does not block.

The law of sending is that what the socket has taken, followed by what is still queued, is what
the packets were.  A packet's size is a `uint16_t`, so a packet of 65536 bytes, which just fits
an empty buffer, is not queued at all.
-/

namespace Jengine.Robot

open Jengine.Lib CircularBuffer

/-- What `send` answers when it is offered so many bytes. -/
inductive SendResult (offered : Nat) where
  | error
  | took (n : Nat) (hpos : 0 < n) (hle : n ≤ offered)

/-- The number of bytes that the socket has taken. -/
def SendResult.count {offered : Nat} : SendResult offered → Nat
  | .error => 0
  | .took n _ _ => n

/-- The answers to the calls of `send` that one event makes: the first argument counts them. -/
abbrev Socket := Nat → (offered : Nat) → SendResult offered

namespace Client

/-- `SendPacket`. -/
def sendPacket (c : Client) (pack : WorldPacket) : Except Stop Client := do
  let pack := pack.writeHead
  let len := pack.getSize.toNat
  let (_, obuf) ← c.obuf.write (pack.storage.take len)
  .ok ({ c with obuf := obuf }.modifyIOEvent (epollIn ||| epollOut))

/-- The loop of `OnEventWriteable`, with the bytes that the socket has taken. -/
def writeLoop (send : Socket) :
    Nat → Nat → Nat → Client → List UInt8 → Except Stop (Client × List UInt8)
  | 0, _, _, _, _ => .error .running
  | fuel + 1, call, length, c, taken =>
      if 0 < length then do
        let ((_, tmp), obuf) ← c.obuf.read true length
        let res := send call length
        writeLoop send fuel (call + 1) obuf.getLength { c with obuf := obuf }
          (taken ++ tmp.take res.count)
      else .ok (c, taken)

/-- `OnEventWriteable`. -/
def onEventWriteable (c : Client) (send : Socket) (fuel : Nat) :
    Except Stop (Client × List UInt8) := do
  let (c, taken) ← writeLoop send fuel 0 c.obuf.getLength c []
  .ok (c.modifyIOEvent epollIn, taken)

/-- The write event is armed. -/
def Armed (c : Client) : Prop := c.events &&& epollOut ≠ 0

end Client

/-- A client with the history of its connection: the bytes that the socket has taken, and those
    of the packets that were sent. -/
structure Link where
  client : Client
  accepted : List UInt8
  sent : List UInt8

/-- What happens on a connection. -/
inductive Action where
  | sendPacket (pack : WorldPacket)
  | onEventWriteable (send : Socket)

namespace Link

def start (imem omem : Segments UInt8) : Link := ⟨.make imem omem, [], []⟩

def step (l : Link) : Action → Except Stop Link
  | .sendPacket pack => do
      let client ← l.client.sendPacket pack
      .ok { l with client := client, sent := l.sent ++ pack.writeHead.storage }
  | .onEventWriteable send => do
      let (client, taken) ← l.client.onEventWriteable send 2
      .ok { l with client := client, accepted := l.accepted ++ taken }

/-- The machine: a call that does not return is the end. -/
def next (s : Except Stop Link) (a : Action) : Except Stop Link := do
  let l ← s
  l.step a

/-- What the socket has taken and what is queued are what was sent, and the event stays armed
    while something is queued. -/
def SendRight (l : Link) : Prop :=
  l.accepted ++ l.client.obuf.content = l.sent ∧
    (l.client.obuf.content ≠ [] → l.client.Armed)

/-- The state is reached, and right. -/
def Right (s : Except Stop Link) : Prop := ∃ l, s = .ok l ∧ l.SendRight

/-- A packet fits behind what is queued when it is sent. -/
def Fits : Except Stop Link → Action → Prop
  | .ok l, .sendPacket pack =>
      l.client.obuf.getLength + pack.writeHead.storage.length ≤ l.client.obuf.max
  | _, _ => True

/-- The socket takes all that is queued, and no packet has exactly 65536 bytes. -/
def Whole : Except Stop Link → Action → Prop
  | .ok _, .sendPacket pack => pack.storage.length ≠ 0x10000
  | .ok l, .onEventWriteable send =>
      (send 0 l.client.obuf.getLength).count = l.client.obuf.getLength
  | .error _, _ => True

end Link

/-! ### The two calls -/

theorem SendResult.count_le {offered : Nat} (r : SendResult offered) : r.count ≤ offered := by
  cases r with
  | error => exact Nat.zero_le offered
  | took n hpos hle => exact hle

theorem WorldPacket.length_putByte (p : WorldPacket) (src : List UInt8) :
    (p.putByte src).storage.length = max p.storage.length (p.pos + src.length) ∧
      (p.putByte src).pos = p.pos + src.length := by
  refine ⟨?_, rfl⟩
  have hresize : ∀ n, (resize p.storage n).length = n := by
    intro n
    rw [resize, List.length_append, List.length_take, List.length_replicate]
    omega
  simp only [WorldPacket.putByte, List.length_append, List.length_take, List.length_drop]
  split
  · rename_i hle
    rw [hresize]
    omega
  · omega

/-- The cursor of a packet of `len` bytes is at `n`. -/
def WorldPacket.At (p : WorldPacket) (len n : Nat) : Prop := p.storage.length = len ∧ p.pos = n

theorem WorldPacket.At.writeUShort {p : WorldPacket} {len n : Nat} {val : UInt16}
    (h : p.At len n) (hroom : n + 2 ≤ len) : (p.writeUShort val).At len (n + 2) := by
  obtain ⟨hlen, hpos⟩ := p.length_putByte (toLE 2 val.toNat)
  rw [length_toLE, h.2] at hlen hpos
  refine ⟨hlen.trans ?_, hpos⟩
  rw [h.1]
  exact Nat.max_eq_left hroom

/-- Filling in the head makes a packet as long as a head at least. -/
theorem WorldPacket.length_writeHead (p : WorldPacket) :
    p.writeHead.storage.length = max p.storage.length WorldPacket.headSize := by
  have hten : 10 ≤ max p.storage.length WorldPacket.headSize := Nat.le_max_right _ _
  have hstart : (if (p.skipTo 0).storage.length < WorldPacket.headSize then
      { p.skipTo 0 with storage := resize (p.skipTo 0).storage WorldPacket.headSize }
      else p.skipTo 0).At (max p.storage.length WorldPacket.headSize) 0 := by
    split
    · rename_i hshort
      change p.storage.length < WorldPacket.headSize at hshort
      refine ⟨?_, rfl⟩
      show (resize p.storage WorldPacket.headSize).length = _
      rw [resize, List.length_append, List.length_take, List.length_replicate]
      omega
    · rename_i hlong
      exact ⟨(Nat.max_eq_left (Nat.le_of_not_lt hlong)).symm, rfl⟩
  -- each of the five words of the head is written inside the packet
  dsimp only [WorldPacket.writeHead]
  exact (((((hstart.writeUShort (by omega)).writeUShort (by omega)).writeUShort
    (by omega)).writeUShort (by omega)).writeUShort (by omega)).1

theorem WorldPacket.length_sent (p : WorldPacket) :
    p.sent.length = p.writeHead.storage.length % 0x10000 := by
  have hsize : p.writeHead.getSize.toNat = p.writeHead.storage.length % 0x10000 :=
    UInt16.toNat_ofNat'
  rw [WorldPacket.sent, List.length_take, hsize]
  exact Nat.min_eq_left (Nat.mod_le _ _)

/-- The size of a packet is not wrapped. -/
theorem WorldPacket.sent_eq_iff (p : WorldPacket) :
    p.sent = p.writeHead.storage ↔ p.writeHead.storage.length < 0x10000 := by
  have hlen := p.length_sent
  constructor
  · intro hall
    rw [hall] at hlen
    omega
  · intro hlt
    rw [Nat.mod_eq_of_lt hlt] at hlen
    exact (List.take_prefix _ _).eq_of_length hlen

namespace Client

theorem sendPacket_eq (c : Client) (pack : WorldPacket) :
    c.sendPacket pack = (c.obuf.write pack.sent >>= fun p =>
      .ok ({ c with obuf := p.2 }.modifyIOEvent (epollIn ||| epollOut))) := rfl

theorem armed_modifyIOEvent (c : Client) : (c.modifyIOEvent (epollIn ||| epollOut)).Armed := by
  show (epollEt ||| (epollIn ||| epollOut)) &&& epollOut ≠ 0
  decide

/-- A packet is queued as a whole iff it fits and its length is not wrapped to 0. -/
theorem sendPacket_spec {c : Client} {items : List UInt8} (h : c.obuf.Holds items)
    (hmax : c.obuf.max = 0x10000) (pack : WorldPacket) :
    ∃ c', c.sendPacket pack = .ok c' ∧ c'.obuf.max = 0x10000 ∧ c'.Armed ∧
      ∃ queued, c'.obuf.Holds (items ++ queued) ∧
        queued <+: pack.writeHead.storage ∧
        (queued = pack.writeHead.storage ↔
          items.length + pack.writeHead.storage.length ≤ 0x10000 ∧
            pack.storage.length ≠ 0x10000) := by
  have hlen := pack.length_sent
  have hhead := pack.length_writeHead
  rw [WorldPacket.headSize] at hhead
  have hfits := h.fits
  by_cases hroom : items.length + pack.sent.length ≤ 0x10000
  · obtain ⟨obuf, hwrite, hmax', h'⟩ := write_fits h (by rw [hmax]; exact hroom)
    refine ⟨{ c with obuf := obuf }.modifyIOEvent (epollIn ||| epollOut), ?_, hmax'.trans hmax,
      armed_modifyIOEvent _, pack.sent, h', List.take_prefix _ _, ?_⟩
    · rw [sendPacket_eq, hwrite, ok_bind]
    · rw [pack.sent_eq_iff]
      omega
  · have hwrite := write_overflow (s := pack.sent) h (by omega) (by rw [hmax]; omega)
    refine ⟨{ c with obuf := c.obuf }.modifyIOEvent (epollIn ||| epollOut), ?_, hmax,
      armed_modifyIOEvent _, [], ?_, List.nil_prefix, ?_⟩
    · rw [sendPacket_eq, hwrite, ok_bind]
    · rw [List.append_nil]
      exact h
    · constructor
      · intro hnil
        rw [← hnil, List.length_nil] at hhead
        omega
      · rintro ⟨hle, -⟩
        omega

/-- Whatever is queued is gone, and the socket has what it took of it. -/
theorem onEventWriteable_spec {c : Client} {items : List UInt8} (h : c.obuf.Holds items)
    (send : Socket) :
    ∃ c', c.onEventWriteable send 2 = .ok (c', items.take (send 0 items.length).count) ∧
      c'.obuf.max = c.obuf.max ∧ c'.obuf.Holds [] := by
  by_cases hempty : items.length = 0
  · have hnil : items = [] := List.length_eq_zero_iff.mp hempty
    refine ⟨c.modifyIOEvent epollIn, ?_, rfl, ?_⟩
    · rw [onEventWriteable, getLength, h.count, writeLoop, if_neg (by omega), ok_bind, hnil,
        List.take_nil]
    · rw [← hnil]
      exact h
  · obtain ⟨obuf, hread, hmax, h'⟩ := read_takes h true (Nat.le_refl items.length)
    have hgone : items.drop items.length = [] := List.drop_length
    rw [hgone] at h'
    have hleft : obuf.getLength = 0 := h'.count
    refine ⟨{ c with obuf := obuf }.modifyIOEvent epollIn, ?_, hmax, h'⟩
    rw [onEventWriteable, getLength, h.count, writeLoop, if_pos (by omega), hread, ok_bind]
    simp only [if_true, List.take_length, List.nil_append, hleft]
    rw [writeLoop, if_neg (Nat.lt_irrefl 0), ok_bind]

end Client

/-! ### Runs -/

namespace Link

/-- The queue is in order, and the event is armed while something is queued. -/
structure Inv (l : Link) (items : List UInt8) : Prop where
  holds : l.client.obuf.Holds items
  max : l.client.obuf.max = 0x10000
  armed : items ≠ [] → l.client.Armed

/-- **One step.**  What was sent grows by the packet, and what the socket has taken and what is
    queued grow by it too, unless something is lost at the end. -/
theorem next_spec {l : Link} {items : List UInt8} (h : l.Inv items) (a : Action) :
    ∃ l' items' gain, next (.ok l) a = .ok l' ∧ l'.Inv items' ∧ l'.sent = l.sent ++ gain ∧
      l'.accepted ++ items' <+: l.accepted ++ items ++ gain ∧
      (l'.accepted ++ items' = l.accepted ++ items ++ gain ↔ Fits (.ok l) a ∧ Whole (.ok l) a) := by
  have hlength : l.client.obuf.getLength = items.length := h.holds.count
  cases a with
  | sendPacket pack =>
      obtain ⟨client, hsend, hmax, harmed, queued, hholds, hfront, hall⟩ :=
        Client.sendPacket_spec h.holds h.max pack
      refine ⟨⟨client, l.accepted, l.sent ++ pack.writeHead.storage⟩, items ++ queued,
        pack.writeHead.storage, ?_, ⟨hholds, hmax, fun _ => harmed⟩, rfl, ?_, ?_⟩
      · rw [next, ok_bind, step, hsend, ok_bind]
      · rw [← List.append_assoc]
        exact List.prefix_append_right_inj _ |>.mpr hfront
      · rw [← List.append_assoc, List.append_cancel_left_eq, hall, Fits, Whole, hlength, h.max]
  | onEventWriteable send =>
      obtain ⟨client, hsend, hmax, hholds⟩ := Client.onEventWriteable_spec h.holds send
      refine ⟨⟨client, l.accepted ++ items.take (send 0 items.length).count, l.sent⟩, [], [],
        ?_, ⟨hholds, hmax.trans h.max, fun hne => absurd rfl hne⟩, (List.append_nil _).symm, ?_, ?_⟩
      · rw [next, ok_bind, step, hsend, ok_bind]
      · rw [List.append_nil, List.append_nil]
        exact List.prefix_append_right_inj _ |>.mpr (List.take_prefix _ _)
      · have hle := (send 0 items.length).count_le
        rw [List.append_nil, List.append_nil, List.append_cancel_left_eq, Whole, hlength]
        constructor
        · intro hall
          have hlen := congrArg List.length hall
          rw [List.length_take] at hlen
          exact ⟨trivial, by omega⟩
        · rintro ⟨-, hcount⟩
          rw [hcount, List.take_length]

/-- Nothing has been lost yet. -/
def Law (s : Except Stop Link) : Prop :=
  ∃ l items, s = .ok l ∧ l.Inv items ∧ l.accepted ++ items = l.sent

/-- Something is lost. -/
def Lost (s : Except Stop Link) : Prop :=
  ∃ l items, s = .ok l ∧ l.Inv items ∧ (l.accepted ++ items).length < l.sent.length

theorem law_start (imem omem : Segments UInt8) : Law (.ok (start imem omem)) :=
  ⟨start imem omem, [], rfl,
    ⟨holds_make omem (by decide) (by decide), rfl, fun hne => absurd rfl hne⟩, rfl⟩

theorem Law.next {s : Except Stop Link} {a : Action} (h : Law s) (hok : Fits s a ∧ Whole s a) :
    Law (next s a) := by
  obtain ⟨l, items, rfl, hinv, hlaw⟩ := h
  obtain ⟨l', items', gain, hnext, hinv', hsent, -, hall⟩ := next_spec hinv a
  exact ⟨l', items', hnext, hinv', by rw [hall.mpr hok, hlaw, hsent]⟩

theorem Law.right {s : Except Stop Link} (h : Law s) : Right s := by
  obtain ⟨l, items, rfl, hinv, hlaw⟩ := h
  refine ⟨l, rfl, ?_, ?_⟩
  · rw [hinv.holds.content_eq, hlaw]
  · rw [hinv.holds.content_eq]
    exact hinv.armed

theorem Law.lost {s : Except Stop Link} {a : Action} (h : Law s) (hnot : ¬(Fits s a ∧ Whole s a)) :
    Lost (Link.next s a) := by
  obtain ⟨l, items, rfl, hinv, hlaw⟩ := h
  obtain ⟨l', items', gain, hnext, hinv', hsent, hfront, hall⟩ := next_spec hinv a
  refine ⟨l', items', hnext, hinv', ?_⟩
  rw [hsent, ← hlaw]
  by_contra hge
  exact hnot (hall.mp (hfront.eq_of_length_le (Nat.le_of_not_lt hge)))

theorem Lost.next {s : Except Stop Link} (h : Lost s) (a : Action) : Lost (Link.next s a) := by
  obtain ⟨l, items, rfl, hinv, hlost⟩ := h
  obtain ⟨l', items', gain, hnext, hinv', hsent, hfront, -⟩ := next_spec hinv a
  refine ⟨l', items', hnext, hinv', ?_⟩
  calc (l'.accepted ++ items').length
      ≤ (l.accepted ++ items ++ gain).length := hfront.length_le
    _ = (l.accepted ++ items).length + gain.length := List.length_append
    _ < l.sent.length + gain.length := Nat.add_lt_add_right hlost _
    _ = l'.sent.length := by rw [hsent, List.length_append]

theorem Lost.not_right {s : Except Stop Link} (h : Lost s) : ¬Right s := by
  obtain ⟨l, items, rfl, hinv, hlost⟩ := h
  rintro ⟨l', heq, hlaw, -⟩
  cases heq
  rw [hinv.holds.content_eq] at hlaw
  rw [hlaw] at hlost
  exact Nat.lt_irrefl _ hlost

/-- At the end of a run nothing is lost iff no step lost anything. -/
theorem right_run_iff (imem omem : Segments UInt8) (as : List Action) :
    Right (run next (.ok (start imem omem)) as) ↔
      Along next (fun s a => Fits s a ∧ Whole s a) (.ok (start imem omem)) as :=
  run_iff_along (fun _ _ => Law.next) (fun _ => Law.right) (fun _ _ => Law.lost)
    (fun _ a h => h.next a) (fun _ => Lost.not_right) (law_start imem omem) as

/-- **Sending.**  Where every packet fits when it is sent, no byte is lost in any state of the
    run and the event stays armed, iff the socket takes whatever it is offered and no packet has
    exactly 65536 bytes. -/
theorem sendRight_iff (imem omem : Segments UInt8) (as : List Action)
    (hfits : Along next Fits (.ok (start imem omem)) as) :
    (∀ pre, pre <+: as → Right (run next (.ok (start imem omem)) pre)) ↔
      Along next Whole (.ok (start imem omem)) as := by
  constructor
  · intro hright
    exact (along_and.mp ((right_run_iff imem omem as).mp (hright as (List.prefix_refl as)))).2
  · rintro hwhole pre ⟨post, rfl⟩
    rw [right_run_iff]
    exact (along_append.mp (along_and.mpr ⟨hfits, hwhole⟩)).1

/-- A socket that takes whatever it is offered. -/
def taking : Socket := fun _ offered =>
  if h : 0 < offered then .took offered h (Nat.le_refl offered) else .error

/-- A socket that would block. -/
def blocked : Socket := fun _ _ => .error

/-- The robot's ping. -/
def ping : WorldPacket := filled 1 30 [.uint 1, .uint 0]

theorem sendRight_iff_ping :
    Right (run next (.ok (start (fun _ _ => 0) (fun _ _ => 0)))
      [.sendPacket ping, .onEventWriteable taking]) :=
  (sendRight_iff (fun _ _ => 0) (fun _ _ => 0) [.sendPacket ping, .onEventWriteable taking]
    ⟨(by decide : 0 + ping.writeHead.storage.length ≤ 0x10000), trivial, trivial⟩).mpr
    ⟨(by decide : ping.storage.length ≠ 0x10000), (rfl : 18 = 18), trivial⟩ _ (List.prefix_refl _)

/-- The socket would block once: the ping is never sent. -/
theorem not_sendRight_blocked :
    Along next Fits (.ok (start (fun _ _ => 0) (fun _ _ => 0)))
        [.sendPacket ping, .onEventWriteable blocked] ∧
      ¬ Right (run next (.ok (start (fun _ _ => 0) (fun _ _ => 0)))
        [.sendPacket ping, .onEventWriteable blocked]) := by
  refine ⟨⟨(by decide : 0 + ping.writeHead.storage.length ≤ 0x10000), trivial, trivial⟩, ?_⟩
  rw [right_run_iff]
  rintro ⟨-, ⟨-, hwhole⟩, -⟩
  have hcount : 0 = 18 := hwhole
  exact absurd hcount (by decide)

end Link

end Jengine.Robot
