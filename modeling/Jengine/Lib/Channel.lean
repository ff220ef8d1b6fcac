import Jengine.Lib.Runs
import Jengine.Lib.Serving

/-!
# A queue of messages, and a stream of their bytes

Two parties and a connection.  What a channel is for is said by a queue: messages are sent
into it, and the other side is handed them one by one.  What goes over a wire are bytes, and
a receiver that cuts frames off what it has got.  Where every message is written as one
frame, serving any part of the stream is handing over messages of the queue
(`Serves.delivers`), however the stream was cut.
-/

namespace Jengine.Lib

variable {α β σ μ : Type}

/-- Messages, each of which is written as one frame. -/
structure Coding (α μ : Type) where
  framing : Framing α
  encode : μ → List α
  Fits : μ → Prop
  framed : ∀ {m}, Fits m → framing.verdict (encode m) = .frame (encode m).length

/-- Messages behind each other are cut into the messages. -/
theorem Coding.parse_flatMap (C : Coding α μ) {ms : List μ} (hfits : ∀ m ∈ ms, C.Fits m)
    {tail : List α} (htail : C.framing.verdict tail = .wait) :
    C.framing.parse (ms.flatMap C.encode ++ tail) = ⟨ms.map C.encode, false, tail⟩ := by
  induction ms with
  | nil => exact C.framing.parse_of_wait htail
  | cons m rest ih =>
    have hm := C.framing.frame_stable (rest.flatMap C.encode ++ tail)
      (C.framed (hfits m List.mem_cons_self))
    rw [List.flatMap_cons, List.append_assoc, C.framing.parse_of_frame hm, List.take_left,
      List.drop_left, ih fun x hx => hfits x (List.mem_cons_of_mem m hx)]
    rfl

/-- A part of a stream of messages is some of the messages and a part of one more. -/
theorem Coding.exists_take_of_isPrefix (C : Coding α μ) {queue : List μ}
    (hfits : ∀ m ∈ queue, C.Fits m) {tail x : List α} (htail : C.framing.verdict tail = .wait)
    (hx : x <+: queue.flatMap C.encode ++ tail) :
    ∃ k tail', C.framing.verdict tail' = .wait ∧ x = (queue.take k).flatMap C.encode ++ tail' := by
  -- a front that is too short for the frame behind it is not the front of any other
  have hshort : ∀ {x y : List α}, x <+: y →
      (C.framing.verdict y = .wait ∨ C.framing.verdict y = .frame y.length ∧ x.length < y.length) →
      C.framing.verdict x = .wait := by
    rintro x _ ⟨z, rfl⟩ hy
    rcases hv : C.framing.verdict x with _ | n | _
    · rfl
    · have hmore := C.framing.frame_stable z hv
      have hle := (C.framing.frame_bounds hv).2
      rcases hy with hwait | ⟨hframe, hlt⟩
      · cases hwait.symm.trans hmore
      · have hn := Verdict.frame.inj (hframe.symm.trans hmore)
        omega
    · have hmore := C.framing.bad_stable z hv
      rcases hy with hwait | ⟨hframe, -⟩
      · cases hwait.symm.trans hmore
      · cases hframe.symm.trans hmore
  induction queue generalizing x with
  | nil => exact ⟨0, x, hshort hx (.inl htail), rfl⟩
  | cons m rest ih =>
    rw [List.flatMap_cons, List.append_assoc] at hx
    by_cases hle : (C.encode m).length ≤ x.length
    · obtain ⟨y, rfl⟩ := List.prefix_of_prefix_length_le (List.prefix_append _ _) hx hle
      have hy := (List.prefix_append_right_inj _).mp hx
      obtain ⟨k, tail', hwait, rfl⟩ := ih (fun x hx => hfits x (List.mem_cons_of_mem m hx)) hy
      exact ⟨k + 1, tail', hwait, by rw [List.take_succ_cons, List.flatMap_cons, List.append_assoc]⟩
    · refine ⟨0, x, hshort ?_ (.inr ⟨C.framed (hfits m List.mem_cons_self), by omega⟩), rfl⟩
      exact List.prefix_of_prefix_length_le hx (List.prefix_append _ _) (by omega)

/-- A channel: what was sent, what of it is on its way, and what became of the other end. -/
structure Channel (σ β μ : Type) where
  sent : List μ
  queue : List μ
  lost : Bool
  stage : Stage σ β

namespace Channel

inductive Act (μ : Type) where
  | send (m : μ)
  /-- The other side is handed the first message. -/
  | deliver
  /-- The connection is lost, with all but the first messages on their way. -/
  | lose (rest : Nat)
  /-- The other side closes its end. -/
  | close

variable (V : Service α β σ) (encode : μ → List α)

def step (c : Channel σ β μ) : Act μ → Channel σ β μ
  | .send m =>
      { c with sent := c.sent ++ [m], queue := if c.lost then c.queue else c.queue ++ [m] }
  | .deliver =>
      match c.queue with
      | [] => c
      | m :: queue => { c with queue := queue, stage := V.hand c.stage (encode m) }
  | .lose rest => { c with queue := c.queue.take rest, lost := true }
  | .close => { c with stage := { c.stage with closed := true } }

/-- A channel nothing has been sent into. -/
def start (state : σ) : Channel σ β μ := ⟨[], [], false, ⟨state, false, []⟩⟩

/-- What the other side sees of a message. -/
def seen (m : μ) : β := V.note (encode m)

/-- What was handed over, and what is on its way, is what was sent first; until the
    connection is lost it is all that was sent. -/
structure Fifo (c : Channel σ β μ) : Prop where
  inOrder : c.stage.handed.map Prod.fst ++ c.queue.map (seen V encode) <+:
    c.sent.map (seen V encode)
  whole : c.lost = false → c.stage.handed.map Prod.fst ++ c.queue.map (seen V encode) =
    c.sent.map (seen V encode)

variable {V encode}

theorem fifo_start (state : σ) : Fifo V encode (start state) := ⟨List.prefix_rfl, fun _ => rfl⟩

theorem Fifo.step {c : Channel σ β μ} (h : Fifo V encode c) (a : Act μ) :
    Fifo V encode (c.step V encode a) := by
  cases a with
  | send m =>
    have hmore : c.sent.map (seen V encode) <+: (c.sent ++ [m]).map (seen V encode) := by
      rw [List.map_append]
      exact List.prefix_append _ _
    cases hlost : c.lost with
    | false =>
      have hnew : c.stage.handed.map Prod.fst ++ (c.queue ++ [m]).map (seen V encode) =
          (c.sent ++ [m]).map (seen V encode) := by
        rw [List.map_append, ← List.append_assoc, h.whole hlost, List.map_append]
      simp only [Channel.step, hlost, Bool.false_eq_true, if_false]
      exact ⟨hnew ▸ List.prefix_rfl, fun _ => hnew⟩
    | true =>
      simp only [Channel.step, hlost, if_true]
      exact ⟨h.inOrder.trans hmore, fun h => Bool.noConfusion h⟩
  | deliver =>
    rcases hqueue : c.queue with _ | ⟨m, queue⟩
    · have hstep : c.step V encode .deliver = c := by simp only [Channel.step, hqueue]
      rw [hstep]
      exact h
    · have hstep : c.step V encode .deliver =
          { c with queue := queue, stage := V.hand c.stage (encode m) } := by
        simp only [Channel.step, hqueue]
      have hsame : (V.hand c.stage (encode m)).handed.map Prod.fst ++ queue.map (seen V encode) =
          c.stage.handed.map Prod.fst ++ c.queue.map (seen V encode) := by
        rw [hqueue, Service.hand, List.map_append, List.append_assoc, List.map_cons]
        rfl
      rw [hstep]
      exact ⟨hsame ▸ h.inOrder, fun hlost => hsame.trans (h.whole hlost)⟩
  | lose rest =>
    refine ⟨List.IsPrefix.trans ?_ h.inOrder, fun h => Bool.noConfusion h⟩
    apply (List.prefix_append_right_inj _).mpr
    exact (List.take_prefix rest c.queue).map _
  | close => exact ⟨h.inOrder, h.whole⟩

end Channel

/-! ### Serving a stream of messages -/

namespace Service.Serves

variable {C : Coding α μ} {V : Service α β σ} {s s' : Stage σ β} {b b' : List α}

/-- Where what is buffered and what has not arrived are the messages of the queue and a part
    of one more, serving what is buffered hands over the first messages of the queue. -/
theorem delivers (h : V.Serves s b s' b') (hframing : V.framing = C.framing) {w tail : List α}
    {queue : List μ} (hfits : ∀ m ∈ queue, C.Fits m) (htail : C.framing.verdict tail = .wait)
    (hbytes : b ++ w = queue.flatMap C.encode ++ tail) (sent : List μ) (lost : Bool) :
    ∃ k, run (Channel.step V C.encode) ⟨sent, queue, lost, s⟩ (List.replicate k .deliver) =
        ⟨sent, queue.drop k, lost, s'⟩ ∧
      b' ++ w = (queue.drop k).flatMap C.encode ++ tail := by
  -- the front of the buffer is a message of the queue
  have hfront : ∀ {b : List α} {n : Nat} {queue : List μ}, V.framing.verdict b = .frame n →
      (∀ m ∈ queue, C.Fits m) → b ++ w = queue.flatMap C.encode ++ tail →
      ∃ m rest, queue = m :: rest ∧ b.take n = C.encode m ∧
        b.drop n ++ w = rest.flatMap C.encode ++ tail := by
    intro b n queue hv hfits hbytes
    rw [hframing] at hv
    have hle := (C.framing.frame_bounds hv).2
    have hmore := C.framing.frame_stable w hv
    rw [hbytes] at hmore
    rcases queue with _ | ⟨m, rest⟩
    · cases htail.symm.trans hmore
    · have hm := C.framing.frame_stable (rest.flatMap C.encode ++ tail)
        (C.framed (hfits m List.mem_cons_self))
      rw [List.flatMap_cons, List.append_assoc] at hmore hbytes
      have hn : (C.encode m).length = n := Verdict.frame.inj (hm.symm.trans hmore)
      refine ⟨m, rest, rfl, ?_, ?_⟩
      · have htake : (b ++ w).take n = b.take n := List.take_append_of_le_length hle
        rw [← htake, hbytes, List.take_left' hn]
      · have hdrop : (b ++ w).drop n = b.drop n ++ w := List.drop_append_of_le_length hle
        rw [← hdrop, hbytes, List.drop_left' hn]
  induction h generalizing queue with
  | wait => exact ⟨0, rfl, hbytes⟩
  | bad hv =>
    rw [hframing] at hv
    have hmore := C.framing.bad_stable w hv
    rw [hbytes] at hmore
    rcases queue with _ | ⟨m, rest⟩
    · cases htail.symm.trans hmore
    · rw [List.flatMap_cons, List.append_assoc] at hmore
      have hm := C.framing.frame_stable (rest.flatMap C.encode ++ tail)
        (C.framed (hfits m List.mem_cons_self))
      cases hm.symm.trans hmore
  | stop hv =>
    obtain ⟨m, rest, rfl, htake, hdrop⟩ := hfront hv hfits hbytes
    refine ⟨1, ?_, hdrop⟩
    rw [htake]
    rfl
  | frame hv _ _ ih =>
    obtain ⟨m, rest, rfl, htake, hdrop⟩ := hfront hv hfits hbytes
    obtain ⟨k, hrun, hrest⟩ := ih (fun x hx => hfits x (List.mem_cons_of_mem m hx)) hdrop
    refine ⟨k + 1, ?_, hrest⟩
    rw [List.replicate_succ, run_cons]
    rw [htake] at hrun
    exact hrun

end Service.Serves

end Jengine.Lib
