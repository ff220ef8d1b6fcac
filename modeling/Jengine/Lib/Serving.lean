import Jengine.Lib.Framing

/-!
# Serving the frames of a buffer

A loop cuts the frames off a buffer and hands them to a handler.  The handler may close
the connection that the bytes came over, and it may end the loop.  Where closing is a flag
that the loop does not look at, the two are different: `Late` says which buffers make the
loop hand over a frame of a connection that has been closed.
-/

namespace Jengine.Lib

variable {α β σ : Type}

/-- What a handler did with a frame. -/
structure Served (σ : Type) where
  state : σ
  closes : Bool
  /-- The loop is left. -/
  stops : Bool

/-- What the loop changes besides the buffer; a frame is handed over together with whether
    the connection was closed by then. -/
structure Stage (σ β : Type) where
  state : σ
  closed : Bool
  handed : List (β × Bool)

/-- No frame was handed over after the connection had been closed. -/
def Stage.InTime (s : Stage σ β) : Prop := ∀ e ∈ s.handed, e.2 = false

/-- A framing, and a handler of its frames; `note` is what the handler sees of a frame. -/
structure Service (α β σ : Type) where
  framing : Framing α
  note : List α → β
  serve : σ → List α → Served σ

namespace Service

variable (V : Service α β σ)

/-- A frame is handed over. -/
def hand (s : Stage σ β) (frame : List α) : Stage σ β :=
  ⟨(V.serve s.state frame).state, s.closed || (V.serve s.state frame).closes,
    s.handed ++ [(V.note frame, s.closed)]⟩

/-- What the loop makes of a stage and a buffer. -/
inductive Serves : Stage σ β → List α → Stage σ β → List α → Prop where
  | wait {s b} (hv : V.framing.verdict b = .wait) : Serves s b s b
  | bad {s b} (hv : V.framing.verdict b = .bad) : Serves s b { s with closed := true } b
  | stop {s b n} (hv : V.framing.verdict b = .frame n)
      (hstops : (V.serve s.state (b.take n)).stops = true) :
      Serves s b (V.hand s (b.take n)) (b.drop n)
  | frame {s b n s' b'} (hv : V.framing.verdict b = .frame n)
      (hgoes : (V.serve s.state (b.take n)).stops = false)
      (hrest : Serves (V.hand s (b.take n)) (b.drop n) s' b') : Serves s b s' b'

/-- A frame that closes the connection and does not end the loop is followed by another. -/
inductive Late : σ → List α → Prop where
  | here {t b n m} (hv : V.framing.verdict b = .frame n)
      (hgoes : (V.serve t (b.take n)).stops = false)
      (hcloses : (V.serve t (b.take n)).closes = true)
      (hnext : V.framing.verdict (b.drop n) = .frame m) : Late t b
  | behind {t b n} (hv : V.framing.verdict b = .frame n)
      (hgoes : (V.serve t (b.take n)).stops = false)
      (hrest : Late (V.serve t (b.take n)).state (b.drop n)) : Late t b

/-- Frames are served one after the other, until one ends the loop; the second component says
    whether one did. -/
def follow : σ → List (List α) → σ × Bool
  | t, [] => (t, false)
  | t, frame :: frames =>
      if (V.serve t frame).stops then ((V.serve t frame).state, true)
      else follow (V.serve t frame).state frames

theorem follow_append (t : σ) (fs gs : List (List α)) :
    V.follow t (fs ++ gs) =
      if (V.follow t fs).2 then V.follow t fs else V.follow (V.follow t fs).1 gs := by
  induction fs generalizing t with
  | nil => rfl
  | cons f fs ih =>
    rw [List.cons_append, follow, follow]
    split
    · rfl
    · exact ih _

/-- What every frame keeps that does not end the loop, and what it leaves behind in any case. -/
theorem follow_keeps {I J : σ → Prop} (hleave : ∀ t, I t → J t)
    (hserve : ∀ t frame, I t → J (V.serve t frame).state ∧
      ((V.serve t frame).stops = false → I (V.serve t frame).state))
    {t : σ} (h : I t) (frames : List (List α)) : J (V.follow t frames).1 := by
  induction frames generalizing t with
  | nil => exact hleave t h
  | cons f fs ih =>
    rw [follow]
    split
    next => exact (hserve t f h).1
    next hgoes => exact ih ((hserve t f h).2 (eq_false_of_ne_true hgoes))

variable {V} {s s' : Stage σ β} {b b' : List α}

theorem hand_inTime (hopen : s.closed = false) (hs : s.InTime) (frame : List α) :
    (V.hand s frame).InTime := by
  intro e he
  rcases List.mem_append.mp he with hbefore | hnew
  · exact hs e hbefore
  · rw [List.mem_singleton.mp hnew]
    exact hopen

theorem Late.frame {t : σ} (h : V.Late t b) : ∃ n, V.framing.verdict b = .frame n := by
  cases h with
  | here hv => exact ⟨_, hv⟩
  | behind hv => exact ⟨_, hv⟩

namespace Serves

theorem closed_of_closed (h : V.Serves s b s' b') (hclosed : s.closed = true) :
    s'.closed = true := by
  induction h with
  | wait => exact hclosed
  | bad => rfl
  | stop => rw [hand, hclosed, Bool.true_or]
  | frame _ _ _ ih =>
    apply ih
    rw [hand, hclosed, Bool.true_or]

theorem mem_handed (h : V.Serves s b s' b') {e : β × Bool} (he : e ∈ s.handed) :
    e ∈ s'.handed := by
  induction h with
  | wait | bad => exact he
  | stop => exact List.mem_append_left _ he
  | frame _ _ _ ih => exact ih (List.mem_append_left _ he)

/-- Where no front is bad and no frame ends the loop, what is left has to wait. -/
theorem verdict_eq_wait (h : V.Serves s b s' b') (hbad : ∀ b, V.framing.verdict b ≠ .bad)
    (hgoes : ∀ t frame, (V.serve t frame).stops = false) : V.framing.verdict b' = .wait := by
  induction h with
  | wait hv => exact hv
  | bad hv => exact absurd hv (hbad _)
  | stop _ hstops => cases (hgoes _ _).symm.trans hstops
  | frame _ _ _ ih => exact ih

/-- Serving a buffer is serving its frames. -/
theorem eq_follow (h : V.Serves s b s' b') (hbad : ∀ b, V.framing.verdict b ≠ .bad) :
    s'.state = (V.follow s.state (V.framing.parse b).frames).1 ∧
      ((V.follow s.state (V.framing.parse b).frames).2 = false →
        b' = (V.framing.parse b).rest ∧ s'.handed.map Prod.fst =
          s.handed.map Prod.fst ++ (V.framing.parse b).frames.map V.note) := by
  induction h with
  | wait hv =>
    rw [V.framing.parse_of_wait hv]
    exact ⟨rfl, fun _ => ⟨rfl, (List.append_nil _).symm⟩⟩
  | bad hv => exact absurd hv (hbad _)
  | stop hv hstops =>
    rw [V.framing.parse_of_frame hv, follow, if_pos hstops]
    exact ⟨rfl, nofun⟩
  | frame hv hgoes _ ih =>
    rw [V.framing.parse_of_frame hv, follow, if_neg (by rw [hgoes]; exact Bool.false_ne_true)]
    refine ⟨ih.1, fun hon => ?_⟩
    obtain ⟨hrest, hhanded⟩ := ih.2 hon
    refine ⟨hrest, hhanded.trans ?_⟩
    rw [hand, List.map_append, List.append_assoc]
    rfl

/-- What a closed connection is handed is late. -/
theorem not_inTime (h : V.Serves s b s' b') (hclosed : s.closed = true) {n : Nat}
    (hv : V.framing.verdict b = .frame n) : ¬ s'.InTime := by
  have hlate : ∀ k, ∃ e ∈ (V.hand s (b.take k)).handed, e.2 = true :=
    fun k => ⟨_, List.mem_append_right _ (List.mem_singleton_self _), hclosed⟩
  intro hin
  cases h with
  | wait hwait => cases hv.symm.trans hwait
  | bad hbad => cases hv.symm.trans hbad
  | stop hv' _ =>
    obtain ⟨e, he, hafter⟩ := hlate _
    cases hafter.symm.trans (hin e he)
  | frame hv' _ hrest =>
    obtain ⟨e, he, hafter⟩ := hlate _
    cases hafter.symm.trans (hin e (hrest.mem_handed he))

/-- Without a frame nothing is handed over. -/
theorem handed_of_no_frame (h : V.Serves s b s' b')
    (hnone : ∀ n, V.framing.verdict b ≠ .frame n) : s'.handed = s.handed := by
  cases h with
  | wait | bad => rfl
  | stop hv _ => exact absurd hv (hnone _)
  | frame hv _ _ => exact absurd hv (hnone _)

/-- **Nothing is handed over late, exactly if no frame that closes the connection and lets
    the loop go on is followed by another.** -/
theorem inTime_iff (h : V.Serves s b s' b') (hopen : s.closed = false) (hs : s.InTime) :
    s'.InTime ↔ ¬ V.Late s.state b := by
  induction h with
  | wait hv | bad hv =>
    refine iff_of_true hs fun hlate => ?_
    obtain ⟨n, hframe⟩ := hlate.frame
    cases hv.symm.trans hframe
  | @stop s b n hv hstops =>
    refine iff_of_true (hand_inTime hopen hs _) ?_
    rintro (⟨hv', hgoes, -, -⟩ | ⟨hv', hgoes, -⟩) <;>
      · cases hv.symm.trans hv'
        rw [hstops] at hgoes
        cases hgoes
  | @frame s b n s' b' hv hgoes hrest ih =>
    have hin := hand_inTime (V := V) hopen hs (b.take n)
    rcases hcloses : (V.serve s.state (b.take n)).closes with _ | _
    · have hstill : (V.hand s (b.take n)).closed = false := by rw [hand, hopen, hcloses]; rfl
      rw [ih hstill hin, not_iff_not]
      constructor
      · exact .behind hv hgoes
      · rintro (⟨hv', -, hcloses', -⟩ | ⟨hv', -, hlate⟩)
        · cases hv.symm.trans hv'
          rw [hcloses] at hcloses'
          cases hcloses'
        · cases hv.symm.trans hv'
          exact hlate
    · have hclosed : (V.hand s (b.take n)).closed = true := by rw [hand, hcloses, Bool.or_true]
      by_cases hnext : ∃ m, V.framing.verdict (b.drop n) = .frame m
      · obtain ⟨m, hnext⟩ := hnext
        exact iff_of_false (hrest.not_inTime hclosed hnext)
          (not_not_intro (.here hv hgoes hcloses hnext))
      · rw [not_exists] at hnext
        refine iff_of_true ?_ ?_
        · intro e he
          rw [hrest.handed_of_no_frame hnext] at he
          exact hin e he
        · rintro (⟨hv', -, -, hframe⟩ | ⟨hv', -, hlate⟩)
          · cases hv.symm.trans hv'
            exact hnext _ hframe
          · cases hv.symm.trans hv'
            obtain ⟨m, hframe⟩ := hlate.frame
            exact hnext m hframe

end Serves

end Service

end Jengine.Lib
