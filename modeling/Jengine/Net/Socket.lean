import Jengine.Net.Passes

/-!
# A client and the bytes of the other side

What the other side has sent and `readv` has not returned waits in the socket; a readable
event takes some of it.  What holds after every call of `OnReceive` holds in every run, for
the bytes that have been taken (`run_taken`).
-/

namespace Jengine.Net

open Jengine.Lib Jengine.Memory

/-- A client that is connected, and what its socket holds for it. -/
structure Socket (δ : Type) where
  client : Client δ
  pending : List UInt8

namespace Socket

variable {δ : Type}

inductive Action where
  /-- The other side has sent some bytes. -/
  | arrive (bs : List UInt8)
  | readable (answers : List Client.Ready)
  /-- Other code calls `Close`. -/
  | close

def step (onReceive : Nat → Client δ → Client δ) (s : Socket δ) : Action → Socket δ
  | .arrive bs => { s with pending := s.pending ++ bs }
  | .readable answers =>
      let r := Client.onEventIOReadable onReceive answers s.client s.pending
      ⟨r.1, r.2⟩
  | .close => { s with client := s.client.close }

/-- All that the other side has sent. -/
def arrived (as : List Action) : List UInt8 :=
  as.flatMap fun
    | .arrive bs => bs
    | _ => []

variable {onReceive : Nat → Client δ → Client δ}

/-- **The rule of the read loop.**  What every pass keeps, with the bytes that it takes, holds
    after every run. -/
theorem run_taken {I : Client δ → List UInt8 → Prop}
    (hreceives : ∀ c bs new, I c bs → c.Receives new →
      I (c.pass onReceive (.bytes new)) (bs ++ new))
    (hrests : ∀ c bs a, I c bs → (∀ new, a = .bytes new → ¬ c.Receives new) →
      I (c.pass onReceive a) bs)
    {c : Client δ} (hc : I c []) (as : List Action) :
    ∃ taken, arrived as = taken ++ (run (step onReceive) ⟨c, []⟩ as).pending ∧
      I (run (step onReceive) ⟨c, []⟩ as).client taken := by
  -- a run of passes takes the bytes that it is given
  have hpasses : ∀ (ps : List Pass) (c : Client δ) (bs : List UInt8), I c bs →
      Along (Client.pass onReceive) (fun c a => ∀ bs, a = .bytes bs → c.Receives bs) c ps →
      I (run (Client.pass onReceive) c ps) (bs ++ ps.flatMap Pass.given) := by
    intro ps
    induction ps with
    | nil =>
      intro c bs h _
      rw [List.flatMap_nil, List.append_nil]
      exact h
    | cons a ps ih =>
      intro c bs h halong
      rw [List.flatMap_cons, ← List.append_assoc]
      refine ih _ _ ?_ halong.2
      cases a with
      | bytes new => exact hreceives c bs new h (halong.1 new rfl)
      | again | eof | error | close =>
        rw [Pass.given, List.append_nil]
        · exact hrests c bs _ h fun new heq => by cases heq
        · exact fun new heq => by cases heq
  have hrun : ∀ (as : List Action) (s : Socket δ) (bs : List UInt8), I s.client bs →
      ∃ taken, bs ++ s.pending ++ arrived as = taken ++ (run (step onReceive) s as).pending ∧
        I (run (step onReceive) s as).client taken := by
    intro as
    induction as with
    | nil => exact fun s bs h => ⟨bs, List.append_nil _, h⟩
    | cons a as ih =>
      intro s bs h
      have harrived : arrived (a :: as) = arrived [a] ++ arrived as := by
        rw [arrived, arrived, arrived, ← List.flatMap_append]
        rfl
      rw [harrived, run_cons]
      cases a with
      | arrive new =>
        obtain ⟨taken, heq, hI⟩ := ih { s with pending := s.pending ++ new } bs h
        have hone : arrived [.arrive new] = new := List.append_nil _
        refine ⟨taken, Eq.trans ?_ heq, hI⟩
        rw [hone, List.append_assoc, List.append_assoc, List.append_assoc]
      | readable answers =>
        obtain ⟨ps, hps, hgiven, halong⟩ :=
          Client.onEventIOReadable_passes onReceive answers s.client s.pending
        have hnext := hpasses ps s.client bs h halong
        rw [← hps] at hnext
        obtain ⟨taken, heq, hI⟩ := ih (s.step onReceive (.readable answers)) _ hnext
        refine ⟨taken, Eq.trans ?_ heq, hI⟩
        have hmoved : bs ++ s.pending = bs ++ ps.flatMap Pass.given ++
            (s.step onReceive (.readable answers)).pending := by
          rw [List.append_assoc]
          exact congrArg (bs ++ ·) hgiven
        exact congrArg (· ++ arrived as) hmoved
      | close =>
        obtain ⟨taken, heq, hI⟩ := ih (s.step onReceive .close) bs
          (hrests s.client bs .close h nofun)
        exact ⟨taken, heq, hI⟩
  obtain ⟨taken, heq, hI⟩ := hrun as ⟨c, []⟩ [] hc
  exact ⟨taken, heq, hI⟩

end Socket

end Jengine.Net
