import Mathlib.Algebra.Order.Group.Int
import Mathlib.Data.List.Induction

/-!
# Actions

The classes of actions of `base/action`, each with its `OnUpdate` and its `IsDone`, and what
becomes of an action that is updated once in each frame until it is done.
-/

namespace Jengine.Action

/-- The arguments of `ActionManager::Update`. -/
structure Frame where
  tick : Int64
  span : Int32
deriving DecidableEq

inductive Kind where
  /-- `ActionNextCall`. -/
  | nextCall (executed : Bool)
  /-- `ActionTimeout`. -/
  | timeout (delay acc : Int32)
  /-- `ActionInterval`, with the members of `ActionLuaInterval`
      (`base/lua/internal/lua-timer.cpp`).  `outcome n` is what the Lua function does after `n`
      calls: `none` if it has been collected, else whether it fails or returns true. -/
  | luaInterval (interval acc : Int32) (done : Bool) (calls : Nat) (outcome : Nat → Option Bool)

namespace Kind

/-- `OnUpdate`, and whether it calls `OnExecute`, `OnTimeout` or `OnInterval`. -/
def onUpdate (span : Int32) : Kind → Kind × Bool
  | .nextCall executed => (.nextCall true, !executed)
  | .timeout delay acc => (.timeout delay (acc + span), decide (delay ≤ acc + span))
  | .luaInterval interval acc done calls outcome =>
      if interval ≤ acc + span then
        (.luaInterval interval 0 ((outcome calls).getD done) (calls + 1) outcome, true)
      else (.luaInterval interval (acc + span) done calls outcome, false)

def isDone : Kind → Bool
  | .nextCall executed => executed
  | .timeout delay acc => decide (delay ≤ acc)
  | .luaInterval _ _ done _ _ => done

end Kind

/-- An action that is updated in every frame until it is done. -/
structure Alone where
  kind : Kind
  /-- The ticks its callback has been called with. -/
  ticks : List Int64
  ended : Bool

namespace Alone

/-- What `Update` does with the action, and what it leaves undone when the action is over. -/
def frame (a : Alone) (f : Frame) : Alone :=
  if a.ended then a
  else
    let (kind, fires) := a.kind.onUpdate f.span
    ⟨kind, if fires then a.ticks ++ [f.tick] else a.ticks, kind.isDone⟩

end Alone

/-- What becomes of an action in the frames `fs`. -/
def alone (kind : Kind) (fs : List Frame) : Alone := fs.foldl Alone.frame ⟨kind, [], false⟩

/-- The time that has passed in the frames `fs`. -/
def elapsed : List Frame → Int
  | [] => 0
  | f :: fs => f.span.toInt + elapsed fs

/-- The sum of `acc` and any of the spans fits, as long as `acc` is less than `bound`. -/
def Fits (bound : Int32) (fs : List Frame) : Prop :=
  ∀ f ∈ fs, 0 ≤ f.span.toInt ∧ bound.toInt + f.span.toInt < 2 ^ 31

instance (bound : Int32) (fs : List Frame) : Decidable (Fits bound fs) :=
  inferInstanceAs (Decidable (∀ f ∈ fs, _))

variable {kind : Kind} {fs gs : List Frame} {f : Frame}

@[simp] theorem alone_nil (kind : Kind) : alone kind [] = ⟨kind, [], false⟩ := rfl

@[simp] theorem alone_concat (kind : Kind) (fs : List Frame) (f : Frame) :
    alone kind (fs ++ [f]) = (alone kind fs).frame f := by
  simp [alone]

@[simp] theorem elapsed_nil : elapsed [] = 0 := rfl

@[simp] theorem elapsed_concat (fs : List Frame) (f : Frame) :
    elapsed (fs ++ [f]) = elapsed fs + f.span.toInt := by
  induction fs with
  | nil => simp [elapsed]
  | cons g fs ih => simp [elapsed, ih, Int.add_assoc]

theorem frame_ended {a : Alone} (h : a.ended = true) (f : Frame) : a.frame f = a := by
  simp [Alone.frame, h]

/-- What is over stays as it is. -/
theorem alone_of_prefix (hfs : fs <+: gs) (h : (alone kind fs).ended = true) :
    alone kind gs = alone kind fs := by
  obtain ⟨hs, rfl⟩ := hfs
  induction hs using List.reverseRecOn with
  | nil => rw [List.append_nil]
  | append_singleton hs f ih =>
    rw [← List.append_assoc, alone_concat, ih, frame_ended h]

theorem Fits.of_concat {bound : Int32} (h : Fits bound (fs ++ [f])) :
    Fits bound fs ∧ 0 ≤ f.span.toInt ∧ bound.toInt + f.span.toInt < 2 ^ 31 :=
  ⟨fun g hg => h g (List.mem_append_left _ hg), h f (by simp)⟩

theorem Fits.elapsed_nonneg {bound : Int32} (h : Fits bound fs) : 0 ≤ elapsed fs := by
  induction fs with
  | nil => exact Int.le_refl 0
  | cons f fs ih =>
    exact Int.add_nonneg (h f List.mem_cons_self).1 (ih fun g hg => h g (List.mem_cons_of_mem f hg))

/-- `acc_ += span`, when `acc_` is what has passed without reaching the bound. -/
theorem toInt_acc {bound acc : Int32} (h : Fits bound (fs ++ [f])) (hacc : acc.toInt = elapsed fs)
    (hless : fs = [] ∨ elapsed fs < bound.toInt) : (acc + f.span).toInt = elapsed (fs ++ [f]) := by
  obtain ⟨hfs, hspan, hroom⟩ := h.of_concat
  have hpos := hfs.elapsed_nonneg
  have hf := f.span.toInt_lt
  have hlt : elapsed fs + f.span.toInt < 2 ^ 31 := by
    rcases hless with rfl | hless
    · simpa using hf
    · omega
  rw [Int32.toInt_add, hacc, elapsed_concat]
  apply Int.bmod_eq_of_le <;> omega

/-! ### Timeouts -/

/-- **A timeout is called once, in the first frame in which its delay has passed.** -/
theorem alone_timeout {delay : Int32} (hfs : Fits delay fs) :
    let a := alone (.timeout delay 0) fs
    (a.ended = false ∧ a.ticks = [] ∧ (fs = [] ∨ elapsed fs < delay.toInt)) ∨
      ∃ before f after, fs = before ++ f :: after ∧ a.ended = true ∧ a.ticks = [f.tick] ∧
        (before = [] ∨ elapsed before < delay.toInt) ∧
        delay.toInt ≤ elapsed (before ++ [f]) := by
  -- as long as it is not over, `acc_` is what has passed
  suffices h : (∃ acc : Int32, alone (.timeout delay 0) fs = ⟨.timeout delay acc, [], false⟩ ∧
      acc.toInt = elapsed fs ∧ (fs = [] ∨ elapsed fs < delay.toInt)) ∨
      ∃ before f after, fs = before ++ f :: after ∧ (alone (.timeout delay 0) fs).ended = true ∧
        (alone (.timeout delay 0) fs).ticks = [f.tick] ∧
        (before = [] ∨ elapsed before < delay.toInt) ∧
        delay.toInt ≤ elapsed (before ++ [f]) by
    rcases h with ⟨acc, ha, -, hless⟩ | h
    · left
      rw [ha]
      exact ⟨rfl, rfl, hless⟩
    · exact Or.inr h
  induction fs using List.reverseRecOn with
  | nil => exact Or.inl ⟨0, rfl, rfl, Or.inl rfl⟩
  | append_singleton fs f ih =>
    rcases ih hfs.of_concat.1 with ⟨acc, ha, hacc, hless⟩ | ⟨before, g, after, rfl, hended, ht, hb⟩
    · have hsum := toInt_acc hfs hacc hless
      have hle : delay ≤ acc + f.span ↔ delay.toInt ≤ elapsed (fs ++ [f]) := by
        rw [Int32.le_iff_toInt_le, hsum]
      by_cases hreached : delay ≤ acc + f.span
      · right
        refine ⟨fs, f, [], rfl, ?_, ?_, hless, hle.mp hreached⟩
        · simp [ha, Alone.frame, Kind.onUpdate, Kind.isDone, hreached]
        · simp [ha, Alone.frame, Kind.onUpdate, hreached]
      · left
        refine ⟨acc + f.span, ?_, hsum, Or.inr (Int.not_le.mp (mt hle.mpr hreached))⟩
        simp [ha, Alone.frame, Kind.onUpdate, Kind.isDone, hreached]
    · right
      refine ⟨before, g, after ++ [f], by simp, ?_⟩
      rw [alone_concat, frame_ended hended]
      exact ⟨hended, ht, hb⟩

/-! ### Intervals -/

/-- The frames up to a call, and the frame of the call. -/
abbrev Beat := List Frame × Frame

def Beat.frames (b : Beat) : List Frame := b.1 ++ [b.2]

/-- The frame of the call is the first one in which the interval has passed. -/
def Beat.Right (interval : Int32) (b : Beat) : Prop :=
  (b.1 = [] ∨ elapsed b.1 < interval.toInt) ∧ interval.toInt ≤ elapsed b.frames

theorem Fits.of_append_right {bound : Int32} (h : Fits bound (fs ++ gs)) : Fits bound gs :=
  fun f hf => h f (List.mem_append_right _ hf)

/-- **An interval is called each time it has passed since the last call**, up to the call that
    returns true or fails. -/
theorem alone_luaInterval {interval : Int32} (outcome : Nat → Option Bool)
    (hfs : Fits interval fs) :
    let a := alone (.luaInterval interval 0 false 0 outcome) fs
    ∃ beats : List Beat, ∃ rest, fs = beats.flatMap Beat.frames ++ rest ∧
      (∀ b ∈ beats, b.Right interval) ∧ a.ticks = beats.map (fun b => b.2.tick) ∧
      (∀ n, n + 1 < beats.length → outcome n ≠ some true) ∧
      if a.ended then ∃ n, beats.length = n + 1 ∧ outcome n = some true
      else (rest = [] ∨ elapsed rest < interval.toInt) ∧
        ∀ n, n < beats.length → outcome n ≠ some true := by
  -- as long as it is not over, `acc_` is what has passed since the last call
  suffices h : ∃ beats : List Beat, ∃ rest, fs = beats.flatMap Beat.frames ++ rest ∧
      (∀ b ∈ beats, b.Right interval) ∧
      (alone (.luaInterval interval 0 false 0 outcome) fs).ticks =
        beats.map (fun b => b.2.tick) ∧
      (∀ n, n + 1 < beats.length → outcome n ≠ some true) ∧
      (((alone (.luaInterval interval 0 false 0 outcome) fs).ended = true ∧
          ∃ n, beats.length = n + 1 ∧ outcome n = some true) ∨
        ((∃ acc : Int32, (alone (.luaInterval interval 0 false 0 outcome) fs).kind =
            .luaInterval interval acc false beats.length outcome ∧ acc.toInt = elapsed rest) ∧
          (alone (.luaInterval interval 0 false 0 outcome) fs).ended = false ∧
          (rest = [] ∨ elapsed rest < interval.toInt) ∧
          ∀ n, n < beats.length → outcome n ≠ some true)) by
    obtain ⟨beats, rest, hsplit, hright, hticks, hearlier, hstate⟩ := h
    refine ⟨beats, rest, hsplit, hright, hticks, hearlier, ?_⟩
    rcases hstate with ⟨hended, hlast⟩ | ⟨-, hended, hrest⟩
    · simpa [hended] using hlast
    · simpa [hended] using hrest
  induction fs using List.reverseRecOn with
  | nil =>
    refine ⟨[], [], rfl, by simp, rfl, by simp, Or.inr ⟨⟨0, rfl, rfl⟩, rfl, Or.inl rfl, by simp⟩⟩
  | append_singleton fs f ih =>
    obtain ⟨beats, rest, hsplit, hright, hticks, hearlier, hstate⟩ := ih hfs.of_concat.1
    rcases hstate with ⟨hended, hlast⟩ | ⟨⟨acc, hkind, hacc⟩, hended, hless, hnone⟩
    · refine ⟨beats, rest ++ [f], by simp [hsplit], hright, ?_, hearlier, Or.inl ⟨?_, hlast⟩⟩
      · rw [alone_concat, frame_ended hended, hticks]
      · rw [alone_concat, frame_ended hended, hended]
    · have hfits : Fits interval (rest ++ [f]) := by
        rw [hsplit, List.append_assoc] at hfs
        exact hfs.of_append_right
      have hsum := toInt_acc hfits hacc hless
      have hle : interval ≤ acc + f.span ↔ interval.toInt ≤ elapsed (rest ++ [f]) := by
        rw [Int32.le_iff_toInt_le, hsum]
      by_cases hreached : interval ≤ acc + f.span
      · -- a call
        have hframe : alone (.luaInterval interval 0 false 0 outcome) (fs ++ [f]) =
            ⟨.luaInterval interval 0 ((outcome beats.length).getD false) (beats.length + 1) outcome,
              beats.map (fun b => b.2.tick) ++ [f.tick], (outcome beats.length).getD false⟩ := by
          simp [Alone.frame, hended, hkind, Kind.onUpdate, Kind.isDone, hreached, hticks]
        refine ⟨beats ++ [(rest, f)], [], by simp [hsplit, Beat.frames], ?_, ?_, ?_, ?_⟩
        · intro b hb
          rcases List.mem_append.mp hb with hb | hb
          · exact hright b hb
          · rw [List.mem_singleton.mp hb]
            exact ⟨hless, hle.mp hreached⟩
        · simp [hframe]
        · intro n hn
          apply hnone
          simpa using hn
        · rw [hframe]
          by_cases htrue : outcome beats.length = some true
          · left
            exact ⟨by simp [htrue], beats.length, by simp, htrue⟩
          · right
            have hfalse : (outcome beats.length).getD false = false := by
              rcases h : outcome beats.length with _ | _ | _
              · rfl
              · rfl
              · exact absurd h htrue
            refine ⟨⟨0, by simp [hfalse], rfl⟩, hfalse, Or.inl rfl, ?_⟩
            intro n hn
            rcases Nat.lt_succ_iff_lt_or_eq.mp (by simpa using hn) with hn | rfl
            · exact hnone n hn
            · exact htrue
      · refine ⟨beats, rest ++ [f], by simp [hsplit], hright, ?_, hearlier, Or.inr ⟨?_, ?_, ?_⟩⟩
        · simp [Alone.frame, hended, hkind, Kind.onUpdate, hreached, hticks]
        · refine ⟨acc + f.span, ?_, hsum⟩
          simp [Alone.frame, hended, hkind, Kind.onUpdate, hreached]
        · simp [Alone.frame, hended, hkind, Kind.onUpdate, Kind.isDone, hreached]
        · exact ⟨Or.inr (Int.not_le.mp (mt hle.mpr hreached)), hnone⟩

end Jengine.Action
