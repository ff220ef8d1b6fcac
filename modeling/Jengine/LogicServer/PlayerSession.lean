import Jengine.Lib.Runs
import Mathlib.Data.List.Range
import Mathlib.Logic.Function.Basic

/-!
# The components of a player session

`PlayerSession` (`logicserver/playersession.cpp`) sets up its components one after
the other and cleans them up in the reverse order.  `cursor_` is the number of
components that are set up; while they are cleaned up it is the component whose
cleanup has begun.

A component reports that its setup or cleanup is complete by `OnCompSetup` and
`OnCompCleanup`, either at once, inside `BeginSetup` or `BeginCleanup`, or later.
Which of the two is a property of the component here; a later report is a step
of its own.
-/

namespace Jengine.LogicServer

open Jengine.Lib

/-- What the session uses of a `ComponentBase`. -/
structure Component where
  compName : String
  /-- `uid()` of the character. -/
  uid : Nat
  /-- `BeginSetup` calls `OnCompSetup` before it returns. -/
  setsUpAtOnce : Bool
  /-- `BeginCleanup` calls `OnCompCleanup` before it returns. -/
  cleansUpAtOnce : Bool

/-- What the session does. -/
inductive Event where
  | beginSetup (i : Nat)
  | onCompSetup (i : Nat)
  /-- `Cast_LoginEnd`: all components are set up. -/
  | castLoginEnd
  | onUserClientClose
  | beginCleanup (i : Nat)
  | onCompCleanup (i : Nat)
  /-- `LocalWorld::Delete`. -/
  | delete
deriving DecidableEq, Repr

/-- A report that a component owes. -/
inductive Report where
  | setup (i : Nat)
  | cleanup (i : Nat)
deriving DecidableEq, Repr

structure PlayerSession where
  components : List Component
  cursor : Nat
  ready : Bool
  /-- `timeout_linker_` is set. -/
  timer : Bool
  uid : Nat
  /-- The pointers to the components, by the names the session knows. -/
  members : String → Option Nat
  /-- `components_[cursor_]` was used behind the end. -/
  badIndex : Bool
  owed : Option Report
  log : List Event

namespace PlayerSession

/-- The names that `OnCompSetup` and `OnCompCleanup` know. -/
def memberNames : List String :=
  ["ping", "character", "qqapi", "dict", "bag", "map", "game", "spell", "buff", "property", "chat",
    "mail", "cdlist", "friend", "poly", "task"]

/-- The constructor, with the components of `Setup`. -/
def new (components : List Component) : PlayerSession where
  components := components
  cursor := 0
  ready := false
  timer := false
  uid := 0
  members := fun _ => none
  badIndex := false
  owed := none
  log := []

def emit (s : PlayerSession) (e : Event) : PlayerSession := { s with log := s.log ++ [e] }

def setMember (s : PlayerSession) (name : String) (i : Option Nat) : PlayerSession :=
  -- "unknown component"
  if name ∈ memberNames then { s with members := Function.update s.members name i } else s

/-- `OnCompSetup` up to `++cursor_`. -/
def foundComponent (s : PlayerSession) (i : Nat) (c : Component) : PlayerSession :=
  let s := (s.emit (.onCompSetup i)).setMember c.compName (some i)
  { s with uid := if c.compName = "character" then c.uid else s.uid
           cursor := s.cursor + 1, owed := none }

/-- All components have been set up. -/
def allSetUp (s : PlayerSession) : PlayerSession :=
  { s.emit .castLoginEnd with ready := true, timer := true }

/-- `components_[cursor_]->BeginSetup()`, and what follows a report that is made at once. -/
def beginSetup : Nat → PlayerSession → PlayerSession
  | 0, s => s
  | fuel + 1, s =>
      match s.components[s.cursor]? with
      | none => { s with badIndex := true }
      | some c =>
          let i := s.cursor
          let s := s.emit (.beginSetup i)
          if c.setsUpAtOnce then
            let s := s.foundComponent i c
            if s.cursor = s.components.length then s.allSetUp else beginSetup fuel s
          else { s with owed := some (.setup i) }

/-- `Setup`. -/
def setup (s : PlayerSession) : PlayerSession := s.beginSetup (s.components.length + 1)

/-- `OnCompSetup`, later. -/
def onCompSetup (s : PlayerSession) (i : Nat) : PlayerSession :=
  match s.components[i]? with
  | none => s
  | some c =>
      let s := s.foundComponent i c
      if s.cursor = s.components.length then s.allSetUp
      else s.beginSetup (s.components.length + 1)

/-- `OnCompCleanup` up to the test of `cursor_`. -/
def lostComponent (s : PlayerSession) (i : Nat) (c : Component) : PlayerSession :=
  { (s.emit (.onCompCleanup i)).setMember c.compName none with owed := none }

/-- `LocalWorld::Delete`. -/
def delete (s : PlayerSession) : PlayerSession := { s.emit .delete with owed := none }

/-- `components_[cursor_]->BeginCleanup()`, and what follows a report that is made at once. -/
def beginCleanup : Nat → PlayerSession → PlayerSession
  | 0, s => s
  | fuel + 1, s =>
      match s.components[s.cursor]? with
      | none => { s with badIndex := true }
      | some c =>
          let i := s.cursor
          let s := s.emit (.beginCleanup i)
          if c.cleansUpAtOnce then
            let s := s.lostComponent i c
            if s.cursor = 0 then s.delete
            else beginCleanup fuel { s with cursor := s.cursor - 1 }
          else { s with owed := some (.cleanup i) }

/-- `OnCompCleanup`, later. -/
def onCompCleanup (s : PlayerSession) (i : Nat) : PlayerSession :=
  match s.components[i]? with
  | none => s
  | some c =>
      let s := s.lostComponent i c
      if s.cursor = 0 then s.delete
      else beginCleanup (s.cursor + 1) { s with cursor := s.cursor - 1 }

/-- `OnUserClientClose`.  `components_.back()` is `components_[cursor_]` after `--cursor_`. -/
def onUserClientClose (s : PlayerSession) : PlayerSession :=
  let s := { s.emit .onUserClientClose with timer := false, ready := false }
  if s.cursor = s.components.length then
    beginCleanup (s.cursor + 1) { s with cursor := s.cursor - 1 }
  else s.delete

/-- Between two events. -/
inductive Action where
  /-- A component makes the report that it owes. -/
  | report
  /-- The client is closed, once. -/
  | close

/-- After `Delete` there is no session. -/
def step (s : PlayerSession) (a : Action) : PlayerSession :=
  if .delete ∈ s.log then s
  else
    match a with
    | .report =>
        match s.owed with
        | none => s
        | some (.setup i) => s.onCompSetup i
        | some (.cleanup i) => s.onCompCleanup i
    | .close => if .onUserClientClose ∈ s.log then s else s.onUserClientClose

/-! ### The life of a session -/

/-- The setups of the first `m` components. -/
def setups (m : Nat) : List Event :=
  (List.range m).flatMap fun i => [.beginSetup i, .onCompSetup i]

/-- The cleanups of the last `k` of `n` components. -/
def cleanups (n k : Nat) : List Event :=
  (List.range k).flatMap fun j => [.beginCleanup (n - 1 - j), .onCompCleanup (n - 1 - j)]

/-- What a session with `n` components has done, between two events, with its cursor and the
    report that a component owes it. -/
inductive Life (n : Nat) : List Event → Nat → Option Report → Prop
  | settingUp (m : Nat) : m < n → Life n (setups m ++ [.beginSetup m]) m (some (.setup m))
  | running : Life n (setups n ++ [.castLoginEnd]) n none
  | abandoned (m : Nat) : m < n →
      Life n (setups m ++ [.beginSetup m, .onUserClientClose, .delete]) m none
  | cleaningUp (k : Nat) : k < n →
      Life n (setups n ++ [.castLoginEnd, .onUserClientClose] ++ cleanups n k ++
        [.beginCleanup (n - 1 - k)]) (n - 1 - k) (some (.cleanup (n - 1 - k)))
  | cleanedUp :
      Life n (setups n ++ [.castLoginEnd, .onUserClientClose] ++ cleanups n n ++ [.delete]) 0 none

/-- A session with the given components leads a life, and has used no component behind the
    end. -/
structure Orderly (components : List Component) (s : PlayerSession) : Prop where
  same : s.components = components
  inBounds : s.badIndex = false
  life : Life components.length s.log s.cursor s.owed

variable {components : List Component} {s : PlayerSession}

theorem setups_succ (m : Nat) : setups (m + 1) = setups m ++ [.beginSetup m, .onCompSetup m] := by
  simp [setups, List.range_succ]

theorem cleanups_succ (n k : Nat) :
    cleanups n (k + 1) = cleanups n k ++ [.beginCleanup (n - 1 - k), .onCompCleanup (n - 1 - k)] := by
  simp [cleanups, List.range_succ]

theorem mem_setups {e : Event} {m : Nat} :
    e ∈ setups m ↔ ∃ i < m, e = .beginSetup i ∨ e = .onCompSetup i := by
  simp [setups]

theorem mem_cleanups {e : Event} {n k : Nat} :
    e ∈ cleanups n k ↔
      ∃ j < k, e = .beginCleanup (n - 1 - j) ∨ e = .onCompCleanup (n - 1 - j) := by
  simp [cleanups]

/-- From `s` to `s'` the events `es` were added; the components are the same. -/
structure Adds (s s' : PlayerSession) (cursor : Nat) (es : List Event) : Prop where
  components : s'.components = s.components
  badIndex : s'.badIndex = s.badIndex
  cursor : s'.cursor = cursor
  owed : s'.owed = none
  log : s'.log = s.log ++ es

theorem setMember_eq (s : PlayerSession) (name : String) (i : Option Nat) :
    ∃ members, s.setMember name i = { s with members := members } := by
  unfold setMember
  split
  · exact ⟨_, rfl⟩
  · exact ⟨s.members, rfl⟩

theorem foundComponent_adds (s : PlayerSession) (i : Nat) (c : Component) :
    Adds s (s.foundComponent i c) (s.cursor + 1) [.onCompSetup i] := by
  obtain ⟨members, heq⟩ := setMember_eq (s.emit (.onCompSetup i)) c.compName (some i)
  unfold foundComponent
  rw [heq]
  exact ⟨rfl, rfl, rfl, rfl, rfl⟩

theorem lostComponent_adds (s : PlayerSession) (i : Nat) (c : Component) :
    Adds s (s.lostComponent i c) s.cursor [.onCompCleanup i] := by
  obtain ⟨members, heq⟩ := setMember_eq (s.emit (.onCompCleanup i)) c.compName none
  unfold lostComponent
  rw [heq]
  exact ⟨rfl, rfl, rfl, rfl, rfl⟩

/-! ### Setting up -/

/-- The components before the cursor are set up, and nothing else was done. -/
structure SetUp (components : List Component) (s : PlayerSession) : Prop where
  same : s.components = components
  inBounds : s.badIndex = false
  log : s.log = setups s.cursor
  owed : s.owed = none

theorem SetUp.found {s : PlayerSession} (h : SetUp components s) (c : Component) :
    SetUp components ((s.emit (.beginSetup s.cursor)).foundComponent s.cursor c) := by
  obtain ⟨hcomponents, hbounds, hcursor, howed, hlog⟩ :=
    foundComponent_adds (s.emit (.beginSetup s.cursor)) s.cursor c
  refine ⟨hcomponents.trans h.same, hbounds.trans h.inBounds, ?_, howed⟩
  rw [hlog, hcursor]
  show s.log ++ [.beginSetup s.cursor] ++ [.onCompSetup s.cursor] = setups (s.cursor + 1)
  rw [h.log, setups_succ, List.append_assoc]
  rfl

theorem SetUp.all {s : PlayerSession} (h : SetUp components s) (hall : s.cursor = components.length) :
    Orderly components s.allSetUp := by
  refine ⟨h.same, h.inBounds, ?_⟩
  show Life components.length (s.log ++ [.castLoginEnd]) s.cursor s.owed
  rw [h.log, h.owed, hall]
  exact .running

/-- The setup goes on to a component that does not report at once, or to the end. -/
theorem SetUp.beginSetup : ∀ {fuel : Nat} {s : PlayerSession}, SetUp components s →
    s.cursor < components.length → components.length ≤ fuel + s.cursor →
    Orderly components (s.beginSetup fuel) := by
  intro fuel
  induction fuel with
  | zero =>
      intro s _ hlt hfuel
      omega
  | succ fuel ih =>
      intro s h hlt hfuel
      have hsome : s.components[s.cursor]? = some (components[s.cursor]) := by
        rw [h.same]
        exact List.getElem?_eq_getElem hlt
      simp only [PlayerSession.beginSetup, hsome]
      split
      · have hfound := h.found components[s.cursor]
        have hcursor := (foundComponent_adds (s.emit (.beginSetup s.cursor)) s.cursor
          components[s.cursor]).cursor
        generalize (s.emit (.beginSetup s.cursor)).foundComponent s.cursor components[s.cursor] = t
          at hfound hcursor
        replace hcursor : t.cursor = s.cursor + 1 := hcursor
        rw [hfound.same]
        split
        · rename_i hall
          exact hfound.all hall
        · exact ih hfound (by omega) (by omega)
      · refine ⟨h.same, h.inBounds, ?_⟩
        show Life components.length (s.log ++ [.beginSetup s.cursor]) s.cursor _
        rw [h.log]
        exact .settingUp s.cursor hlt

/-- `Setup` of a session that has components. -/
theorem setup_orderly (hne : components ≠ []) : Orderly components (new components).setup := by
  have hnew : SetUp components (new components) := ⟨rfl, rfl, rfl, rfl⟩
  apply hnew.beginSetup (List.length_pos_of_ne_nil hne)
  show components.length ≤ components.length + 1 + 0
  omega

/-- A component reports later that it is set up. -/
theorem onCompSetup_orderly {m : Nat} (hm : m < components.length) (hsame : s.components = components)
    (hbounds : s.badIndex = false) (hlog : s.log = setups m ++ [.beginSetup m])
    (hcursor : s.cursor = m) : Orderly components (s.onCompSetup m) := by
  have hsome : s.components[m]? = some (components[m]) := by
    rw [hsame]
    exact List.getElem?_eq_getElem hm
  obtain ⟨hcomponents', hbounds', hcursor', howed', hlog'⟩ := foundComponent_adds s m components[m]
  have hfound : SetUp components (s.foundComponent m components[m]) := by
    refine ⟨hcomponents'.trans hsame, hbounds'.trans hbounds, ?_, howed'⟩
    rw [hlog', hcursor', hlog, hcursor, setups_succ, List.append_assoc]
    rfl
  simp only [onCompSetup, hsome]
  rw [hfound.same]
  split
  · rename_i hall
    exact hfound.all hall
  · exact hfound.beginSetup (by omega) (by omega)

/-! ### Cleaning up -/

/-- The client was closed after everything was set up, and `k` components are cleaned up. -/
structure CleanedUp (components : List Component) (k : Nat) (s : PlayerSession) : Prop where
  same : s.components = components
  inBounds : s.badIndex = false
  log : s.log = setups components.length ++ [.castLoginEnd, .onUserClientClose] ++
    cleanups components.length k
  owed : s.owed = none

theorem CleanedUp.lost {k : Nat} {s : PlayerSession} (h : CleanedUp components k s)
    (hcursor : s.cursor = components.length - 1 - k) (c : Component) :
    CleanedUp components (k + 1) ((s.emit (.beginCleanup s.cursor)).lostComponent s.cursor c) := by
  obtain ⟨hcomponents, hbounds, -, howed, hlog⟩ :=
    lostComponent_adds (s.emit (.beginCleanup s.cursor)) s.cursor c
  refine ⟨hcomponents.trans h.same, hbounds.trans h.inBounds, ?_, howed⟩
  rw [hlog]
  show s.log ++ [.beginCleanup s.cursor] ++ [.onCompCleanup s.cursor] = _
  rw [h.log, cleanups_succ, hcursor]
  simp only [List.append_assoc]
  rfl

theorem CleanedUp.all {s : PlayerSession} (h : CleanedUp components components.length s)
    (hcursor : s.cursor = 0) : Orderly components s.delete := by
  refine ⟨h.same, h.inBounds, ?_⟩
  show Life components.length (s.log ++ [.delete]) s.cursor none
  rw [h.log, hcursor]
  exact .cleanedUp

theorem CleanedUp.setCursor {k : Nat} {s : PlayerSession} (h : CleanedUp components k s)
    (cursor : Nat) : CleanedUp components k { s with cursor := cursor } :=
  ⟨h.same, h.inBounds, h.log, h.owed⟩

/-- The cleanup goes on to a component that does not report at once, or to the end. -/
theorem CleanedUp.beginCleanup : ∀ {fuel k : Nat} {s : PlayerSession}, CleanedUp components k s →
    k < components.length → s.cursor = components.length - 1 - k → s.cursor < fuel →
    Orderly components (s.beginCleanup fuel) := by
  intro fuel
  induction fuel with
  | zero =>
      intro k s _ _ _ hfuel
      omega
  | succ fuel ih =>
      intro k s h hk hcursor hfuel
      have hlt : s.cursor < components.length := by omega
      have hsome : s.components[s.cursor]? = some (components[s.cursor]) := by
        rw [h.same]
        exact List.getElem?_eq_getElem hlt
      simp only [PlayerSession.beginCleanup, hsome]
      split
      · have hlost := h.lost hcursor components[s.cursor]
        have hcursor' := (lostComponent_adds (s.emit (.beginCleanup s.cursor)) s.cursor
          components[s.cursor]).cursor
        generalize (s.emit (.beginCleanup s.cursor)).lostComponent s.cursor components[s.cursor] = t
          at hlost hcursor'
        replace hcursor' : t.cursor = s.cursor := hcursor'
        split
        · rename_i hzero
          have hall : k + 1 = components.length := by omega
          rw [hall] at hlost
          exact hlost.all hzero
        · rename_i hpos
          refine ih (hlost.setCursor _) (by omega) ?_ ?_
          · show t.cursor - 1 = components.length - 1 - (k + 1)
            omega
          · show t.cursor - 1 < fuel
            omega
      · refine ⟨h.same, h.inBounds, ?_⟩
        show Life components.length (s.log ++ [.beginCleanup s.cursor]) s.cursor _
        rw [h.log, hcursor]
        exact .cleaningUp k hk

/-- A component reports later that it is cleaned up. -/
theorem onCompCleanup_orderly {k : Nat} (hk : k < components.length) (hsame : s.components = components)
    (hbounds : s.badIndex = false)
    (hlog : s.log = setups components.length ++ [.castLoginEnd, .onUserClientClose] ++
      cleanups components.length k ++ [.beginCleanup (components.length - 1 - k)])
    (hcursor : s.cursor = components.length - 1 - k) :
    Orderly components (s.onCompCleanup (components.length - 1 - k)) := by
  have hlt : components.length - 1 - k < components.length := by omega
  have hsome : s.components[components.length - 1 - k]? =
      some (components[components.length - 1 - k]) := by
    rw [hsame]
    exact List.getElem?_eq_getElem hlt
  simp only [onCompCleanup, hsome]
  obtain ⟨hcomponents', hbounds', hcursor', howed', hlog'⟩ := lostComponent_adds s
    (components.length - 1 - k) components[components.length - 1 - k]
  have hlost : CleanedUp components (k + 1) (s.lostComponent (components.length - 1 - k)
      components[components.length - 1 - k]) := by
    refine ⟨hcomponents'.trans hsame, hbounds'.trans hbounds, ?_, howed'⟩
    rw [hlog', hlog, cleanups_succ]
    simp only [List.append_assoc]
    rfl
  generalize s.lostComponent (components.length - 1 - k)
    components[components.length - 1 - k] = t at hcursor' hlost
  split
  · rename_i hzero
    have hall : k + 1 = components.length := by omega
    rw [hall] at hlost
    exact hlost.all hzero
  · rename_i hpos
    refine (hlost.setCursor _).beginCleanup (by omega) ?_ ?_
    · show t.cursor - 1 = components.length - 1 - (k + 1)
      omega
    · show t.cursor - 1 < t.cursor + 1
      omega

/-- The client is closed after everything was set up. -/
theorem onUserClientClose_of_all (hne : components ≠ []) (hsame : s.components = components)
    (hbounds : s.badIndex = false) (hlog : s.log = setups components.length ++ [.castLoginEnd])
    (hcursor : s.cursor = components.length) (howed : s.owed = none) :
    Orderly components s.onUserClientClose := by
  have hpos := List.length_pos_of_ne_nil hne
  have hbegin : CleanedUp components 0
      { s.emit .onUserClientClose with timer := false, ready := false } := by
    refine ⟨hsame, hbounds, ?_, howed⟩
    show s.log ++ [.onUserClientClose] = _
    rw [hlog, List.append_assoc]
    simp [cleanups]
  simp only [onUserClientClose]
  split
  · refine (hbegin.setCursor _).beginCleanup hpos ?_ ?_
    · show s.cursor - 1 = components.length - 1 - 0
      omega
    · show s.cursor - 1 < s.cursor + 1
      omega
  · rename_i hnot
    exact absurd (hcursor.trans (congrArg List.length hsame).symm) hnot

/-- The client is closed before that. -/
theorem onUserClientClose_of_not_all {m : Nat} (hm : m < components.length)
    (hsame : s.components = components) (hbounds : s.badIndex = false)
    (hlog : s.log = setups m ++ [.beginSetup m]) (hcursor : s.cursor = m) :
    Orderly components s.onUserClientClose := by
  simp only [onUserClientClose]
  split
  · rename_i hall
    have hall' : s.cursor = s.components.length := hall
    rw [hsame] at hall'
    omega
  · refine ⟨hsame, hbounds, ?_⟩
    show Life components.length (s.log ++ [.onUserClientClose] ++ [.delete]) s.cursor none
    rw [hlog, hcursor, List.append_assoc, List.append_assoc]
    exact .abandoned m hm

/-! ### Runs -/

theorem step_orderly (hne : components ≠ []) (h : Orderly components s) (a : Action) :
    Orderly components (s.step a) := by
  obtain ⟨hsame, hbounds, hlife⟩ := h
  generalize hn : components.length = n at hlife
  generalize hlog : s.log = log at hlife
  generalize hcursor : s.cursor = cursor at hlife
  generalize howed : s.owed = owed at hlife
  have hstay : ∀ {log cursor owed}, s.log = log → s.cursor = cursor → s.owed = owed →
      Life n log cursor owed → Orderly components s := by
    rintro _ _ _ rfl rfl rfl hlife
    exact ⟨hsame, hbounds, hn ▸ hlife⟩
  cases hlife with
  | settingUp m hm =>
      have hdelete : ¬ .delete ∈ s.log := by simp [hlog, mem_setups]
      have hopen : ¬ .onUserClientClose ∈ s.log := by simp [hlog, mem_setups]
      unfold step
      rw [if_neg hdelete]
      cases a with
      | report =>
        simp only [howed]
        exact onCompSetup_orderly (hn ▸ hm) hsame hbounds hlog hcursor
      | close =>
        simp only [if_neg hopen]
        exact onUserClientClose_of_not_all (hn ▸ hm) hsame hbounds hlog hcursor
  | running =>
      have hdelete : ¬ .delete ∈ s.log := by simp [hlog, mem_setups]
      have hopen : ¬ .onUserClientClose ∈ s.log := by simp [hlog, mem_setups]
      unfold step
      rw [if_neg hdelete]
      cases a with
      | report =>
        simp only [howed]
        exact hstay hlog hcursor howed .running
      | close =>
        simp only [if_neg hopen]
        exact onUserClientClose_of_all hne hsame hbounds (hn ▸ hlog) (hn ▸ hcursor) howed
  | abandoned m hm =>
      unfold step
      rw [if_pos (by simp [hlog])]
      exact hstay hlog hcursor howed (.abandoned _ hm)
  | cleaningUp k hk =>
      have hdelete : ¬ .delete ∈ s.log := by simp [hlog, mem_setups, mem_cleanups]
      have hclosed : .onUserClientClose ∈ s.log := by simp [hlog]
      unfold step
      rw [if_neg hdelete]
      subst hn
      cases a with
      | report =>
        simp only [howed]
        exact onCompCleanup_orderly hk hsame hbounds hlog hcursor
      | close =>
        simp only [if_pos hclosed]
        exact hstay hlog hcursor howed (.cleaningUp k hk)
  | cleanedUp =>
      unfold step
      rw [if_pos (by simp [hlog])]
      exact hstay hlog hcursor howed .cleanedUp

/-- **Every session that has components sets them up in order and cleans them up in the reverse
    order if it had set up all of them, and is deleted once.** -/
theorem sessions_orderly (components : List Component) (hne : components ≠ []) (as : List Action) :
    Orderly components (run step (new components).setup as) :=
  run_keeps (I := Orderly components) (fun _ a hs => step_orderly hne hs a) (setup_orderly hne) as

/-- The first component is set up at once, the second is cleaned up at once. -/
def twoComponents : List Component := [⟨"ping", 0, true, false⟩, ⟨"map", 0, false, true⟩]

theorem sessions_orderly_two :
    Orderly twoComponents (run step (new twoComponents).setup [.report, .close, .report]) ∧
      (run step (new twoComponents).setup [.report, .close, .report]).log =
        [.beginSetup 0, .onCompSetup 0, .beginSetup 1, .onCompSetup 1, .castLoginEnd,
          .onUserClientClose, .beginCleanup 1, .onCompCleanup 1, .beginCleanup 0, .onCompCleanup 0,
          .delete] :=
  ⟨sessions_orderly twoComponents (List.cons_ne_nil _ _) _, by decide⟩

end PlayerSession

end Jengine.LogicServer
