import Jengine.Lib.Ownership
import Jengine.Lib.Runs
import Mathlib.Algebra.Order.Sub.Basic
import Mathlib.Tactic.Abel

/-!
# Objects, pools and maintainers

`Object` (`base/object.h`, `object.cpp`) counts references; `PoolManager` and `AutoReleasePool`
(`base/autoreleasepool.h`, `autoreleasepool.cpp`) keep references that are given up when a pool is
popped, and `ObjectMaintainer` (`base/objectmaintainer.cpp`) keeps references with tags.  The
destructor of an object gives up the references in its members, so a release can run through many
objects.

The machine goes from one release to the next; what is still to be released is in `pending`, the
next first.  Between two steps, so also in a destructor, any code may run.  It may get at whatever
can be reached, and it gives up only what it holds.  While a pool or a maintainer is being cleared
its vector is walked, and it must be left alone; a mark in `pending` is where its walk ends.
-/

namespace Jengine.Base

open Jengine.Lib

/-- What is being cleared. -/
inductive Container (μ : Type) where
  | pool
  | maintainer (m : μ)
deriving DecidableEq

/-- What is left to do. -/
inductive Frame (ι μ : Type) where
  | release (o : ι)
  | cleared (c : Container μ)
deriving DecidableEq

/-- `ObjectMaintainer::Item`, with its maintainer. -/
structure Item (ι μ : Type) where
  maintainer : μ
  obj : ι
  tag : Int
deriving DecidableEq

structure Objects (ι μ : Type) where
  heap : Heap ι
  /-- The references that code has. -/
  held : List ι
  /-- `pools_`, its top first. -/
  pools : List (List ι)
  /-- `objs_` of all maintainers. -/
  items : List (Item ι μ)
  pending : List (Frame ι μ)

namespace Objects

section

variable {ι μ : Type}

/-- The references that are to be released. -/
def releases (pending : List (Frame ι μ)) : List ι :=
  pending.filterMap fun
    | .release o => some o
    | .cleared _ => none

@[simp] theorem releases_map_append (os : List ι) (pending : List (Frame ι μ)) :
    releases (os.map Frame.release ++ pending) = os ++ releases pending := by
  induction os with
  | nil => rfl
  | cons o os ih => exact congrArg (o :: ·) ih

@[simp] theorem releases_cleared (c : Container μ) (pending : List (Frame ι μ)) :
    releases (.cleared c :: pending) = releases pending := rfl

@[simp] theorem releases_release (o : ι) (pending : List (Frame ι μ)) :
    releases (.release o :: pending) = o :: releases pending := rfl

/-- The marks in what is left to do. -/
def marks : List (Frame ι μ) → Nat
  | [] => 0
  | .release _ :: pending => marks pending
  | .cleared _ :: pending => marks pending + 1

theorem marks_map_append (os : List ι) (pending : List (Frame ι μ)) :
    marks (os.map Frame.release ++ pending) = marks pending := by
  induction os with
  | nil => rfl
  | cons o os ih => exact ih

/-- The references that no object holds. -/
def outer (s : Objects ι μ) : Multiset ι :=
  ↑s.held + ↑s.pools.flatten + ↑(s.items.map Item.obj) + ↑(releases s.pending)

/-- Objects have only gone, and the others hold what they held. -/
structure Fewer (s t : Objects ι μ) : Prop where
  held : t.held = s.held
  created : t.heap.created = s.heap.created
  members : t.heap.members = s.heap.members
  alive : ∀ o, t.heap.Alive o → s.heap.Alive o

theorem Fewer.refl (s : Objects ι μ) : Fewer s s := ⟨rfl, rfl, rfl, fun _ h => h⟩

theorem Fewer.trans {s t u : Objects ι μ} (h : Fewer s t) (h' : Fewer t u) : Fewer s u :=
  ⟨h'.held.trans h.held, h'.created.trans h.created, h'.members.trans h.members,
    fun o ho => h.alive o (h'.alive o ho)⟩

/-- `PoolManager::AddObject`. -/
def addObject (s : Objects ι μ) (o : ι) : Objects ι μ :=
  match s.pools with
  | [] => { s with pools := [[o]] }
  | pool :: pools => { s with pools := (pool ++ [o]) :: pools }

/-- `PoolManager::Pop`: the last pool is cleared and stays. -/
def pop (s : Objects ι μ) : Objects ι μ :=
  match s.pools with
  | [] => s
  | [pool] =>
      { s with pools := [[]], pending := pool.map Frame.release ++ .cleared .pool :: s.pending }
  | pool :: pools =>
      { s with pools := pools, pending := pool.map Frame.release ++ .cleared .pool :: s.pending }

/-- The items that `go` are released in their order. -/
def clear (s : Objects ι μ) (m : μ) (go : Item ι μ → Bool) : Objects ι μ :=
  { s with
    items := s.items.filter fun i => !go i
    pending := ((s.items.filter go).map fun i => Frame.release i.obj) ++
      .cleared (.maintainer m) :: s.pending }

variable {s : Objects ι μ} {o : ι}

theorem outer_cons : { s with held := o :: s.held }.outer = o ::ₘ s.outer := by
  simp only [outer, ← Multiset.cons_coe, Multiset.cons_add]

theorem outer_addObject : (s.addObject o).outer = o ::ₘ s.outer := by
  have hpools : (↑(s.addObject o).pools.flatten : Multiset ι) = o ::ₘ ↑s.pools.flatten := by
    rw [addObject]
    rcases hpools : s.pools with _ | ⟨pool, pools⟩
    · rfl
    · refine Multiset.coe_eq_coe.mpr ?_
      rw [List.flatten_cons, List.append_assoc]
      exact List.perm_middle
  have hsame : (s.addObject o).held = s.held ∧ (s.addObject o).items = s.items ∧
      (s.addObject o).pending = s.pending := by
    rw [addObject]
    split <;> exact ⟨rfl, rfl, rfl⟩
  rw [outer, outer, hpools, hsame.1, hsame.2.1, hsame.2.2, Multiset.add_cons, Multiset.cons_add,
    Multiset.cons_add]

theorem fewer_pop (s : Objects ι μ) : Fewer s s.pop ∧ s.pop.items = s.items := by
  rw [pop]
  split <;> exact ⟨⟨rfl, rfl, rfl, fun _ h => h⟩, rfl⟩

theorem heap_pop (s : Objects ι μ) : s.pop.heap = s.heap := by
  rw [pop]
  split <;> rfl

theorem outer_pop : s.pop.outer = s.outer := by
  rw [pop]
  split
  · rfl
  · next pool hpools =>
    simp only [outer, hpools, releases_map_append, releases_cleared, ← Multiset.coe_add,
      List.flatten_cons, List.flatten_nil, Multiset.coe_nil]
    abel
  · next pool pools _ hpools =>
    simp only [outer, hpools, releases_map_append, releases_cleared, ← Multiset.coe_add,
      List.flatten_cons]
    abel

theorem outer_clear (m : μ) (go : Item ι μ → Bool) : (s.clear m go).outer = s.outer := by
  have hitems : (↑(s.items.map Item.obj) : Multiset ι) =
      ↑((s.items.filter go).map Item.obj) + ↑((s.items.filter fun i => !go i).map Item.obj) := by
    refine Multiset.coe_eq_coe.mpr ?_
    rw [← List.map_append]
    exact (List.filter_append_perm go s.items).symm.map _
  have hreleases : releases (s.clear m go).pending =
      (s.items.filter go).map Item.obj ++ releases s.pending := by
    have hmap := releases_map_append ((s.items.filter go).map Item.obj)
      (.cleared (.maintainer m) :: s.pending)
    rw [List.map_map] at hmap
    exact hmap
  simp only [outer, hreleases, hitems, ← Multiset.coe_add]
  simp only [clear]
  abel

end

section

variable {ι μ : Type} [DecidableEq ι]

/-- Without an object, after `PoolManager::CreateInstance`. -/
def start : Objects ι μ := ⟨Heap.empty, [], [], [], []⟩

/-- All references. -/
def references (s : Objects ι μ) : Multiset ι := s.outer + s.heap.inner

/-- `Release`. -/
def release (s : Objects ι μ) (o : ι) : Objects ι μ :=
  let (heap, ms) := s.heap.release o
  { s with heap := heap, pending := ms.map Frame.release ++ s.pending }

theorem fewer_release (s : Objects ι μ) (o : ι) : Fewer s (s.release o) :=
  have h := Heap.release_fewer s.heap o
  ⟨rfl, h.1, h.2.1, h.2.2⟩

variable {s : Objects ι μ} {o : ι}

/-- A reference that is not counted as held any more is released. -/
theorem sound_release (h : s.heap.Sound (o ::ₘ s.outer)) :
    (s.release o).heap.Sound (s.release o).outer := by
  refine (Heap.Sound.release h).perm ?_
  simp only [release, outer, releases_map_append, ← Multiset.coe_add]
  exact add_left_comm _ _ _

theorem outer_of_mem (ho : o ∈ s.held) :
    s.outer = o ::ₘ { s with held := s.held.erase o }.outer := by
  have hheld : (↑s.held : Multiset ι) = o ::ₘ ↑(s.held.erase o) :=
    Multiset.coe_eq_coe.mpr (List.perm_cons_erase ho)
  simp only [outer, hheld, Multiset.cons_add]

end

variable {ι μ : Type} [DecidableEq ι] [DecidableEq μ]

inductive Action (ι μ : Type) where
  /-- A new object; its constructor takes over references. -/
  | create (o : ι) (members : List ι)
  | retain (o : ι)
  | release (o : ι)
  | autoRelease (o : ι)
  | push
  | pop
  | add (m : μ) (o : ι) (tag : Int)
  | clearByTag (m : μ) (tag : Int)
  | clearAll (m : μ)
  /-- A reference is put into a member of `p`. -/
  | give (p o : ι)
  /-- A reference is taken out of a member of `p`. -/
  | take (p o : ι)
  /-- The next thing that is left to do. -/
  | next

def step (s : Objects ι μ) : Action ι μ → Objects ι μ
  | .create o members =>
      { s with heap := s.heap.create o members, held := o :: s.held.diff members }
  | .retain o => { s with heap := s.heap.retain o, held := o :: s.held }
  | .release o => { s with held := s.held.erase o }.release o
  | .autoRelease o => { s with held := s.held.erase o }.addObject o
  | .push => { s with pools := [] :: s.pools }
  | .pop => s.pop
  | .add m o tag => { s with heap := s.heap.retain o, items := s.items ++ [⟨m, o, tag⟩] }
  | .clearByTag m tag => s.clear m fun i => i.maintainer = m ∧ i.tag = tag
  | .clearAll m => s.clear m fun i => i.maintainer = m
  | .give p o => { s with heap := s.heap.give p o, held := s.held.erase o }
  | .take p o => { s with heap := s.heap.take p o, held := o :: s.held }
  | .next =>
      match s.pending with
      | [] => s
      | .release o :: pending => { s with pending := pending }.release o
      | .cleared _ :: pending => { s with pending := pending }

/-- Code can get at an object. -/
def Reached (s : Objects ι μ) (o : ι) : Prop := s.heap.Reaches s.outer o

/-- The container is not being cleared. -/
def Idle (s : Objects ι μ) (c : Container μ) : Prop := Frame.cleared c ∉ s.pending

instance (s : Objects ι μ) (c : Container μ) : Decidable (s.Idle c) :=
  inferInstanceAs (Decidable (Frame.cleared c ∉ s.pending))

/-- What code keeps to.  It gives up, or puts somewhere, only references that it has, and a count
    does not wrap. -/
def Disciplined (s : Objects ι μ) : Action ι μ → Prop
  | .create o members => o ∉ s.heap.created ∧ members.Subperm s.held
  | .retain o => s.Reached o ∧ s.references.count o + 1 < 2 ^ 32
  | .release o => o ∈ s.held
  | .autoRelease o => o ∈ s.held ∧ s.Idle .pool
  | .push => s.Idle .pool
  | .pop => s.Idle .pool
  | .add m o _ => s.Reached o ∧ s.references.count o + 1 < 2 ^ 32 ∧ s.Idle (.maintainer m)
  | .clearByTag m _ => s.Idle (.maintainer m)
  | .clearAll m => s.Idle (.maintainer m)
  | .give p o => s.Reached p ∧ o ∈ s.held
  | .take p o => s.Reached p ∧ o ∈ s.heap.members p
  | .next => True

/-! ### The counts are right -/

variable {s : Objects ι μ}

theorem step_sound {a : Action ι μ} (h : s.heap.Sound s.outer) (ha : s.Disciplined a) :
    (s.step a).heap.Sound (s.step a).outer := by
  cases a with
  | create o members =>
    have hheld : (↑s.held : Multiset ι) = ↑members + ↑(s.held.diff members) := by
      rw [← Multiset.coe_sub]
      exact (add_tsub_cancel_of_le (Multiset.coe_le.mpr ha.2)).symm
    have hmoved : s.heap.Sound (↑members + { s with held := s.held.diff members }.outer) := by
      refine h.perm ?_
      simp only [outer, hheld, add_assoc]
    refine (hmoved.create ha.1).perm ?_
    exact outer_cons (s := { s with heap := s.heap.create o members, held := s.held.diff members })
  | retain o => exact (h.retain (h.alive_of_reaches ha.1) ha.2).perm outer_cons
  | release o =>
    refine sound_release ?_
    exact h.perm (outer_of_mem ha).symm
  | autoRelease o =>
    have hheap : (s.step (.autoRelease o)).heap = s.heap := by
      simp only [step, addObject]
      split <;> rfl
    rw [hheap]
    exact h.perm (outer_addObject.trans (outer_of_mem ha.1).symm)
  | push => exact h
  | pop =>
    show s.pop.heap.Sound s.pop.outer
    rw [heap_pop, outer_pop]
    exact h
  | add m o tag =>
    refine (h.retain (h.alive_of_reaches ha.1) ha.2.1).perm ?_
    simp only [step, outer, List.map_append, List.map_cons, List.map_nil, ← Multiset.coe_add,
      Multiset.coe_singleton, ← Multiset.singleton_add]
    abel
  | clearByTag m tag => exact h.perm (outer_clear m _)
  | clearAll m => exact h.perm (outer_clear m _)
  | give p o =>
    refine Heap.Sound.give ?_ (h.alive_of_reaches ha.1)
    exact h.perm (outer_of_mem ha.2).symm
  | take p o => exact (h.take (h.alive_of_reaches ha.1) ha.2).perm outer_cons
  | next =>
    rcases hpending : s.pending with _ | ⟨o | c, pending⟩
    · simp only [step, hpending]
      exact h
    · simp only [step, hpending]
      refine sound_release ?_
      refine h.perm ?_
      simp only [outer, hpending, releases_release, ← Multiset.cons_coe, Multiset.add_cons]
    · simp only [step, hpending]
      refine h.perm ?_
      simp only [outer, hpending, releases_cleared]

omit [DecidableEq μ] in
theorem sound_start : (start : Objects ι μ).heap.Sound (start : Objects ι μ).outer :=
  Heap.sound_empty

/-- **No object is used after its end, and each ends once.**  An object is there exactly as long as
    there is a reference to it, in code, in a pool, in a maintainer, in a member of an object that
    is there, or about to be released; its count is the number of these references. -/
theorem run_counted (as : List (Action ι μ)) (has : Along step Disciplined start as) :
    let s := run step start as
    s.heap.fault = false ∧ s.heap.destroyed.Nodup ∧
      ∀ o, (s.heap.Alive o ↔ o ∈ s.references) ∧
        (s.heap.Alive o → (s.heap.count o).toNat = s.references.count o) := by
  intro s
  have h : s.heap.Sound s.outer :=
    run_invariant (I := fun s : Objects ι μ => s.heap.Sound s.outer)
      (fun _ _ h ha => step_sound h ha) sound_start has
  exact ⟨h.fault, h.destroyed, fun o => ⟨h.alive o, h.count o⟩⟩

/-! ### The end -/

/-- What is done with objects that are not needed any more. -/
def Action.Teardown : Action ι μ → Prop
  | .pop => True
  | .clearAll _ => True
  | .next => True
  | _ => False

/-- **Everything that is to be released is released in the end.** -/
theorem settles {s : Objects ι μ} (h : s.heap.Sound s.outer) :
    ∃ n, let t := run step s (List.replicate n .next)
      t.pending = [] ∧ t.pools = s.pools ∧ t.items = s.items ∧ Fewer s t := by
  -- a step takes a reference away, or a mark
  induction hn : s.references.card + marks s.pending using Nat.strongRecOn generalizing s with
  | ind n ih =>
    subst hn
    rcases hpending : s.pending with _ | ⟨f, pending⟩
    · exact ⟨0, hpending, rfl, rfl, .refl s⟩
    · have hone : (s.step .next).pools = s.pools ∧ (s.step .next).items = s.items ∧
          Fewer s (s.step .next) ∧
          (s.step .next).references.card + marks (s.step .next).pending <
            s.references.card + marks s.pending := by
        cases f with
        | release o =>
          have hsplit : s.outer = o ::ₘ { s with pending := pending }.outer := by
            simp only [outer, hpending, releases_release, ← Multiset.cons_coe, Multiset.add_cons]
          have hstep : s.step .next = { s with pending := pending }.release o := by
            simp only [step, hpending]
          have htotal := (hsplit ▸ h).total_release
          have hless : ({ s with pending := pending }.release o).references =
              { s with pending := pending }.outer + s.heap.inner := by
            rw [← htotal, references]
            congr 1
            simp only [release, outer, releases_map_append, ← Multiset.coe_add]
            abel
          refine ⟨by rw [hstep]; rfl, by rw [hstep]; rfl, ?_, ?_⟩
          · rw [hstep]
            have hsame : Fewer s { s with pending := pending } := ⟨rfl, rfl, rfl, fun _ h => h⟩
            exact hsame.trans (fewer_release _ o)
          · rw [hstep, hless, references, hsplit, Multiset.cons_add, Multiset.card_cons, hpending]
            simp only [release, marks_map_append, marks]
            omega
        | cleared c =>
          have hstep : s.step .next = { s with pending := pending } := by
            simp only [step, hpending]
          have hsame : { s with pending := pending }.references = s.references := by
            simp only [references, outer, hpending, releases_cleared]
          rw [hstep, hsame, hpending]
          exact ⟨rfl, rfl, ⟨rfl, rfl, rfl, fun _ h => h⟩, Nat.lt_succ_self _⟩
      obtain ⟨hpools, hitems, hfewer, hless⟩ := hone
      obtain ⟨k, hrest⟩ := ih _ hless (step_sound h (a := .next) trivial) rfl
      refine ⟨k + 1, ?_⟩
      rw [List.replicate_succ, run_cons]
      obtain ⟨hdone, hpools', hitems', hfewer'⟩ := hrest
      exact ⟨hdone, hpools'.trans hpools, hitems'.trans hitems, hfewer.trans hfewer'⟩

theorem along_next (n : Nat) (s : Objects ι μ) :
    Along step Disciplined s (List.replicate n .next) := by
  induction n generalizing s with
  | zero => trivial
  | succ n ih => exact ⟨trivial, ih _⟩

/-- Nothing is left but what objects hold. -/
theorem exists_cleared {s : Objects ι μ} (h : s.heap.Sound s.outer) :
    ∃ bs : List (Action ι μ), (∀ a ∈ bs, a.Teardown) ∧ Along step Disciplined s bs ∧
      let t := run step s bs
      t.pools.flatten = [] ∧ t.items = [] ∧ t.pending = [] ∧ Fewer s t ∧ t.heap.Sound t.outer := by
  -- what is in a container and the pools themselves become fewer
  induction hn : s.items.length + (s.pools.flatten.length + s.pools.length)
      using Nat.strongRecOn generalizing s with
  | ind n ih =>
    subst hn
    obtain ⟨k, hdone, hpools, hitems, hfewer⟩ := settles h
    obtain ⟨t, ht⟩ : ∃ t, t = run step s (List.replicate k .next) := ⟨_, rfl⟩
    rw [← ht] at hdone hpools hitems hfewer
    have hnexts : Along step Disciplined s (List.replicate k .next) := along_next k s
    have hsound : t.heap.Sound t.outer := by
      rw [ht]
      exact run_invariant (I := fun s : Objects ι μ => s.heap.Sound s.outer)
        (fun _ _ h ha => step_sound h ha) h hnexts
    have hidle : ∀ c, t.Idle c := fun c hc => by
      rw [hdone] at hc
      cases hc
    -- one container is cleared, and the rest of it later
    have hgo : ∀ a : Action ι μ, a.Teardown → t.Disciplined a → Fewer t (t.step a) →
        (t.step a).items.length + ((t.step a).pools.flatten.length + (t.step a).pools.length) <
          t.items.length + (t.pools.flatten.length + t.pools.length) →
        ∃ bs : List (Action ι μ), (∀ a ∈ bs, a.Teardown) ∧ Along step Disciplined s bs ∧
          let t := run step s bs
          t.pools.flatten = [] ∧ t.items = [] ∧ t.pending = [] ∧ Fewer s t ∧
            t.heap.Sound t.outer := by
      intro a hteardown hdisciplined hfewer' hless
      rw [hitems, hpools] at hless
      obtain ⟨bs, hbs, halong, hrest⟩ := ih _ hless (step_sound hsound hdisciplined) rfl
      refine ⟨List.replicate k .next ++ a :: bs, ?_, ?_, ?_⟩
      · intro b hb
        rcases List.mem_append.mp hb with hb | hb
        · rw [List.eq_of_mem_replicate hb]
          trivial
        · rcases List.mem_cons.mp hb with rfl | hb
          · exact hteardown
          · exact hbs b hb
      · rw [along_append, ← ht]
        exact ⟨hnexts, hdisciplined, halong⟩
      · rw [run_append, ← ht]
        obtain ⟨hempty, hgone, hquiet, hfewer'', hend⟩ := hrest
        exact ⟨hempty, hgone, hquiet, (hfewer.trans hfewer').trans hfewer'', hend⟩
    rcases hitem : t.items with _ | ⟨i, items⟩
    · by_cases hflat : t.pools.flatten = []
      · refine ⟨List.replicate k .next, ?_, hnexts, ?_⟩
        · intro b hb
          rw [List.eq_of_mem_replicate hb]
          trivial
        · rw [← ht]
          exact ⟨hflat, hitem, hdone, hfewer, hsound⟩
      · refine hgo .pop trivial (hidle _) (fewer_pop t).1 ?_
        rw [step, (fewer_pop t).2]
        refine Nat.add_lt_add_left ?_ _
        rcases hp : t.pools with _ | ⟨pool, _ | ⟨pool', pools⟩⟩
        · rw [hp] at hflat
          exact absurd rfl hflat
        · rw [hp, List.flatten_cons, List.flatten_nil, List.append_nil] at hflat
          have hone : t.pop.pools = [[]] := by rw [pop, hp]
          have hpos := List.length_pos_iff.mpr hflat
          simp only [hone, List.flatten_cons, List.flatten_nil, List.length_append,
            List.length_nil, List.length_singleton]
          omega
        · have hless : t.pop.pools = pool' :: pools := by rw [pop, hp]
          simp only [hless, List.flatten_cons, List.length_append, List.length_cons]
          omega
    · refine hgo (.clearAll i.maintainer) trivial (hidle _) ⟨rfl, rfl, rfl, fun _ h => h⟩ ?_
      refine Nat.add_lt_add_right ?_ _
      refine List.length_filter_lt_length_iff_exists.mpr ⟨i, ?_, ?_⟩
      · rw [hitem]
        exact List.mem_cons_self
      · simp

/-- **Nothing is leaked.**  When code has no reference left and no objects hold each other in a
    circle, popping the pools and clearing the maintainers destroys every object that was ever
    created, each once. -/
theorem torn_down (as : List (Action ι μ)) (has : Along step Disciplined start as)
    (hheld : (run step start as).held = []) {rank : ι → Nat}
    (hrank : ∀ p, (run step start as).heap.Alive p → ∀ o ∈ (run step start as).heap.members p,
      rank o < rank p) :
    ∃ bs : List (Action ι μ), (∀ a ∈ bs, a.Teardown) ∧ Along step Disciplined start (as ++ bs) ∧
      let t := run step start (as ++ bs)
      t.heap.fault = false ∧ t.heap.created = (run step start as).heap.created ∧
        t.heap.destroyed.Perm t.heap.created := by
  have h : (run step start as).heap.Sound (run step start as).outer :=
    run_invariant (I := fun s : Objects ι μ => s.heap.Sound s.outer)
      (fun _ _ h ha => step_sound h ha) sound_start has
  obtain ⟨bs, hbs, halong, hpools, hitems, hpending, hfewer, hsound⟩ := exists_cleared h
  refine ⟨bs, hbs, along_append.mpr ⟨has, halong⟩, ?_⟩
  rw [run_append]
  have hnone : (run step (run step start as) bs).outer = 0 := by
    rw [outer, hfewer.held, hheld, hpools, hitems, hpending]
    rfl
  rw [hnone] at hsound
  refine ⟨hsound.fault, hfewer.created, ?_⟩
  apply hsound.nothing_left
  intro p hp o ho
  rw [hfewer.members] at ho
  exact hrank p (hfewer.alive p hp) o ho

/-- Three objects, the second one with a reference to the first and the third one with one to the
    second, which has been in a pool and in a maintainer meanwhile. -/
def chain : List (Action Nat Nat) :=
  [.create 0 [], .create 1 [0], .push, .retain 1, .autoRelease 1, .add 7 1 3, .clearByTag 7 3,
    .next, .next, .create 2 [], .give 2 1, .pop, .next, .next, .add 7 2 0, .release 2]

theorem chain_disciplined : Along step Disciplined start chain := by
  refine ⟨⟨by decide, by decide⟩, ⟨by decide, by decide⟩, show Idle _ _ by decide,
    ⟨.root (by decide), by decide⟩, ⟨by decide, by decide⟩,
    ⟨.root (by decide), by decide, by decide⟩, show Idle _ _ by decide, trivial, trivial,
    ⟨by decide, by decide⟩, ⟨.root (by decide), by decide⟩, show Idle _ _ by decide, trivial,
    trivial, ⟨.root (by decide), by decide, by decide⟩, ?_, trivial⟩
  show _ ∈ _
  decide

theorem run_counted_chain :
    let s := run step start chain
    s.heap.fault = false ∧ s.heap.destroyed.Nodup ∧
      ∀ o, (s.heap.Alive o ↔ o ∈ s.references) ∧
        (s.heap.Alive o → (s.heap.count o).toNat = s.references.count o) :=
  run_counted chain chain_disciplined

theorem torn_down_chain :
    ∃ bs : List (Action Nat Nat), (∀ a ∈ bs, a.Teardown) ∧
      Along step Disciplined start (chain ++ bs) ∧
      let t := run step start (chain ++ bs)
      t.heap.fault = false ∧ t.heap.created = [2, 1, 0] ∧ t.heap.destroyed.Perm [2, 1, 0] := by
  have hcreated : (run step start chain).heap.created = [2, 1, 0] := by decide
  have hrank : ∀ p, (run step start chain).heap.Alive p →
      ∀ o ∈ (run step start chain).heap.members p, id o < id p := by
    have hall : ∀ p ∈ [2, 1, 0], ∀ o ∈ (run step start chain).heap.members p, id o < id p := by
      decide
    exact fun p hp => hall p (hcreated ▸ hp.1)
  obtain ⟨bs, hbs, halong, hfault, hsame, hperm⟩ :=
    torn_down chain chain_disciplined (by decide) hrank
  rw [hcreated] at hsame
  exact ⟨bs, hbs, halong, hfault, hsame, hsame ▸ hperm⟩

end Objects

end Jengine.Base
