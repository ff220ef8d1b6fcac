import Mathlib.Algebra.Ring.Nat
import Mathlib.Data.List.Nodup
import Mathlib.Data.List.MinMax

/-!
# The configuration of the pools

`Configure::ParseXml` (`base/dbo_bk/internal/configure.cpp`) reads the connection pools from two
files into the vector `pools_`, each at the place of its id.  The vector grows when an id is
behind its end, and only then is the element stored.

A file is what `read_xml` makes of it: it may be missing, it may lack `framework.dbo`, and an
element may lack an attribute or have one that cannot be converted, which throws.
-/

namespace Jengine.Dbo

/-- `ServerInfo`. -/
structure ServerInfo where
  dbname : String
  username : String
  password : String
  host : String
  port : Int32
deriving DecidableEq

/-- `ConnectionPoolInfo`. -/
structure ConnectionPoolInfo where
  poolid : UInt32
  poolsize : UInt32
  serverinfo : ServerInfo
deriving DecidableEq

namespace ConnectionPoolInfo

/-- What `resize` fills the vector with. -/
def zero : ConnectionPoolInfo := ⟨0, 0, ⟨"", "", "", "", 0⟩⟩

/-- The place in the vector. -/
def index (p : ConnectionPoolInfo) : Nat := p.poolid.toNat

end ConnectionPoolInfo

namespace Configure

open ConnectionPoolInfo

/-- One of the two files; an element is none if it throws. -/
inductive ConfFile where
  | missing
  | broken
  | elements (es : List (Option ConnectionPoolInfo))

/-- Why the loops stop: an exception, or an access behind the end of the vector. -/
inductive Stop where
  | exception (pools : List ConnectionPoolInfo)
  | outOfRange

/-- `resize`. -/
def resize (pools : List ConnectionPoolInfo) (n : Nat) : List ConnectionPoolInfo :=
  pools.take n ++ List.replicate (n - pools.length) zero

/-- The end of a round of the loops. -/
def store (pools : List ConnectionPoolInfo) (p : ConnectionPoolInfo) :
    Except Stop (List ConnectionPoolInfo) :=
  if pools.length ≤ p.index then
    let pools := resize pools (p.poolid + 1).toNat
    if p.index < pools.length then .ok (pools.set p.index p) else .error .outOfRange
  else .ok pools

/-- The loop over the elements of a file. -/
def readElements : List (Option ConnectionPoolInfo) → List ConnectionPoolInfo →
    Except Stop (List ConnectionPoolInfo)
  | [], pools => .ok pools
  | none :: _, pools => .error (.exception pools)
  | some p :: es, pools => do
      let pools ← store pools p
      readElements es pools

def readFile (pools : List ConnectionPoolInfo) : ConfFile → Except Stop (List ConnectionPoolInfo)
  | .missing => .ok pools
  | .broken => .error (.exception pools)
  | .elements es => readElements es pools

/-- The sweep over the vector: no host is empty. -/
def complete (pools : List ConnectionPoolInfo) : Bool :=
  pools.all fun p => p.serverinfo.host != ""

/-- `ParseXml`, with `pools_`; none where it leaves the vector. -/
def parseXml (resource priv : ConfFile) : Option (Bool × List ConnectionPoolInfo) :=
  match readFile [] resource >>= fun pools => readFile pools priv with
  | .ok pools => some (!pools.isEmpty && complete pools, pools)
  | .error (.exception pools) => some (false, pools)
  | .error .outOfRange => none

/-- A file of well-formed elements. -/
def wellFormed (ps : List ConnectionPoolInfo) : ConfFile := .elements (ps.map some)

/-! ### What the configuration is to be -/

/-- The files of two lists hold the elements of one, in any order. -/
def Spread (ps xs ys : List ConnectionPoolInfo) : Prop := (xs ++ ys).Perm ps

/-- The result does not depend on how the elements are spread, and it is the vector of the
    elements where their ids are those of a vector. -/
structure OrderFree (ps : List ConnectionPoolInfo) : Prop where
  same : ∃ r, ∀ xs ys, Spread ps xs ys → parseXml (wellFormed xs) (wellFormed ys) = some r
  found : ps ≠ [] → (ps.map index).Perm (List.range ps.length) →
    (∀ p ∈ ps, p.serverinfo.host ≠ "") →
    ∀ xs ys, Spread ps xs ys → ∃ pools, parseXml (wellFormed xs) (wellFormed ys) =
      some (true, pools) ∧ ∀ p ∈ ps, pools[p.index]? = some p

/-- All elements but the one with the greatest id are as empty as a gap, and no id is the greatest
    number there is. -/
def Harmless (ps : List ConnectionPoolInfo) : Prop :=
  (∀ p ∈ ps, p.index < 2 ^ 32 - 1) ∧ ∀ p ∈ ps, ∀ q ∈ ps, p.index < q.index → p = zero

/-! ### The loop -/

theorem readElements_append (es es' : List (Option ConnectionPoolInfo))
    (pools : List ConnectionPoolInfo) :
    readElements (es ++ es') pools = readElements es pools >>= readElements es' := by
  induction es generalizing pools with
  | nil => rfl
  | cons e es ih =>
      cases e with
      | none => rfl
      | some p =>
          rw [List.cons_append, readElements, readElements]
          cases store pools p with
          | error stop => rfl
          | ok pools => exact ih pools

/-- Two files of well-formed elements are one. -/
theorem parseXml_wellFormed (xs ys : List ConnectionPoolInfo) :
    parseXml (wellFormed xs) (wellFormed ys) =
      match readElements ((xs ++ ys).map some) [] with
      | .ok pools => some (!pools.isEmpty && complete pools, pools)
      | .error (.exception pools) => some (false, pools)
      | .error .outOfRange => none := by
  rw [List.map_append, readElements_append]
  rfl

section

variable {pools pools' : List ConnectionPoolInfo} {p q : ConnectionPoolInfo}

theorem index_succ (h : p.index < 2 ^ 32 - 1) : (p.poolid + 1).toNat = p.index + 1 := by
  have hone : (1 : UInt32).toNat = 1 := rfl
  rw [UInt32.toNat_add, hone]
  exact Nat.mod_eq_of_lt (by unfold index at *; omega)

/-- An element behind the end is stored behind a gap. -/
theorem store_behind (h : p.index < 2 ^ 32 - 1) (hle : pools.length ≤ p.index) :
    store pools p = .ok (pools ++ List.replicate (p.index - pools.length) zero ++ [p]) := by
  have hsize : resize pools (p.index + 1) =
      pools ++ List.replicate (p.index - pools.length) zero ++ [zero] := by
    rw [resize, List.take_of_length_le (by omega), Nat.sub_add_comm hle, List.replicate_succ',
      List.append_assoc]
  have hlen : (pools ++ List.replicate (p.index - pools.length) zero).length = p.index := by
    rw [List.length_append, List.length_replicate]
    omega
  have hset : (pools ++ List.replicate (p.index - pools.length) zero ++ [zero]).set p.index p =
      pools ++ List.replicate (p.index - pools.length) zero ++ [p] := by
    rw [List.set_append_right _ _ (by omega), hlen, Nat.sub_self]
    rfl
  have hroom : p.index <
      (pools ++ List.replicate (p.index - pools.length) zero ++ [zero]).length := by
    rw [List.length_append, hlen]
    exact Nat.lt_succ_self _
  rw [store, if_pos hle, index_succ h, hsize]
  simp only [if_pos hroom, hset]

/-- The greatest number there is as an id: the vector is emptied, and then left. -/
theorem store_last (h : p.index = 2 ^ 32 - 1) (hle : pools.length ≤ p.index) :
    store pools p = .error .outOfRange := by
  have hzero : (p.poolid + 1).toNat = 0 := by
    have hone : (1 : UInt32).toNat = 1 := rfl
    have hid : p.poolid.toNat = 2 ^ 32 - 1 := h
    have hadd := UInt32.toNat_add p.poolid 1
    omega
  rw [store, if_pos hle, hzero]
  exact if_neg (by simp [resize])

/-- An element before the end is dropped. -/
theorem store_before (h : p.index < pools.length) : store pools p = .ok pools :=
  if_neg (by omega)

/-- What is in the vector stays where it is. -/
theorem prefix_store (h : store pools p = .ok pools') : pools <+: pools' := by
  by_cases hle : pools.length ≤ p.index
  · by_cases hlast : p.index < 2 ^ 32 - 1
    · rw [store_behind hlast hle] at h
      rw [← Except.ok.inj h, List.append_assoc]
      exact List.prefix_append _ _
    · have hlt : p.index < 2 ^ 32 := p.poolid.toNat_lt
      rw [store_last (by omega) hle] at h
      cases h
  · rw [store_before (by omega)] at h
    exact Except.ok.inj h ▸ List.prefix_rfl

theorem prefix_readElements {ps : List ConnectionPoolInfo}
    (h : readElements (ps.map some) pools = .ok pools') : pools <+: pools' := by
  induction ps generalizing pools with
  | nil => exact Except.ok.inj h ▸ List.prefix_rfl
  | cons p ps ih =>
      rw [List.map_cons, readElements] at h
      cases hstore : store pools p with
      | error stop =>
          rw [hstore] at h
          cases h
      | ok next =>
          rw [hstore] at h
          exact (prefix_store hstore).trans (ih h)

/-- The vector does not grow behind the ids. -/
theorem length_readElements {ps : List ConnectionPoolInfo} {n : Nat}
    (h : readElements (ps.map some) pools = .ok pools') (hpools : pools.length ≤ n)
    (hps : ∀ p ∈ ps, p.index < n) : pools'.length ≤ n := by
  induction ps generalizing pools with
  | nil =>
      rw [← Except.ok.inj h]
      exact hpools
  | cons p ps ih =>
      have hp := hps p List.mem_cons_self
      have hrest : ∀ q ∈ ps, q.index < n := fun q hq => hps q (List.mem_cons_of_mem p hq)
      rw [List.map_cons, readElements] at h
      by_cases hle : pools.length ≤ p.index
      · by_cases hlast : p.index < 2 ^ 32 - 1
        · rw [store_behind hlast hle] at h
          refine ih h ?_ hrest
          rw [List.length_append, List.length_append, List.length_replicate, List.length_singleton]
          omega
        · have hlt : p.index < 2 ^ 32 := p.poolid.toNat_lt
          rw [store_last (by omega) hle] at h
          cases h
      · rw [store_before (by omega)] at h
        exact ih h hpools hrest

/-- Without the greatest number as an id, the vector is not left. -/
theorem readElements_ok {ps : List ConnectionPoolInfo} (h : ∀ p ∈ ps, p.index < 2 ^ 32 - 1)
    (pools : List ConnectionPoolInfo) :
    ∃ pools', readElements (ps.map some) pools = .ok pools' := by
  induction ps generalizing pools with
  | nil => exact ⟨pools, rfl⟩
  | cons p ps ih =>
      have hrest := ih fun q hq => h q (List.mem_cons_of_mem p hq)
      rw [List.map_cons, readElements]
      by_cases hle : pools.length ≤ p.index
      · rw [store_behind (h p List.mem_cons_self) hle]
        exact hrest _
      · rw [store_before (by omega)]
        exact hrest _

/-- The first element is in the vector, behind a gap. -/
theorem prefix_of_first {ps : List ConnectionPoolInfo} (h : p.index < 2 ^ 32 - 1)
    (hread : readElements ((p :: ps).map some) [] = .ok pools) :
    List.replicate p.index zero ++ [p] <+: pools := by
  rw [List.map_cons, readElements, store_behind h (Nat.zero_le _)] at hread
  exact prefix_readElements hread

theorem parseXml_eq_some {zs : List ConnectionPoolInfo}
    (hread : readElements (zs.map some) [] = .ok pools) {xs ys : List ConnectionPoolInfo}
    (happ : xs ++ ys = zs) :
    parseXml (wellFormed xs) (wellFormed ys) = some (!pools.isEmpty && complete pools, pools) := by
  rw [parseXml_wellFormed, happ, hread]

/-! ### Every order -/

theorem OrderFree.harmless {ps : List ConnectionPoolInfo} (h : OrderFree ps) : Harmless ps := by
  obtain ⟨r, hsame⟩ := h.same
  have hlast : ∀ p ∈ ps, p.index < 2 ^ 32 - 1 := by
    intro p hp
    by_contra hge
    have hlt : p.index < 2 ^ 32 := p.poolid.toNat_lt
    have hread := hsame [p] (ps.erase p) (List.perm_cons_erase hp).symm
    rw [parseXml_wellFormed, List.singleton_append, List.map_cons, readElements,
      store_last (by omega) (Nat.zero_le _)] at hread
    exact absurd hread (Option.some_ne_none r).symm
  refine ⟨hlast, fun p hp q hq hlt => ?_⟩
  -- The two orders that begin with the two elements.
  have hne : p ≠ q := by
    rintro rfl
    exact Nat.lt_irrefl _ hlt
  have hq' : q ∈ ps.erase p := (List.mem_erase_of_ne (Ne.symm hne)).mpr hq
  have hperm : (p :: q :: (ps.erase p).erase q).Perm ps :=
    ((List.perm_cons_erase hq').symm.cons p).trans (List.perm_cons_erase hp).symm
  have hperm' : (q :: p :: (ps.erase p).erase q).Perm ps := (List.Perm.swap p q _).trans hperm
  obtain ⟨first, hfirst⟩ := readElements_ok (fun x hx => hlast x (hperm.mem_iff.mp hx)) []
  obtain ⟨second, hsecond⟩ := readElements_ok (fun x hx => hlast x (hperm'.mem_iff.mp hx)) []
  have hresult := (parseXml_eq_some hfirst (List.nil_append _)).symm.trans (hsame [] _ hperm)
  have hresult' := (parseXml_eq_some hsecond (List.nil_append _)).symm.trans (hsame [] _ hperm')
  have hpools : first = second :=
    congrArg Prod.snd (Option.some.inj (hresult.trans hresult'.symm))
  obtain ⟨rest, hrest⟩ := prefix_of_first (hlast p hp) hfirst
  obtain ⟨rest', hrest'⟩ := prefix_of_first (hlast q hq) hsecond
  have hstored : first[p.index]? = some p := by
    rw [← hrest, List.append_assoc, List.getElem?_append_right (by simp)]
    simp
  have hdropped : second[p.index]? = some zero := by
    rw [← hrest', List.append_assoc, List.getElem?_append_left (by simpa using hlt),
      List.getElem?_replicate_of_lt hlt]
  rw [hpools, hdropped] at hstored
  exact (Option.some.inj hstored).symm

/-- Gaps do not matter before the last element, and nothing does behind it. -/
theorem readElements_gaps (hq : q.index < 2 ^ 32 - 1) {zs : List ConnectionPoolInfo}
    (hzs : ∀ p ∈ zs, p = q ∨ p = zero ∧ 0 < q.index) :
    readElements (zs.map some) (List.replicate q.index zero ++ [q]) =
        .ok (List.replicate q.index zero ++ [q]) ∧
      ∀ k ≤ q.index, q ∈ zs → readElements (zs.map some) (List.replicate k zero) =
        .ok (List.replicate q.index zero ++ [q]) := by
  induction zs with
  | nil => exact ⟨rfl, fun _ _ h => absurd h List.not_mem_nil⟩
  | cons p zs ih =>
      obtain ⟨hstay, hreach⟩ := ih fun x hx => hzs x (List.mem_cons_of_mem p hx)
      have hlen : (List.replicate q.index zero ++ [q]).length = q.index + 1 := by simp
      rw [List.map_cons, readElements]
      constructor
      · have hbefore : p.index < (List.replicate q.index zero ++ [q]).length := by
          rw [hlen]
          rcases hzs p List.mem_cons_self with rfl | ⟨rfl, -⟩
          · exact Nat.lt_succ_self _
          · exact Nat.succ_pos _
        rw [store_before hbefore]
        exact hstay
      · intro k hk hmem
        rw [readElements]
        by_cases hp : p = q
        · subst hp
          have hfill : List.replicate k zero ++ List.replicate (p.index - k) zero =
              List.replicate p.index zero := by
            rw [List.replicate_append_replicate, Nat.add_sub_cancel' hk]
          rw [store_behind hq (by simpa using hk), List.length_replicate, hfill]
          exact hstay
        · obtain ⟨rfl, hpos⟩ := (hzs p List.mem_cons_self).resolve_left hp
          have hmem' : q ∈ zs := (List.mem_cons.mp hmem).resolve_left (Ne.symm hp)
          have hzero : zero.index = 0 := rfl
          cases k with
          | zero =>
              rw [store_behind (by rw [hzero]; decide) (Nat.zero_le _)]
              exact hreach 1 hpos hmem'
          | succ k =>
              rw [store_before (by rw [hzero, List.length_replicate]; exact Nat.succ_pos k)]
              exact hreach (k + 1) hk hmem'

/-- There is an element with the greatest id. -/
theorem exists_greatest {ps : List ConnectionPoolInfo} (h : ps ≠ []) :
    ∃ q ∈ ps, ∀ p ∈ ps, p.index ≤ q.index := by
  obtain ⟨q, hq⟩ : ∃ q, ps.argmax index = some q :=
    Option.ne_none_iff_exists'.mp fun hnone => h (List.argmax_eq_none.mp hnone)
  exact ⟨q, List.argmax_mem hq, fun p hp => List.le_of_mem_argmax hp hq⟩

theorem Harmless.orderFree {ps : List ConnectionPoolInfo} (hdistinct : (ps.map index).Nodup)
    (h : Harmless ps) : OrderFree ps := by
  obtain ⟨hlast, hempty⟩ := h
  by_cases hps : ps = []
  · subst hps
    refine ⟨⟨(false, []), fun xs ys hspread => ?_⟩, fun hne => absurd rfl hne⟩
    exact parseXml_eq_some rfl (List.perm_nil.mp hspread)
  obtain ⟨q, hq, hgreatest⟩ := exists_greatest hps
  have hinj : ∀ p ∈ ps, p.index = q.index → p = q := fun p hp heq =>
    List.inj_on_of_nodup_map hdistinct hp hq heq
  have hall : ∀ p ∈ ps, p = q ∨ p = zero ∧ 0 < q.index := by
    intro p hp
    by_cases heq : p.index = q.index
    · exact Or.inl (hinj p hp heq)
    · have hlt : p.index < q.index := Nat.lt_of_le_of_ne (hgreatest p hp) heq
      exact Or.inr ⟨hempty p hp q hq hlt, Nat.lt_of_le_of_lt (Nat.zero_le _) hlt⟩
  have hparse : ∀ xs ys, Spread ps xs ys → parseXml (wellFormed xs) (wellFormed ys) =
      some (complete (List.replicate q.index zero ++ [q]), List.replicate q.index zero ++ [q]) := by
    intro xs ys hspread
    have hread := (readElements_gaps (hlast q hq)
      fun p hp => hall p (hspread.mem_iff.mp hp)).2 0 (Nat.zero_le _) (hspread.mem_iff.mpr hq)
    rw [parseXml_eq_some hread rfl]
    simp
  refine ⟨⟨_, hparse⟩, ?_⟩
  -- Where the ids are those of a vector and no host is empty, there is one element.
  intro _ hids hhosts xs ys hspread
  have hone : ps = [q] ∧ q.index = 0 := by
    have hzero : q.index = 0 := by
      by_contra hpos
      have hmem : 0 ∈ ps.map index :=
        hids.mem_iff.mpr (List.mem_range.mpr (List.length_pos_of_mem hq))
      obtain ⟨p, hp, hp0⟩ := List.mem_map.mp hmem
      have hgap := hempty p hp q hq (by omega)
      exact hhosts p hp (by rw [hgap]; rfl)
    refine ⟨?_, hzero⟩
    have hsame : ∀ p ∈ ps, p = q := fun p hp =>
      hinj p hp (Nat.le_antisymm (hgreatest p hp) (by omega))
    have hnodup : ps.Nodup := hdistinct.of_map
    obtain ⟨n, hn⟩ : ∃ n, ps = List.replicate n q := ⟨_, List.eq_replicate_of_mem hsame⟩
    rw [hn] at hnodup hq ⊢
    have hn1 : n ≤ 1 := List.nodup_replicate.mp hnodup
    have hn0 : n ≠ 0 := by
      rintro rfl
      exact List.not_mem_nil hq
    have : n = 1 := by omega
    rw [this]
    rfl
  obtain ⟨hps', hzero⟩ := hone
  have hhost := hhosts q hq
  refine ⟨[q], ?_, ?_⟩
  · rw [hparse xs ys hspread, hzero]
    simp [complete, hhost]
  · intro p hp
    rw [hps', List.mem_singleton] at hp
    rw [hp, hzero]
    rfl

/-- **The order of the elements does not matter iff all but the one with the greatest id are as
    empty as a gap**, and no id is the greatest number there is. -/
theorem orderFree_iff {ps : List ConnectionPoolInfo} (hdistinct : (ps.map index).Nodup) :
    OrderFree ps ↔ Harmless ps :=
  ⟨OrderFree.harmless, Harmless.orderFree hdistinct⟩

/-- A pool of a server. -/
def pool (id : UInt32) : ConnectionPoolInfo := ⟨id, 4, ⟨"game", "user", "pass", "127.0.0.1", 3306⟩⟩

/-- One pool, an empty element in front of or behind a pool, and two pools. -/
theorem orderFree_iff_pools :
    OrderFree [pool 0] ∧ OrderFree [zero, pool 1] ∧ ¬ OrderFree [pool 1, pool 2] := by
  have hone : Harmless [pool 0] := ⟨by decide, by decide⟩
  have hempty : Harmless [zero, pool 1] := ⟨by decide, by decide⟩
  have htwo : ¬ Harmless [pool 1, pool 2] := fun h =>
    absurd (h.2 (pool 1) List.mem_cons_self (pool 2) (by simp) (by decide)) (by decide)
  exact ⟨(orderFree_iff (by decide)).mpr hone, (orderFree_iff (by decide)).mpr hempty,
    fun h => htwo ((orderFree_iff (by decide)).mp h)⟩

/-- Two pools, the second first: the first is lost. -/
theorem not_orderFree_two :
    parseXml (wellFormed [pool 1, pool 0]) .missing = some (false, [zero, pool 1]) ∧
      parseXml (wellFormed [pool 0, pool 1]) .missing = some (true, [pool 0, pool 1]) ∧
      ¬OrderFree [pool 0, pool 1] := by
  refine ⟨by decide, by decide, fun h => ?_⟩
  have hgap := h.harmless.2 (pool 0) List.mem_cons_self (pool 1) (by simp) (by decide)
  exact absurd hgap (by decide)

/-! ### One order -/

/-- Behind the elements `0 .. k - 1`, only the next ones leave no gap. -/
theorem readElements_ids {zs : List ConnectionPoolInfo} {k : Nat}
    (hk : pools.map index = List.range k) (hdistinct : (zs.map index).Nodup)
    (hfresh : ∀ p ∈ zs, k ≤ p.index) (hread : readElements (zs.map some) pools = .ok pools')
    (hcomplete : complete pools' = true) : zs.map index = List.range' k zs.length := by
  have hlen : pools.length = k := by
    rw [← List.length_map index, hk, List.length_range]
  induction zs generalizing pools k with
  | nil => rfl
  | cons p zs ih =>
      have hp := hfresh p List.mem_cons_self
      rw [List.map_cons, List.nodup_cons] at hdistinct
      rw [List.map_cons, readElements] at hread
      by_cases hlast : p.index < 2 ^ 32 - 1
      · rw [store_behind hlast (by omega)] at hread
        have hprefix := prefix_readElements hread
        have hnext : p.index = k := by
          by_contra hgap
          have hmem : zero ∈ pools' := by
            refine hprefix.subset (List.mem_append_left _ (List.mem_append_right _ ?_))
            exact List.mem_replicate.mpr ⟨by omega, rfl⟩
          have hhost := List.all_eq_true.mp hcomplete zero hmem
          exact absurd hhost (by decide)
        rw [hnext, hlen, Nat.sub_self, List.replicate_zero, List.append_nil] at hread
        have hids : (pools ++ [p]).map index = List.range (k + 1) := by
          rw [List.map_append, hk, List.range_succ, List.map_singleton, hnext]
        have hrest : ∀ q ∈ zs, k + 1 ≤ q.index := by
          intro q hq
          have hge := hfresh q (List.mem_cons_of_mem p hq)
          have hne : q.index ≠ k := by
            intro heq
            exact hdistinct.1 (List.mem_map.mpr ⟨q, hq, by rw [heq, hnext]⟩)
          omega
        have hlen' : (pools ++ [p]).length = k + 1 := by
          rw [List.length_append, hlen]
          rfl
        rw [List.map_cons, hnext, List.length_cons, List.range'_succ,
          ih hids hdistinct.2 hrest hread hlen']
      · have hlt : p.index < 2 ^ 32 := p.poolid.toNat_lt
        rw [store_last (by omega) (by omega)] at hread
        cases hread

/-- In ascending order, without gaps, every element is stored. -/
theorem readElements_ascending {zs : List ConnectionPoolInfo}
    (hids : zs.map index = List.range' pools.length zs.length)
    (hfits : pools.length + zs.length < 2 ^ 32) :
    readElements (zs.map some) pools = .ok (pools ++ zs) := by
  induction zs generalizing pools with
  | nil => rw [List.append_nil]; rfl
  | cons p zs ih =>
      rw [List.map_cons, List.length_cons, List.range'_succ, List.cons.injEq] at hids
      obtain ⟨hp, hrest⟩ := hids
      rw [List.length_cons] at hfits
      have hlen : (pools ++ [p]).length = pools.length + 1 := by
        rw [List.length_append]
        rfl
      rw [List.map_cons, readElements, store_behind (by omega) (by omega), hp, Nat.sub_self,
        List.replicate_zero, List.append_nil]
      have happ : readElements (zs.map some) (pools ++ [p]) = .ok (pools ++ [p] ++ zs) :=
        ih (by rw [hlen]; exact hrest) (by omega)
      rw [List.append_assoc, List.singleton_append] at happ
      exact happ

/-- The greatest number there is is not the id of an element that has been read. -/
theorem index_lt_of_ok {zs : List ConnectionPoolInfo} (hdistinct : (zs.map index).Nodup)
    (hread : readElements (zs.map some) [] = .ok pools) : ∀ p ∈ zs, p.index < 2 ^ 32 - 1 := by
  intro p hp
  have hlt : p.index < 2 ^ 32 := p.poolid.toNat_lt
  by_contra hlast
  obtain ⟨before, after, rfl⟩ := List.append_of_mem hp
  rw [List.map_append, readElements_append] at hread
  cases hbefore : readElements (before.map some) [] with
  | error stop =>
      rw [hbefore] at hread
      cases hread
  | ok mid =>
      have hmid : mid.length ≤ p.index := by
        refine length_readElements hbefore (Nat.zero_le _) fun q hq => ?_
        have hqlt : q.index < 2 ^ 32 := q.poolid.toNat_lt
        have hother : q.index ≠ p.index := by
          rw [List.map_append, List.nodup_append] at hdistinct
          exact hdistinct.2.2 _ (List.mem_map_of_mem hq) _ (List.mem_map_of_mem List.mem_cons_self)
        omega
      have hstop : readElements ((p :: after).map some) mid = .error .outOfRange := by
        rw [List.map_cons, readElements, store_last (by omega) hmid]
        rfl
      rw [hbefore] at hread
      exact absurd (hread.symm.trans hstop) (by simp)

/-- Elements with the ids of a vector and no empty host are read iff they come in order. -/
theorem parseXml_true_iff {xs ys : List ConnectionPoolInfo} (hne : xs ++ ys ≠ [])
    (hids : ((xs ++ ys).map index).Perm (List.range (xs ++ ys).length))
    (hhosts : ∀ p ∈ xs ++ ys, p.serverinfo.host ≠ "") :
    (∃ pools, parseXml (wellFormed xs) (wellFormed ys) = some (true, pools)) ↔
      (xs ++ ys).map index = List.range (xs ++ ys).length ∧ (xs ++ ys).length < 2 ^ 32 := by
  rw [parseXml_wellFormed]
  generalize xs ++ ys = zs at *
  have hdistinct : (zs.map index).Nodup := hids.nodup_iff.mpr List.nodup_range
  constructor
  · rintro ⟨pools, hparse⟩
    cases hread : readElements (zs.map some) [] with
    | error stop =>
        rw [hread] at hparse
        cases stop <;> simp at hparse
    | ok final =>
        simp only [hread, Option.some.injEq, Prod.mk.injEq, Bool.and_eq_true] at hparse
        have horder := readElements_ids (k := 0) rfl hdistinct (fun _ _ => Nat.zero_le _) hread
          hparse.1.2
        rw [← List.range_eq_range'] at horder
        refine ⟨horder, ?_⟩
        by_contra hge
        have hmem : 2 ^ 32 - 1 ∈ zs.map index := hids.mem_iff.mpr (List.mem_range.mpr (by omega))
        obtain ⟨p, hp, hlast⟩ := List.mem_map.mp hmem
        exact Nat.ne_of_lt (index_lt_of_ok hdistinct hread p hp) hlast
  · rintro ⟨horder, hfits⟩
    have hread : readElements (zs.map some) [] = .ok ([] ++ zs) :=
      readElements_ascending (by rw [List.length_nil, ← List.range_eq_range', horder])
        (by simpa using hfits)
    have hcomplete : complete zs = true :=
      List.all_eq_true.mpr fun p hp => bne_iff_ne.mpr (hhosts p hp)
    have hsome : zs.isEmpty = false := by
      rw [Bool.eq_false_iff]
      exact fun h => hne (List.isEmpty_iff.mp h)
    rw [hread, List.nil_append]
    exact ⟨zs, by simp only [hcomplete, hsome]; rfl⟩

end

end Configure

end Jengine.Dbo
