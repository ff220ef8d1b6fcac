import Jengine.LogicServer.WorldChat
import Mathlib.Data.Finset.Range

/-!
# Pages of players

`ExtractFriends` (`logicserver/localworld.cpp`) is asked for a page of the players a player could
make friends with: `begin` is the index in `globals_` to begin at and `size` the number of entries
to look at.  What it looks at are the indices greater than `begin` and less than `size`.

An entry of `globals_` has a profile when somebody has stored one, and that is another message than
the one that brings the player online.
-/

namespace Jengine.LogicServer

namespace LocalWorld

/-- The loop of `ExtractFriends`; an answer names the players whose `profile()` is returned.
    `none`: a profile is used that is not there. -/
def extractLoop (start end' : UInt32) (isFriends : UInt32 → Bool) :
    List (UInt32 × Player) → UInt32 → List UInt32 → Option (List UInt32)
  | [], _, playerlist => some playerlist
  | (uid, p) :: it, index, playerlist =>
      if start < index ∧ index < end' then
        match p.profile with
        | none => none
        | some profile =>
            extractLoop start end' isFriends it (index + 1)
              (if isFriends profile.uid then playerlist else playerlist ++ [uid])
      else extractLoop start end' isFriends it (index + 1) playerlist

/-- `ExtractFriends`, for a player with the given friends. -/
def extractFriends (w : LocalWorld) (size start : UInt32) (isFriends : UInt32 → Bool) :
    Option (List UInt32) :=
  let index : UInt32 := 0
  let end' := index + size
  let start := if w.globals.length < start.toNat then 0 else start
  extractLoop start end' isFriends w.globals index []

/-- What can happen to the world.  Between two calls the map may be iterated in another order. -/
inductive Reachable : LocalWorld → Prop where
  | make : Reachable make
  | message {w : LocalWorld} (code : RpcCode) (payload : List UInt8) (fuel : Nat) :
      Reachable w → Reachable (w.onMessageReceive code payload fuel).1
  | updatePublicProfile {w : LocalWorld} (uid : UInt32) (profile : Public) :
      Reachable w → Reachable (w.updatePublicProfile uid profile)
  | query {w : LocalWorld} (uid : UInt32) (tick : Int) :
      Reachable w → Reachable (w.queryCachedPlayerProfile uid tick).2
  | cleanup {w : LocalWorld} (nowTick : Int) :
      Reachable w → Reachable (w.cleanupExpirePlayer nowTick)
  | create {w : LocalWorld} (session : Nat) (s : Session) :
      Reachable w → Reachable (w.create session s)
  | delete {w : LocalWorld} (player : Nat) : Reachable w → Reachable (w.delete player)
  | rehash {w : LocalWorld} {globals : List (UInt32 × Player)} :
      Reachable w → w.globals.Perm globals → Reachable { w with globals := globals }

/-! ### Each player once -/

/-- Each uid is a key of `globals_` at most once. -/
def Distinct (w : LocalWorld) : Prop := (w.globals.map Prod.fst).Nodup

theorem keys_modify (w : LocalWorld) (uid : UInt32) (f : Player → Player) :
    (w.modify uid f).globals.map Prod.fst = w.globals.map Prod.fst := by
  rw [modify, List.map_map]
  apply List.map_congr_left
  intro e he
  simp only [Function.comp_apply]
  split <;> rfl

theorem Distinct.modify {w : LocalWorld} (h : w.Distinct) (uid : UInt32) (f : Player → Player) :
    (w.modify uid f).Distinct := by
  rwa [Distinct, keys_modify]

theorem Distinct.findOrEmplace {w : LocalWorld} (h : w.Distinct) (uid : UInt32) :
    (w.findOrEmplace uid).Distinct := by
  unfold LocalWorld.findOrEmplace
  cases hfind : w.find uid with
  | some p => exact h
  | none =>
      refine List.nodup_cons.mpr ⟨?_, h⟩
      intro hmem
      obtain ⟨e, he, heq⟩ := List.mem_map.mp hmem
      have hne := List.lookup_eq_none_iff.mp hfind e he
      rw [heq] at hne
      simp at hne

theorem Distinct.updatePublicProfile {w : LocalWorld} (h : w.Distinct) (uid : UInt32)
    (profile : Public) : (w.updatePublicProfile uid profile).Distinct := by
  have hstored := (h.findOrEmplace uid).modify uid fun p => { p with profile := some profile }
  unfold LocalWorld.updatePublicProfile
  dsimp only
  split
  · exact hstored
  · exact hstored

theorem Distinct.onMessageReceive {w : LocalWorld} (h : w.Distinct) (code : RpcCode)
    (payload : List UInt8) (fuel : Nat) : (w.onMessageReceive code payload fuel).1.Distinct := by
  cases code with
  | updateToOnline =>
      simp only [LocalWorld.onMessageReceive]
      split
      · exact h
      · exact (h.findOrEmplace _).modify _ _
  | updateToOffline =>
      simp only [LocalWorld.onMessageReceive]
      split
      · exact h
      · exact h.modify _ _
  | worldChate =>
      simp only [LocalWorld.onMessageReceive]
      split
      · exact h
      · exact h
  | updatePublicProfile => exact h
  | other => exact h

theorem Reachable.distinct {w : LocalWorld} (h : Reachable w) : w.Distinct := by
  induction h with
  | make => exact List.nodup_nil
  | message code payload fuel _ ih => exact ih.onMessageReceive code payload fuel
  | updatePublicProfile uid profile _ ih => exact ih.updatePublicProfile uid profile
  | query uid tick _ ih => exact ih.modify uid _
  | cleanup nowTick _ ih => exact ih.sublist ((List.filter_sublist).map _)
  | create session s _ ih => exact ih
  | delete player _ ih => exact ih
  | rehash _ hperm ih => exact (hperm.map _).nodup_iff.mp ih

/-- There are no more players than uids. -/
theorem Distinct.length_le {w : LocalWorld} (h : w.Distinct) : w.globals.length ≤ 2 ^ 32 := by
  have hnodup : ((w.globals.map Prod.fst).map UInt32.toNat).Nodup :=
    h.map fun a b => UInt32.toNat_inj.mp
  have hsub : ((w.globals.map Prod.fst).map UInt32.toNat).toFinset ⊆ Finset.range (2 ^ 32) := by
    intro n hn
    obtain ⟨uid, -, rfl⟩ := List.mem_map.mp (List.mem_toFinset.mp hn)
    exact Finset.mem_range.mpr uid.toNat_lt
  have hcard := Finset.card_le_card hsub
  rwa [List.toFinset_card_of_nodup hnodup, Finset.card_range, List.length_map,
    List.length_map] at hcard

/-! ### What is looked at -/

/-- The entries whose index, counted from `k`, is greater than `start` and less than `end'`. -/
def looked (start end' : Nat) (k : Nat) (es : List (UInt32 × Player)) : List (UInt32 × Player) :=
  ((es.zipIdx k).filter fun x => start < x.2 ∧ x.2 < end').map Prod.fst

/-- A player who has a profile and is no friend. -/
def candidate (isFriends : UInt32 → Bool) (e : UInt32 × Player) : Bool :=
  match e.2.profile with
  | none => false
  | some profile => !isFriends profile.uid

section

variable {isFriends : UInt32 → Bool} {es : List (UInt32 × Player)} {start end' : UInt32}

/-- The loop answers with the candidates among the entries it looks at, if all these have a
    profile. -/
theorem extractLoop_eq {k : Nat} (hk : k + es.length ≤ 2 ^ 32) (playerlist : List UInt32) :
    extractLoop start end' isFriends es (UInt32.ofNat k) playerlist =
      if (looked start.toNat end'.toNat k es).all fun e => e.2.profile.isSome then
        some (playerlist ++
          ((looked start.toNat end'.toNat k es).filter (candidate isFriends)).map Prod.fst)
      else none := by
  induction es generalizing k playerlist with
  | nil => simp [extractLoop, looked]
  | cons e es ih =>
      obtain ⟨uid, p⟩ := e
      rw [List.length_cons] at hk
      have hindex : (UInt32.ofNat k).toNat = k :=
        UInt32.toNat_ofNat_of_lt' (show k < 2 ^ 32 by omega)
      have hnext : UInt32.ofNat k + 1 = UInt32.ofNat (k + 1) := by
        rw [UInt32.ofNat_add]
        rfl
      have hwindow : start < UInt32.ofNat k ∧ UInt32.ofNat k < end' ↔
          start.toNat < k ∧ k < end'.toNat := by
        rw [UInt32.lt_iff_toNat_lt, UInt32.lt_iff_toNat_lt, hindex]
      rw [extractLoop, hnext]
      by_cases hin : start.toNat < k ∧ k < end'.toNat
      · rw [if_pos (hwindow.mpr hin)]
        have hlooked : looked start.toNat end'.toNat k ((uid, p) :: es) =
            (uid, p) :: looked start.toNat end'.toNat (k + 1) es := by
          simp [looked, List.zipIdx_cons, hin]
        rw [hlooked, List.all_cons]
        cases hprofile : p.profile with
        | none => rfl
        | some profile =>
            rw [Option.isSome_some, Bool.true_and]
            simp only [ih (by omega : k + 1 + es.length ≤ 2 ^ 32)]
            cases hfriend : isFriends profile.uid with
            | true => simp [hprofile, hfriend, candidate]
            | false => simp [hprofile, hfriend, candidate]
      · rw [if_neg (mt hwindow.mp hin)]
        have hlooked : looked start.toNat end'.toNat k ((uid, p) :: es) =
            looked start.toNat end'.toNat (k + 1) es := by
          simp [looked, List.zipIdx_cons, hin]
        rw [hlooked, ih (by omega)]

theorem mem_looked {start end' : Nat} {e : UInt32 × Player} :
    e ∈ looked start end' 0 es ↔ ∃ i, es[i]? = some e ∧ start < i ∧ i < end' := by
  simp only [looked, List.mem_map, List.mem_filter, decide_eq_true_eq]
  constructor
  · rintro ⟨⟨e', i⟩, ⟨hmem, hwindow⟩, rfl⟩
    exact ⟨i, List.mem_zipIdx_iff_getElem?.mp hmem, hwindow⟩
  · rintro ⟨i, hget, hwindow⟩
    exact ⟨(e, i), ⟨List.mem_zipIdx_iff_getElem?.mpr hget, hwindow⟩, rfl⟩

theorem looked_sublist (start end' : Nat) : (looked start end' 0 es).Sublist es := by
  have hsub := (List.filter_sublist (p := fun x => decide (start < x.2 ∧ x.2 < end'))
    (l := es.zipIdx 0)).map Prod.fst
  rwa [List.zipIdx_map_fst] at hsub

/-- From `end'` on nothing is looked at. -/
theorem looked_eq_nil {start end' : Nat} (h : end' ≤ start) : looked start end' 0 es = [] := by
  rw [List.eq_nil_iff_forall_not_mem]
  intro e he
  obtain ⟨i, -, hlo, hhi⟩ := mem_looked.mp he
  omega

variable {w : LocalWorld}

/-- What a call answers. -/
theorem extractFriends_eq (h : w.Distinct) (size start : UInt32) :
    w.extractFriends size start isFriends =
      let first := if w.globals.length < start.toNat then 0 else start.toNat
      if (looked first size.toNat 0 w.globals).all fun e => e.2.profile.isSome then
        some (((looked first size.toNat 0 w.globals).filter (candidate isFriends)).map Prod.fst)
      else none := by
  have hlen : 0 + w.globals.length ≤ 2 ^ 32 := by
    rw [Nat.zero_add]
    exact h.length_le
  have hfirst : (if w.globals.length < start.toNat then 0 else start : UInt32).toNat =
      if w.globals.length < start.toNat then 0 else start.toNat := by
    split <;> rfl
  have hloop : extractLoop (if w.globals.length < start.toNat then 0 else start) size isFriends
      w.globals (UInt32.ofNat 0) [] = _ := extractLoop_eq hlen []
  rw [hfirst] at hloop
  rw [extractFriends, UInt32.zero_add]
  exact hloop

end

/-! ### Whether the pages are the list -/

/-- The pages from 0, `size`, `2 * size` and so on, while the index to begin at is at most the
    number of players; it is a `uint32_t`. -/
def pages (w : LocalWorld) (size : UInt32) (isFriends : UInt32 → Bool) : List UInt32 :=
  (List.range (min w.globals.length (2 ^ 32 - 1) / size.toNat + 1)).flatMap fun k =>
    (w.extractFriends size (UInt32.ofNat (k * size.toNat)) isFriends).getD []

/-- No profile is used that is not there, and the pages together have every candidate once. -/
def PagesRight (w : LocalWorld) (size : UInt32) (isFriends : UInt32 → Bool) : Prop :=
  (∀ start, w.extractFriends size start isFriends ≠ none) ∧
    ∀ e ∈ w.globals, candidate isFriends e → (w.pages size isFriends).count e.1 = 1

/-- The entries between the first and the one at `size` all have a profile, and of the others none
    is a candidate. -/
def Covered (w : LocalWorld) (size : UInt32) (isFriends : UInt32 → Bool) : Prop :=
  ∀ i e, w.globals[i]? = some e →
    if 0 < i ∧ i < size.toNat then e.2.profile.isSome else candidate isFriends e = false

section

variable {w : LocalWorld} {size : UInt32} {isFriends : UInt32 → Bool}

/-- Only the first page has anybody on it. -/
theorem pages_eq (h : w.Distinct) (hsize : size ≠ 0) :
    w.pages size isFriends = (w.extractFriends size 0 isFriends).getD [] := by
  have hpos : 0 < size.toNat := Nat.pos_of_ne_zero fun hzero => hsize (UInt32.toNat_inj.mp hzero)
  rw [pages, List.range_succ_eq_map, List.flatMap_cons, Nat.zero_mul, List.flatMap_map]
  have hrest : (List.range (min w.globals.length (2 ^ 32 - 1) / size.toNat)).flatMap (fun k =>
      (w.extractFriends size (UInt32.ofNat (k.succ * size.toNat)) isFriends).getD []) = [] := by
    rw [List.flatMap_eq_nil_iff]
    intro k hk
    have hstart : k.succ * size.toNat ≤ min w.globals.length (2 ^ 32 - 1) :=
      (Nat.le_div_iff_mul_le hpos).mp (List.mem_range.mp hk)
    have hmul : size.toNat ≤ k.succ * size.toNat := Nat.le_mul_of_pos_left _ (Nat.succ_pos k)
    have htoNat : (UInt32.ofNat (k.succ * size.toNat)).toNat = k.succ * size.toNat :=
      UInt32.toNat_ofNat_of_lt' (show _ < 2 ^ 32 by omega)
    have hinside : ¬ w.globals.length < k.succ * size.toNat := by omega
    rw [extractFriends_eq h, htoNat, if_neg hinside]
    dsimp only
    rw [looked_eq_nil hmul]
    rfl
  rw [hrest, List.append_nil]
  rfl

/-- The first page. -/
theorem extractFriends_zero (h : w.Distinct) :
    w.extractFriends size 0 isFriends =
      if (looked 0 size.toNat 0 w.globals).all fun e => e.2.profile.isSome then
        some (((looked 0 size.toNat 0 w.globals).filter (candidate isFriends)).map Prod.fst)
      else none := by
  rw [extractFriends_eq h]
  exact if_congr Iff.rfl rfl rfl

/-- What is looked at has a profile. -/
theorem all_looked (hall : ∀ i e, w.globals[i]? = some e → 0 < i ∧ i < size.toNat →
    e.2.profile.isSome) (first : Nat) :
    ((looked first size.toNat 0 w.globals).all fun e => e.2.profile.isSome) = true := by
  rw [List.all_eq_true]
  intro e he
  obtain ⟨i, hget, hlo, hhi⟩ := mem_looked.mp he
  exact hall i e hget ⟨by omega, hhi⟩

/-- How often an entry is on the first page. -/
theorem count_first (h : w.Distinct) {i : Nat} {e : UInt32 × Player}
    (hget : w.globals[i]? = some e) (hcandidate : candidate isFriends e = true) :
    (((looked 0 size.toNat 0 w.globals).filter (candidate isFriends)).map Prod.fst).count e.1 =
      if 0 < i ∧ i < size.toNat then 1 else 0 := by
  have hsub := (((looked 0 size.toNat 0 w.globals).filter_sublist
    (p := candidate isFriends)).trans (looked_sublist 0 size.toNat)).map Prod.fst
  rw [List.Nodup.count (h.sublist hsub)]
  refine if_congr ⟨?_, ?_⟩ rfl rfl
  · intro hmem
    obtain ⟨e', he', heq⟩ := List.mem_map.mp hmem
    obtain ⟨j, hget', hwindow⟩ := mem_looked.mp (List.mem_filter.mp he').1
    have hkey (k : Nat) (x : UInt32 × Player) (hk : w.globals[k]? = some x) :
        (w.globals.map Prod.fst)[k]? = some x.1 := by
      rw [List.getElem?_map, hk]
      rfl
    have hlt : i < (w.globals.map Prod.fst).length := by
      rw [List.length_map]
      exact (List.getElem?_eq_some_iff.mp hget).1
    have hij : i = j :=
      (List.getElem?_inj hlt h).mp (by rw [hkey i e hget, hkey j e' hget', heq])
    rwa [hij]
  · intro hwindow
    exact List.mem_map.mpr ⟨e, List.mem_filter.mpr ⟨mem_looked.mpr ⟨i, hget, hwindow⟩, hcandidate⟩,
      rfl⟩

theorem covered_of_pagesRight (h : w.Distinct) (hsize : size ≠ 0)
    (hright : w.PagesRight size isFriends) : w.Covered size isFriends := by
  obtain ⟨hsafe, honce⟩ := hright
  have hzero := hsafe 0
  rw [extractFriends_zero h] at hzero
  by_cases hall : ((looked 0 size.toNat 0 w.globals).all fun e => e.2.profile.isSome) = true
  · intro i e hget
    split
    · rename_i hwindow
      exact List.all_eq_true.mp hall e (mem_looked.mpr ⟨i, hget, hwindow⟩)
    · rename_i hwindow
      by_contra hcandidate
      rw [Bool.not_eq_false] at hcandidate
      have hcount := honce e (List.mem_of_getElem? hget) hcandidate
      rw [pages_eq h hsize, extractFriends_zero h, if_pos hall, Option.getD_some,
        count_first h hget hcandidate, if_neg hwindow] at hcount
      cases hcount
  · rw [if_neg hall] at hzero
    exact absurd rfl hzero

theorem pagesRight_of_covered (h : w.Distinct) (hsize : size ≠ 0)
    (hcovered : w.Covered size isFriends) : w.PagesRight size isFriends := by
  have hall := all_looked fun i e hget hwindow => by
    have hi := hcovered i e hget
    rwa [if_pos hwindow] at hi
  constructor
  · intro start
    rw [extractFriends_eq h]
    dsimp only
    rw [if_pos (hall _)]
    exact Option.some_ne_none _
  · intro e he hcandidate
    obtain ⟨i, hget⟩ := List.mem_iff_getElem?.mp he
    have hwindow : 0 < i ∧ i < size.toNat := by
      by_contra hwindow
      have hi := hcovered i e hget
      rw [if_neg hwindow, hcandidate] at hi
      cases hi
    rw [pages_eq h hsize, extractFriends_zero h, if_pos (hall 0), Option.getD_some,
      count_first h hget hcandidate, if_pos hwindow]

/-- **The pages are the list iff the first of them is**: whoever is first in `globals_`, or has an
    index of at least `size`, is on no page. -/
theorem pagesRight_iff (hw : Reachable w) (hsize : size ≠ 0) (isFriends : UInt32 → Bool) :
    w.PagesRight size isFriends ↔ w.Covered size isFriends :=
  ⟨covered_of_pagesRight hw.distinct hsize, pagesRight_of_covered hw.distinct hsize⟩

end

/-! ### Two players -/

/-- A message that brings a player online. -/
def cameOnline (w : LocalWorld) (uid : UInt8) : LocalWorld :=
  (w.onMessageReceive .updateToOnline [uid, 0, 0, 0, 5, 0, 0, 7] 0).1

/-- Two players are online, and nobody has stored a profile. -/
def twoOnline : LocalWorld := (make.cameOnline 1).cameOnline 2

/-- Two players with profiles. -/
def twoProfiles : LocalWorld :=
  (make.updatePublicProfile 1 ⟨1, [65]⟩).updatePublicProfile 2 ⟨2, [66]⟩

/-- A player with a profile, behind one without. -/
def oneProfile : LocalWorld := (make.updatePublicProfile 1 ⟨1, [65]⟩).cameOnline 2

/-- A profile that is not there is used; and where all are there the pages of two are empty but
    for the second player. -/
theorem not_pagesRight_two :
    (Reachable twoOnline ∧ twoOnline.extractFriends 2 0 (fun _ => false) = none ∧
      ¬ twoOnline.PagesRight 2 fun _ => false) ∧
    Reachable twoProfiles ∧ twoProfiles.pages 2 (fun _ => false) = [1] ∧
      ¬ twoProfiles.PagesRight 2 fun _ => false := by
  have hnone : twoOnline.extractFriends 2 0 (fun _ => false) = none := by decide +kernel
  have hpages : twoProfiles.pages 2 (fun _ => false) = [1] := by decide +kernel
  refine ⟨⟨.message _ _ _ (.message _ _ _ .make), hnone, fun h => h.1 0 hnone⟩,
    .updatePublicProfile _ _ (.updatePublicProfile _ _ .make), hpages, fun h => ?_⟩
  have hcount := h.2 (2, ⟨2, .nullID, 0, some ⟨2, [66]⟩⟩) (by decide +kernel) (by decide)
  rw [hpages] at hcount
  exact absurd hcount (by decide)

theorem pagesRight_iff_oneProfile :
    oneProfile.PagesRight 2 (fun _ => false) ↔ oneProfile.Covered 2 fun _ => false :=
  pagesRight_iff (.message _ _ _ (.updatePublicProfile _ _ .make)) (by decide) _

end LocalWorld

end Jengine.LogicServer
