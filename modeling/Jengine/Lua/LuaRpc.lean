import Jengine.Cluster.RpcService
import Jengine.Lua.RoundTrip

/-!
# Calls between scripts

A script calls a method of a service in another script (`base/lua/cluster/lua-cluster.cpp`):
`rpc_stub_call` sends the name of the method and the arguments, `LuaRpcService::OnCall` calls the
method and replies with what it returns, and `rpc_stub_call_callback` resumes the script that has
called with that.  A method that returns nothing is replied for with nil.

The methods are functions here, from the values that are read to the values that they return; a
method that raises an error returns nothing at all, and no reply is sent.
-/

namespace Jengine.Lua

open Jengine.Lib Value

/-- A method, from its arguments to its results. -/
abbrev Method := List (Value Unit) → Option (List (Value Nat))

section Api

variable (room fuel : Nat)

/-- The values from the index `first` on, after their number. -/
def writeArgs (first count : Nat) : Op Nat Unit := do
  writeUShort count
  (List.range' first count).forM fun i => writeLuaValue room fuel (.ofNat i)

def readArgs : Op Unit Nat := do
  let argc ← readUShort
  (List.range argc).forM fun _ => readLuaValue room fuel
  return argc

/-- The values that are read onto the stack `below`, for the function that is called with them. -/
def readValues (below : List (Value Unit)) (msgin : List UInt8) : Option (List (Value Unit)) :=
  (readArgs room fuel (below, msgin)).map fun r => (r.2.1.take r.1).reverse

/-- `write_lua_value` with the first index above the top, where nil is. -/
def writeAbove : Op Nat Unit := do
  push room .nil
  writeSByte (Value.nil : Value Nat).type
  pop 1

/-- The message of `rpc_stub_call`, behind the head; `WriteString` is `WriteBits` with the length
    of the string.  The main thread and the list of coroutines are above the arguments. -/
def rpcStubCall (methodName : List UInt8) (args : List (Value Nat)) : Option (List UInt8) :=
  let L := .table 0 [] :: .unsupported .thread :: args.reverse
  let write : Op Nat Unit := do
    writeBits methodName
    writeArgs room fuel 1 args.length
  (write (L, [])).map fun r => r.2.2

/-- The stack of a service that has found the method: the list of the services, the service and
    the method. -/
def serviceStack {β : Type} (b : β) : List (Value β) :=
  [.unsupported .function, .table b [], .table b []]

/-- The reply of `OnCall` with what a method has returned.  The results are where the method
    was. -/
def replyWith (results : List (Value Nat)) : Option (List UInt8) :=
  let L := results.reverse ++ (serviceStack 0).tail
  let posBefore := (serviceStack (β := Nat) 0).length
  let write : Op Nat Unit :=
    if L.length < posBefore then do
      writeUShort 1
      writeAbove room
    else writeArgs room fuel posBefore (L.length - posBefore + 1)
  (write (L, [])).map fun r => r.2.2

/-- `LuaRpcService::OnCall`: the reply, if there is one. -/
def onCall (methods : List UInt8 → Option Method) (msgin : List UInt8) :
    Option (Option (List UInt8)) := do
  let (methodName, (_, msgin)) ← readString (([] : List (Value Unit)), msgin)
  match methods (methodName.takeWhile (· ≠ 0)) with
  -- "service has no method"
  | none => return none
  | some method =>
      match method (← readValues room fuel (serviceStack ()) msgin) with
      -- "exec error"
      | none => return none
      | some results => some <$> replyWith room fuel results

/-- `rpc_stub_call_callback`: what the script is resumed with. -/
def rpcStubCallCallback (msgin : List UInt8) : Option (List (Value Unit)) :=
  readValues room fuel [] msgin

end Api

/-! ### Lists of values -/

/-- The bytes of some values, after their number. -/
def argBytes (vs : List (Value Nat)) : List UInt8 :=
  toLE 2 (UInt16.ofNat vs.length).toNat ++ vs.flatMap bytes

/-- What can be sent and arrives. -/
structure Sendable (vs : List (Value Nat)) : Prop where
  count : vs.length < 65536
  wellFormed : ∀ v ∈ vs, WellFormed v
  bordersFit : ∀ v ∈ vs, BordersFit v
  noZero : ∀ v ∈ vs, NoZero v

/-- There are slots to read the values when so many are taken. -/
def Fits (room taken : Nat) (vs : List (Value Nat)) : Prop :=
  ∀ e ∈ vs.zipIdx, taken + e.2 + readNeed e.1 ≤ room

theorem same_readBacks {vs : List (Value Nat)} (h : Sendable vs) :
    List.Forall₂ Same vs (vs.map readBack) := by
  rw [List.forall₂_map_right_iff, List.forall₂_same]
  exact fun v hv => (same_readBack_iff (h.wellFormed v hv) (h.bordersFit v hv)).mpr (h.noZero v hv)

section Lists

variable (room : Nat) {fuel : Nat} {vs : List (Value Nat)}

/-- The values are on the stack from the index `first` on. -/
theorem returns_writeArgs (hwell : ∀ v ∈ vs, WellFormed v) (hfuel : ∀ v ∈ vs, size v ≤ fuel)
    (top below : List (Value Nat)) (first : Nat) (hfirst : below.length + 1 = first)
    (m : List UInt8) :
    Returns (writeArgs room fuel first vs.length) (top ++ (vs.reverse ++ below), m)
      (∀ v ∈ vs, (top ++ (vs.reverse ++ below)).length + need v ≤ room) ()
      (top ++ (vs.reverse ++ below), m ++ argBytes vs) := by
  let L := top ++ (vs.reverse ++ below)
  let val (i : Nat) : Value Nat := (vs[i - first]?).getD .nil
  let len := toLE 2 (UInt16.ofNat vs.length).toNat
  have hvals : (List.range' first vs.length).map val = vs := by
    apply List.ext_getElem
    · rw [List.length_map, List.length_range']
    · intro i hi hi'
      rw [List.getElem_map, List.getElem_range', Nat.one_mul]
      show (vs[first + i - first]?).getD .nil = vs[i]
      rw [Nat.add_sub_cancel_left, List.getElem?_eq_getElem hi', Option.getD_some]
  have hloop : Returns ((List.range' first vs.length).forM fun i =>
      writeLuaValue room fuel (.ofNat i)) (L, m ++ len)
      (∀ i ∈ List.range' first vs.length, L.length + need (val i) ≤ room) ()
      (L, m ++ len ++ (List.range' first vs.length).flatMap fun i => bytes (val i)) := by
    have hfor := Returns.forM (f := fun i => writeLuaValue room fuel (.ofNat i))
      (S := fun done _ => (L, m ++ len ++ done.flatMap fun i => bytes (val i)))
      (P := fun i => L.length + need (val i) ≤ room) (List.range' first vs.length) ?_
    · rw [List.flatMap_nil, List.append_nil] at hfor
      exact hfor
    · intro done i rest hsplit
      have hmem : i ∈ List.range' first vs.length := by
        rw [hsplit]
        exact List.mem_append_right _ List.mem_cons_self
      obtain ⟨hlow, hhigh⟩ := List.mem_range'_1.mp hmem
      have hlt : i - first < vs.length := by omega
      have hval : val i = vs[i - first] := by
        show (vs[i - first]?).getD .nil = _
        rw [List.getElem?_eq_getElem hlt, Option.getD_some]
      have hindex : L[position L (.ofNat i)]? = some (val i) := by
        have hlength : L.length = top.length + (vs.length + below.length) := by
          rw [List.length_append, List.length_append, List.length_reverse]
        have hposition : position L (.ofNat i) = top.length + (vs.length - 1 - (i - first)) := by
          rw [position, if_pos (by omega)]
          omega
        rw [hposition, List.getElem?_append_right (by omega), Nat.add_sub_cancel_left,
          List.getElem?_append_left (by rw [List.length_reverse]; omega),
          List.getElem?_reverse (by omega), hval]
        rw [show vs.length - 1 - (vs.length - 1 - (i - first)) = i - first by omega]
        exact List.getElem?_eq_getElem hlt
      have hin : val i ∈ vs := hval ▸ List.getElem_mem hlt
      have hwrite := writes_of_wellFormed room (hwell _ hin) (hfuel _ hin) (.ofNat i) L
        (m ++ len ++ done.flatMap fun i => bytes (val i)) hindex
      rw [List.flatMap_append, List.flatMap_singleton, ← List.append_assoc]
      exact hwrite
  have hflat : ((List.range' first vs.length).flatMap fun i => bytes (val i)) =
      vs.flatMap bytes := by
    conv_rhs => rw [← hvals, List.flatMap_map]
  rw [hflat, List.append_assoc] at hloop
  have hlen : writeUShort vs.length (L, m) = some ((), (L, m ++ len)) := rfl
  refine (Returns.step hlen hloop).congr ?_
  rw [← List.forall_mem_map (f := val) (P := fun v => L.length + need v ≤ room), hvals]

theorem returns_readArgs (h : Sendable vs) (hfuel : ∀ v ∈ vs, size v ≤ fuel)
    (L : List (Value Unit)) (rest : List UInt8) :
    Returns (readArgs room fuel) (L, argBytes vs ++ rest) (Fits room L.length vs) vs.length
      ((vs.map readBack).reverse ++ L, rest) := by
  have hcount : ((List.range vs.length).forM fun _ => readLuaValue room fuel) =
      vs.zipIdx.forM fun _ => readLuaValue room fuel :=
    forM_const _ (by rw [List.length_range, List.length_zipIdx])
  let S (done left : List (Value Nat × Nat)) : List (Value Unit) × List UInt8 :=
    ((done.map fun e => readBack e.1).reverse ++ L, (left.flatMap fun e => bytes e.1) ++ rest)
  have hloop : Returns ((List.range vs.length).forM fun _ => readLuaValue room fuel)
      (S [] vs.zipIdx) (Fits room L.length vs) () (S vs.zipIdx []) := by
    rw [hcount]
    refine Returns.forM (P := fun e : Value Nat × Nat => L.length + e.2 + readNeed e.1 ≤ room)
      vs.zipIdx ?_
    intro done e left hsplit
    have hget : vs.zipIdx[done.length]? = some e := by
      rw [hsplit, List.getElem?_append_right (Nat.le_refl _), Nat.sub_self]
      rfl
    rw [List.getElem?_zipIdx, Nat.zero_add, Option.map_eq_some_iff] at hget
    obtain ⟨v, hv, rfl⟩ := hget
    have hin := List.mem_of_getElem? hv
    have hread := reads_of_wellFormed room (h.wellFormed v hin) (h.bordersFit v hin) (hfuel v hin)
      ((done.map fun e => readBack e.1).reverse ++ L) ((left.flatMap fun e => bytes e.1) ++ rest)
    have hnext : S (done ++ [(v, done.length)]) left =
        (readBack v :: ((done.map fun e => readBack e.1).reverse ++ L),
          (left.flatMap fun e => bytes e.1) ++ rest) := by
      simp only [S, List.map_append, List.map_cons, List.map_nil, List.reverse_append,
        List.reverse_singleton, List.nil_append, List.cons_append]
    rw [hnext]
    simp only [S, List.flatMap_cons, List.append_assoc]
    refine hread.congr ?_
    rw [List.length_append, List.length_reverse, List.length_map, Nat.add_comm done.length]
  have hstart : S [] vs.zipIdx = (L, vs.flatMap bytes ++ rest) := by
    have hflat : (vs.zipIdx.flatMap fun e => bytes e.1) = vs.flatMap bytes := by
      conv_rhs => rw [← List.zipIdx_map_fst 0 vs, List.flatMap_map]
    simp only [S, hflat, List.map_nil, List.reverse_nil, List.nil_append]
  have hend : S vs.zipIdx [] = ((vs.map readBack).reverse ++ L, rest) := by
    have hmap : (vs.zipIdx.map fun e => readBack e.1) = vs.map readBack := by
      conv_rhs => rw [← List.zipIdx_map_fst 0 vs, List.map_map]
      rfl
    simp only [S, hmap, List.flatMap_nil, List.nil_append]
  rw [hstart, hend] at hloop
  rw [argBytes, List.append_assoc]
  refine Returns.step (readUShort_toLE L (vs.flatMap bytes ++ rest) h.count) ?_
  exact hloop.last rfl

/-- What is read is what was sent. -/
theorem readValues_some (h : Sendable vs) (hfuel : ∀ v ∈ vs, size v ≤ fuel)
    {below ws : List (Value Unit)} (hread : readValues room fuel below (argBytes vs) = some ws) :
    Fits room below.length vs ∧ ws = vs.map readBack := by
  obtain ⟨r, hr, hws⟩ := Option.map_eq_some_iff.mp hread
  have hreads := returns_readArgs room h hfuel below []
  rw [List.append_nil] at hreads
  obtain ⟨hfits, rfl⟩ := hreads.of_some hr
  refine ⟨hfits, ?_⟩
  rw [← hws, List.take_left' (by rw [List.length_reverse, List.length_map]), List.reverse_reverse]

theorem readValues_of_fits (h : Sendable vs) (hfuel : ∀ v ∈ vs, size v ≤ fuel)
    {below : List (Value Unit)} (hfits : Fits room below.length vs) :
    readValues room fuel below (argBytes vs) = some (vs.map readBack) := by
  have hread := (returns_readArgs room h hfuel below []).ok hfits
  rw [List.append_nil] at hread
  rw [readValues, hread, Option.map_some,
    List.take_left' (by rw [List.length_reverse, List.length_map]), List.reverse_reverse]

end Lists

/-! ### A call and its reply -/

/-- With enough fuel `f` returns `a`. -/
def Yields {α : Type} (f : Nat → Option α) (a : α) : Prop := ∃ n, ∀ fuel, n ≤ fuel → f fuel = some a

theorem exists_fuel (vs : List (Value Nat)) :
    ∃ n, ∀ fuel, n ≤ fuel → ∀ v ∈ vs, size v ≤ fuel := by
  induction vs with
  | nil => exact ⟨0, fun _ _ _ hv => absurd hv List.not_mem_nil⟩
  | cons v vs ih =>
      obtain ⟨n, hn⟩ := ih
      refine ⟨max (size v) n, fun fuel hle => List.forall_mem_cons.mpr ⟨?_, ?_⟩⟩
      · exact le_trans (le_max_left _ _) hle
      · exact hn fuel (le_trans (le_max_right _ _) hle)

/-- What is found with enough fuel is found with enough fuel for the values, too. -/
theorem Yields.exists_ge {α : Type} {f : Nat → Option α} {a : α} (h : Yields f a)
    (vs : List (Value Nat)) :
    ∃ n, ∀ fuel, n ≤ fuel → f fuel = some a ∧ ∀ v ∈ vs, size v ≤ fuel := by
  obtain ⟨n, hn⟩ := h
  obtain ⟨k, hk⟩ := exists_fuel vs
  exact ⟨max n k, fun fuel hle => ⟨hn fuel (le_trans (le_max_left n k) hle),
    hk fuel (le_trans (le_max_right n k) hle)⟩⟩

/-- The bytes of the name of a method. -/
def nameBytes (name : List UInt8) : List UInt8 :=
  toLE 2 (UInt16.ofNat name.length).toNat ++ name.take (UInt16.ofNat name.length).toNat

/-- What the script gets that has called: nil for nothing. -/
def shown : List (Value Nat) → List (Value Nat)
  | [] => [.nil]
  | results => results

theorem Sendable.shown {results : List (Value Nat)} (h : Sendable results) :
    Sendable (shown results) := by
  cases results with
  | nil =>
      have hnil : ∀ v ∈ [Value.nil (β := Nat)], v = .nil := fun v hv => List.mem_singleton.mp hv
      exact ⟨by decide, fun v hv => hnil v hv ▸ .nil, fun v hv => hnil v hv ▸ .nil,
        fun v hv => hnil v hv ▸ .nil⟩
  | cons v results => exact h

variable {room : Nat} {name : List UInt8} {args : List (Value Nat)}

theorem rpcStubCall_bytes (hwell : ∀ v ∈ args, WellFormed v) {request : List UInt8}
    (h : Yields (fun fuel => rpcStubCall room fuel name args) request) :
    request = nameBytes name ++ argBytes args := by
  obtain ⟨n, hn⟩ := h.exists_ge args
  obtain ⟨hcall, hfuel⟩ := hn n (Nat.le_refl n)
  have hname : writeBits name (.table 0 [] :: .unsupported .thread :: args.reverse, []) =
      some ((), (.table 0 [] :: .unsupported .thread :: args.reverse, nameBytes name)) := by
    show some ((), (_, [] ++ toLE 2 (UInt16.ofNat (UInt16.ofNat name.length).toNat).toNat ++
      name.take (UInt16.ofNat name.length).toNat)) = _
    rw [UInt16.ofNat_toNat]
    rfl
  have hargs := returns_writeArgs room hwell hfuel [.table 0 [], .unsupported .thread] [] 1 rfl
    (nameBytes name)
  rw [List.append_nil] at hargs
  have hwrite := Returns.step (f := fun _ => writeArgs room n 1 args.length) hname hargs
  obtain ⟨r, hr, hbytes⟩ := Option.map_eq_some_iff.mp hcall
  rw [← hbytes, (hwrite.of_some hr).2]

/-- The method is called with what was sent. -/
theorem onCall_method (hargs : Sendable args) (hname : name.length ≤ 65535)
    (hzero : (0 : UInt8) ∉ name) {methods : List UInt8 → Option Method} {method : Method}
    (hmethod : methods name = some method)
    {reply : List UInt8}
    (h : Yields (fun fuel => onCall room fuel methods (nameBytes name ++ argBytes args))
      (some reply)) :
    ∃ results, method (args.map readBack) = some results ∧
      Yields (fun fuel => replyWith room fuel results) reply := by
  obtain ⟨n, hn⟩ := h.exists_ge args
  have hcut : name.takeWhile (· ≠ 0) = name := by
    rw [List.takeWhile_eq_self_iff]
    intro b hb
    exact decide_eq_true fun hb0 => hzero (hb0 ▸ hb)
  have hrun : ∀ fuel, n ≤ fuel → ∃ results, method (args.map readBack) = some results ∧
      replyWith room fuel results = some reply := by
    intro fuel hle
    obtain ⟨hcall, hfuel⟩ := hn fuel hle
    have hread := readString_bytes ([] : List (Value Unit)) (argBytes args) hname
    simp only [onCall, nameBytes, Option.bind_eq_bind, hread, Option.bind_some, hcut, hmethod]
      at hcall
    obtain ⟨ws, hread, hcall⟩ := Option.bind_eq_some_iff.mp hcall
    obtain ⟨-, rfl⟩ := readValues_some room hargs hfuel hread
    cases hresults : method (args.map readBack) with
    | none =>
        rw [hresults] at hcall
        cases hcall
    | some results =>
        rw [hresults] at hcall
        obtain ⟨r, hr, hsame⟩ := Option.map_eq_some_iff.mp hcall
        exact ⟨results, rfl, hr.trans hsame⟩
  obtain ⟨results, hresults, -⟩ := hrun n (Nat.le_refl n)
  refine ⟨results, hresults, n, fun fuel hle => ?_⟩
  obtain ⟨results', hresults', hreply⟩ := hrun fuel hle
  rw [hresults] at hresults'
  cases hresults'
  exact hreply

theorem replyWith_bytes {results : List (Value Nat)} (hwell : ∀ v ∈ results, WellFormed v)
    {reply : List UInt8} (h : Yields (fun fuel => replyWith room fuel results) reply) :
    reply = argBytes (shown results) := by
  obtain ⟨n, hn⟩ := h.exists_ge results
  obtain ⟨hreply, hfuel⟩ := hn n (Nat.le_refl n)
  obtain ⟨r, hr, hbytes⟩ := Option.map_eq_some_iff.mp hreply
  cases results with
  | nil =>
      have habove : Returns (writeAbove room) ((serviceStack 0).tail, [1, 0]) (2 + 1 ≤ room) ()
          ((serviceStack 0).tail, [1, 0, 0]) :=
        (returns_push room (.nil : Value Nat) (serviceStack 0).tail [1, 0]).last rfl
      have hlen : writeUShort 1 ((serviceStack 0).tail, []) =
          some ((), ((serviceStack (β := Nat) 0).tail, [1, 0])) := rfl
      have hwrite := Returns.step (f := fun _ => writeAbove room) hlen habove
      rw [← hbytes, (hwrite.of_some hr).2]
      rfl
  | cons v results =>
      have hlength : ((v :: results).reverse ++ (serviceStack 0).tail).length -
          (serviceStack (β := Nat) 0).length + 1 = (v :: results).length := by
        rw [List.length_append, List.length_reverse]
        simp [serviceStack]
      have hwrite := returns_writeArgs room hwell hfuel [] (serviceStack 0).tail
        (serviceStack (β := Nat) 0).length rfl []
      have hshort : ¬((v :: results).reverse ++ (serviceStack 0).tail).length <
          (serviceStack (β := Nat) 0).length := by
        rw [List.length_append, List.length_reverse]
        simp [serviceStack]
      rw [if_neg hshort, hlength] at hr
      rw [← hbytes, (hwrite.of_some hr).2]
      rfl

theorem rpcStubCallCallback_yields {vs : List (Value Nat)} (h : Sendable vs)
    (hfits : Fits room 0 vs) :
    Yields (fun fuel => rpcStubCallCallback room fuel (argBytes vs)) (vs.map readBack) := by
  obtain ⟨n, hn⟩ := exists_fuel vs
  exact ⟨n, fun fuel hle => readValues_of_fits room h (hn fuel hle) hfits⟩

/-! ### Messages of mailboxes -/

/-- `mailbox_meta_send` and `sendto`: the message with the values above `below`. -/
def sendMessage (room fuel : Nat) (below args : List (Value Nat)) : Option (List UInt8) :=
  (writeArgs room fuel (below.length + 1) args.length (args.reverse ++ below, [])).map fun r =>
    r.2.2

/-- `mailbox:send(to, ...)`; the mailbox is below. -/
def mailboxMetaSend (room fuel : Nat) (toid : UInt64) : List (Value Nat) → Option (List UInt8) :=
  sendMessage room fuel [.scalar (.number toid), .unsupported .userdata]

/-- `sendto(to, ...)`. -/
def sendto (room fuel : Nat) (toid : UInt64) : List (Value Nat) → Option (List UInt8) :=
  sendMessage room fuel [.scalar (.number toid)]

/-- `LuaMailbox::OnMessageReceive`: what the handler is called with.  The handler is below, with
    where it has been found. -/
def mailboxOnMessageReceive (room fuel : Nat) (msgin : List UInt8) : Option (List (Value Unit)) :=
  readValues room fuel
    [.unsupported .function, .table () [], .unsupported .userdata, .table () []] msgin

/-- The handler of a mailbox is called with what is sent to it. -/
theorem sendMessage_received (hargs : Sendable args) {below : List (Value Nat)}
    {msgout : List UInt8} (h : Yields (fun fuel => sendMessage room fuel below args) msgout)
    (hfits : Fits room 4 args) :
    ∃ vs, Yields (fun fuel => mailboxOnMessageReceive room fuel msgout) vs ∧
      List.Forall₂ Same args vs := by
  obtain ⟨n, hn⟩ := h.exists_ge args
  obtain ⟨hsend, hfuel⟩ := hn n (Nat.le_refl n)
  obtain ⟨r, hr, hbytes⟩ := Option.map_eq_some_iff.mp hsend
  have hwrite := returns_writeArgs room hargs.wellFormed hfuel [] below _ rfl []
  have hmsg : msgout = argBytes args := by
    rw [← hbytes, (hwrite.of_some hr).2]
    rfl
  rw [hmsg]
  exact ⟨args.map readBack,
    ⟨n, fun fuel hle => readValues_of_fits room hargs (hn fuel hle).2 hfits⟩, same_readBacks hargs⟩

/-! ### Calls in a run -/

open Cluster (MailboxID RpcService)
open Cluster.RpcService (step start Clear Serves)

/-- `OnCall` replies to the message `request` with `reply`. -/
def Replies (room : Nat) (methods : List UInt8 → Option Method) (request reply : List UInt8) :
    Prop :=
  Yields (fun fuel => onCall room fuel methods request) (some reply)

/-- **A call returns what the method returns.**  The stubs and the service are those of scripts,
    and whose callback is run has called the method `name` with `args`: then the method has been
    called with the same values, and the script is resumed with the values that it has
    returned. -/
theorem run_returns (room : Nat) (methods : List UInt8 → Option Method)
    (as : List (RpcService.Action (List UInt8) (List UInt8))) (hclear : Along step Clear start as)
    (hserves : Along step (Serves (Replies room methods)) start as) {m : MailboxID}
    {e : Nat × List UInt8} (he : e ∈ (run step start as).results m) {name : List UInt8}
    {args : List (Value Nat)} (hcalled : ∃ a, ((run step start as).asked m)[e.1]? = some a ∧
      Yields (fun fuel => rpcStubCall room fuel name args) a.body) (hargs : Sendable args)
    (hname : name.length ≤ 65535) (hzero : (0 : UInt8) ∉ name) {method : Method}
    (hmethod : methods name = some method) :
    ∃ ws results, List.Forall₂ Same args ws ∧ method ws = some results ∧
      (Sendable results → Fits room 0 (shown results) →
        ∃ vs, Yields (fun fuel => rpcStubCallCallback room fuel e.2) vs ∧
          List.Forall₂ Same (shown results) vs) := by
  obtain ⟨a, ha, hreplies⟩ := RpcService.run_computed (Replies room methods) as hclear hserves he
  obtain ⟨b, hb, hrequest⟩ := hcalled
  rw [ha, Option.some.injEq] at hb
  rw [← hb] at hrequest
  rw [rpcStubCall_bytes hargs.wellFormed hrequest] at hreplies
  obtain ⟨results, hresults, hreply⟩ := onCall_method hargs hname hzero hmethod hreplies
  refine ⟨args.map readBack, results, same_readBacks hargs, hresults, fun hsend hfits => ?_⟩
  rw [replyWith_bytes hsend.wellFormed hreply]
  exact ⟨(shown results).map readBack, rpcStubCallCallback_yields hsend.shown hfits,
    same_readBacks hsend.shown⟩

/-- The method `not`. -/
def notMethod : Method
  | [.scalar (.boolean b)] => some [.scalar (.boolean !b)]
  | _ => none

def notMethods (name : List UInt8) : Option Method :=
  if name = [110, 111, 116] then some notMethod else none

/-- The messages of a call `not(true)`. -/
def notCall : List (RpcService.Action (List UInt8) (List UInt8)) :=
  [.call ⟨1, 1⟩ ⟨[3, 0, 110, 111, 116, 1, 0, 1, 1], false⟩, .request 0, .answer 0 [1, 0, 1, 0],
    .reply 0 []]

theorem replies_not : Replies 20 notMethods [3, 0, 110, 111, 116, 1, 0, 1, 1] [1, 0, 1, 0] := by
  refine ⟨1, fun fuel hle => ?_⟩
  obtain ⟨fuel, rfl⟩ := Nat.exists_eq_succ_of_ne_zero (Nat.ne_of_gt hle)
  rfl

theorem run_returns_not :
    ∃ ws results, List.Forall₂ Same [.scalar (.boolean true)] ws ∧
      notMethod ws = some results ∧
      (Sendable results → Fits 20 0 (shown results) →
        ∃ vs, Yields (fun fuel => rpcStubCallCallback 20 fuel [1, 0, 1, 0]) vs ∧
          List.Forall₂ Same (shown results) vs) := by
  have hcalled : ∃ a, ((run step start notCall).asked ⟨1, 1⟩)[0]? = some a ∧
      Yields (fun fuel => rpcStubCall 20 fuel [110, 111, 116] [.scalar (.boolean true)])
        a.body := by
    refine ⟨_, rfl, 1, fun fuel hle => ?_⟩
    obtain ⟨fuel, rfl⟩ := Nat.exists_eq_succ_of_ne_zero (Nat.ne_of_gt hle)
    rfl
  have hone : ∀ v ∈ [Value.scalar (β := Nat) (.boolean true)], v = .scalar (.boolean true) :=
    fun v hv => List.mem_singleton.mp hv
  refine run_returns 20 notMethods notCall ?_ ?_ (m := ⟨1, 1⟩) (e := (0, [1, 0, 1, 0]))
    List.mem_cons_self hcalled ?_ (by decide) (by decide) rfl
  · exact ⟨rfl, trivial, trivial, fun r hr _ _ c _ _ => trivial, trivial⟩
  · refine ⟨trivial, trivial, ?_, trivial, trivial⟩
    rintro q ⟨⟩
    exact replies_not
  · exact ⟨by decide, fun v hv => hone v hv ▸ .scalar rfl, fun v hv => hone v hv ▸ .scalar,
      fun v hv => hone v hv ▸ .scalar rfl⟩

end Jengine.Lua
