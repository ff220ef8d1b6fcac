import Jengine.Dbo.PacketReader
import Jengine.Dbo.PacketWriter
import Jengine.Dbo.Statement
import Jengine.Lib.Lines

/-!
# The handshake with a mysql server

`RealConnection::HandleAuthInitHandshake` and `calculate_mysql_native_password`
(`base/dbo_bk/internal/realconnection.cpp`): the greeting of the server is read, and answered
with the account and a token for its password.  The token is made with SHA-1, which is
OpenSSL's; here it is a parameter.

A server that keeps the hash of the hash of the password checks the token without knowing the
password.
-/

namespace Jengine.Dbo.Internal

open Jengine.Lib Jengine.Memory RefMemoryChunk

/-! ### Capabilities -/

def clientConnectWithDB : UInt32 := 0x00000008
def clientProtocol41 : UInt32 := 0x00000200
def clientTransactions : UInt32 := 0x00002000
def clientSecureConnection : UInt32 := 0x00008000
def clientPluginAuth : UInt32 := 0x00080000
def clientPluginAuthLenencClientData : UInt32 := 0x00200000

/-- `client_capability`. -/
def clientCapability : UInt32 :=
  clientProtocol41 ||| clientConnectWithDB ||| clientTransactions ||| clientSecureConnection |||
    clientPluginAuth ||| clientPluginAuthLenencClientData

/-- `capability & flag`, as a condition. -/
def HasFlag (capability flag : UInt32) : Prop := capability &&& flag ≠ 0

instance (capability flag : UInt32) : Decidable (HasFlag capability flag) := by
  unfold HasFlag
  infer_instance

/-! ### Reading the greeting -/

/-- The reading functions of `PacketIn` that the handshake calls. -/
structure Readers (M : Type → Type) where
  /-- Into a variable that the read fills. -/
  readFixedInteger : Nat → M Nat
  readFixedString : Nat → M (List UInt8)
  readNulTerminateString : M (List UInt8)
  readRestOfPacketString : M (List UInt8)
  skip : Nat → M Unit
  freeCount : M Nat

/-- Through the chunks of a packet. -/
def PacketIn.readers (m : Bytes) : Readers PacketIn.Op where
  readFixedInteger n := readFixedInteger m n 0
  readFixedString n := readFixedString m [] n
  readNulTerminateString := readNulTerminateString m []
  readRestOfPacketString := readRestOfPacketString m []
  skip := skip
  freeCount := packetFreeCount

/-- From a byte string. -/
def Reader.readers : Readers Reader where
  readFixedInteger := readFixedInteger
  readFixedString := readFixedString
  readNulTerminateString := readNulTerminateString
  readRestOfPacketString := readRestOfPacketString
  skip := skip
  freeCount := freeCount

/-- The variables of `HandleAuthInitHandshake` when all has been read. -/
structure InitHandshake where
  serverVersion : List UInt8
  connectionId : Nat
  authPluginDataPart1 : List UInt8
  filter : Nat
  capability : UInt32
  charset : Nat
  statusFlag : Nat
  authPluginDataLength : UInt8
  authPluginDataPart2 : List UInt8
  authPluginName : List UInt8
deriving DecidableEq, Repr

/-- What the first packet of a server is. -/
inductive FirstPacket where
  /-- An error packet. -/
  | err (code : UInt16) (reason : List UInt8)
  | init (h : InitHandshake)
deriving DecidableEq, Repr

section

variable {M : Type → Type} [Monad M] [MonadExceptOf Fault M] (R : Readers M)

/-- `charset`, `status_flag` and `capability_flag_2`, which old servers do not send. -/
def readExtended : M (Nat × Nat × Nat) := do
  let free ← R.freeCount
  if 18 ≤ free then
    let charset ← R.readFixedInteger 1
    let statusFlag ← R.readFixedInteger 2
    let capabilityFlag2 ← R.readFixedInteger 2
    return (charset, statusFlag, capabilityFlag2)
  else
    return (0, 0, 0)

/-- `capability_flag_1`. -/
def readCapabilityFlag1 : M Nat := do
  let free ← R.freeCount
  if 2 ≤ free then R.readFixedInteger 2 else return 0

/-- `auth_plugin_data_part_2`, whose last byte is taken away, and `auth_plugin_name`. -/
def readAuthPluginData (capability : UInt32) (authPluginDataLength : UInt8) :
    M (List UInt8 × List UInt8) :=
  if HasFlag capability clientSecureConnection then do
    let part2 ← R.readFixedString (max 13 (authPluginDataLength.toNat - 8))
    if HasFlag capability clientPluginAuth then
      let name ← R.readRestOfPacketString
      return (part2.dropLast, name)
    else
      return (part2.dropLast, [])
  else
    return ([], [])

/-- `HandleAuthInitHandshake`, up to the check of `CLIENT_PROTOCOL_41`. -/
def readInitHandshake : M FirstPacket := do
  let protocolVersion ← R.readFixedInteger 1
  if protocolVersion = packetErr.toNat then
    let code ← R.readFixedInteger 2
    let reason ← R.readRestOfPacketString
    return .err (UInt16.ofNat code) reason
  else if protocolVersion = 10 then
    let serverVersion ← R.readNulTerminateString
    let connectionId ← R.readFixedInteger 4
    let part1 ← R.readFixedString 8
    let filter ← R.readFixedInteger 1
    let capabilityFlag1 ← readCapabilityFlag1 R
    let (charset, statusFlag, capabilityFlag2) ← readExtended R
    let capability := UInt32.ofNat (capabilityFlag2 * 2 ^ 16 + capabilityFlag1)
    let authPluginDataLength ← R.readFixedInteger 1
    R.skip 10
    let (part2, name) ← readAuthPluginData R capability (UInt8.ofNat authPluginDataLength)
    if HasFlag capability clientProtocol41 then
      return .init ⟨serverVersion, connectionId, part1, filter, capability, charset, statusFlag,
        UInt8.ofNat authPluginDataLength, part2, name⟩
    else
      throw (.exception "the server is not support CLIENT_PROTOCOL_41")
  else
    throw (.exception "not support mysql server protocol version")

end

/-- The handshake reads the bytes of the packet, however it is cut into chunks. -/
theorem simulates_readInitHandshake (m : Bytes) :
    PacketIn.Simulates m (readInitHandshake (PacketIn.readers m))
      (readInitHandshake Reader.readers) := by
  have hint : ∀ {n : Nat}, n < 2 ^ 16 → PacketIn.Simulates m
      ((PacketIn.readers m).readFixedInteger n) (Reader.readers.readFixedInteger n) :=
    fun {n} hn => PacketIn.simulates_readFixedInteger m hn (Nat.pow_pos (by decide))
  have hrest := PacketIn.simulates_readRestOfPacketString m []
  have hflag : PacketIn.Simulates m (readCapabilityFlag1 (PacketIn.readers m))
      (readCapabilityFlag1 Reader.readers) :=
    (PacketIn.simulates_freeCount m).bind fun _ => .ite (hint (by decide)) (.pure m 0)
  have hextended : PacketIn.Simulates m (readExtended (PacketIn.readers m))
      (readExtended Reader.readers) :=
    (PacketIn.simulates_freeCount m).bind fun _ =>
      .ite ((hint (by decide)).bind fun _ => (hint (by decide)).bind fun _ =>
        (hint (by decide)).bind fun _ => .pure m _) (.pure m _)
  have hplugin : ∀ (capability : UInt32) (len : UInt8), PacketIn.Simulates m
      (readAuthPluginData (PacketIn.readers m) capability len)
      (readAuthPluginData Reader.readers capability len) := by
    intro capability len
    have hlen : len.toNat < 2 ^ 8 := len.toNat_lt
    refine .ite (.bind (PacketIn.simulates_readFixedString m [] (by omega)) fun _ => ?_) (.pure m _)
    exact .ite (hrest.bind fun _ => .pure m _) (.pure m _)
  refine (hint (by decide)).bind fun protocolVersion => .ite ?_ (.ite ?_ (.throw m _))
  · exact (hint (by decide)).bind fun _ => hrest.bind fun _ => .pure m _
  · refine (PacketIn.simulates_readNulTerminateString m).bind fun _ => ?_
    refine (hint (by decide)).bind fun _ => ?_
    refine (PacketIn.simulates_readFixedString m [] (by decide)).bind fun _ => ?_
    refine (hint (by decide)).bind fun _ => hflag.bind fun _ => hextended.bind fun _ => ?_
    refine (hint (by decide)).bind fun _ => ?_
    refine (PacketIn.simulates_skip m (by decide)).bind fun _ => ?_
    exact (hplugin _ _).bind fun _ => .ite (.pure m _) (.throw m _)

/-! ### Answering -/

/-- `calculate_mysql_native_password`: every result of `sha1` has twenty bytes. -/
def calculateMysqlNativePassword (sha1 : List UInt8 → List UInt8)
    (password authPluginData1 authPluginData2 : List UInt8) : List UInt8 :=
  let challenge := authPluginData1 ++ authPluginData2
  let stage1 := sha1 password
  let stage2 := sha1 stage1
  let stage3 := sha1 (challenge ++ stage2)
  (List.range 20).map fun i => stage1.getD i 0 ^^^ stage3.getD i 0

/-- The members of `serverinfo_` that go into the answer, as bytes. -/
structure Account where
  username : List UInt8
  password : List UInt8
  dbname : List UInt8
deriving DecidableEq, Repr

namespace PacketOut

open Gateway.PacketOut (Op Out putByte)

/-- The token; both of the first two branches ask for the same flag. -/
def writeToken (capability : UInt32) (token : List UInt8) : Op Unit :=
  if HasFlag capability clientSecureConnection then do
    writeVariableInteger (UInt64.ofNat token.length)
    writeFixedString token
  else if HasFlag capability clientSecureConnection then do
    putByte (toLE 1 token.length)
    writeFixedString token
  else
    writeNulTerminateString token

/-- A string that is written if the server has a flag. -/
def writeNulTerminateStringIf (capability flag : UInt32) (str : List UInt8) : Op Unit :=
  if HasFlag capability flag then writeNulTerminateString str else return ()

/-- What `HandleAuthInitHandshake` writes behind the head. -/
def writeHandshakeResponse (account : Account) (h : InitHandshake) (token : List UInt8) :
    Op Unit := do
  putByte (toLE 4 clientCapability.toNat)
  putByte (toLE 4 (1024 * 1024 * 5))
  putByte (toLE 1 33)
  putByte (List.replicate 23 0)
  writeNulTerminateString account.username
  writeToken h.capability token
  writeNulTerminateStringIf h.capability clientConnectWithDB account.dbname
  writeNulTerminateStringIf h.capability clientPluginAuth h.authPluginName

/-- The packet with the answer, when its head has been written. -/
def handshakeResponse (mempool : MemoryPool) (account : Account) (h : InitHandshake)
    (token : List UInt8) : Except Gateway.Fault Out := do
  let (_, out) ← make mempool 30
  let (_, out) ← writeHandshakeResponse account h token out
  let (_, out) ← writeHead 1 out
  return out

end PacketOut

/-- What `HandleAuthInitHandshake` does when it returns. -/
inductive Handshaken where
  /-- `OnAuthFail`. -/
  | authFail (errcode : UInt16) (reason : List UInt8)
  /-- `Send`, in the phase `CONN_PHASE_HANDSHAKE_RESPONSE`. -/
  | send (out : Gateway.PacketOut.Out)

/-- `HandleAuthInitHandshake`. -/
def handleAuthInitHandshake (sha1 : List UInt8 → List UInt8) (account : Account)
    (mempool : MemoryPool) (m : Bytes) : PacketIn.Op Handshaken := do
  let first ← readInitHandshake (PacketIn.readers m)
  match first with
  | .err code reason => return .authFail code reason
  | .init h =>
      let token := calculateMysqlNativePassword sha1 account.password h.authPluginDataPart1
        h.authPluginDataPart2
      match PacketOut.handshakeResponse mempool account h token with
      | .ok out => return .send out
      | .error _ => throw .assertion

/-! ### A server -/

/-- The first packet of a server that knows `CLIENT_SECURE_CONNECTION`. -/
structure Greeting where
  serverVersion : List UInt8
  connectionId : UInt32
  authPluginDataPart1 : List UInt8
  filter : UInt8
  capability : UInt32
  charset : UInt8
  statusFlag : UInt16
  authPluginDataLength : UInt8
  reserved : List UInt8
  authPluginDataPart2 : List UInt8
  authPluginName : List UInt8
  /-- Whether there is a zero behind the name. -/
  terminated : Bool

namespace Greeting

/-- `auth_plugin_name`, as far as it is sent. -/
def pluginBytes (g : Greeting) : List UInt8 :=
  if HasFlag g.capability clientPluginAuth then
    g.authPluginName ++ if g.terminated then [0] else []
  else []

/-- The payload of the packet. -/
def encode (g : Greeting) : List UInt8 :=
  [10] ++ (g.serverVersion ++ 0 :: (toLE 4 g.connectionId.toNat ++ (g.authPluginDataPart1 ++
    ([g.filter] ++ (toLE 2 (g.capability.toNat % 2 ^ 16) ++ ([g.charset] ++
      (toLE 2 g.statusFlag.toNat ++ (toLE 2 (g.capability.toNat / 2 ^ 16) ++
        ([g.authPluginDataLength] ++ (g.reserved ++ (g.authPluginDataPart2 ++
          g.pluginBytes)))))))))))

/-- The fields have the lengths of the protocol, and the strings that end with a zero have none
    in them. -/
structure WellFormed (g : Greeting) : Prop where
  serverVersion : 0 ∉ g.serverVersion
  part1 : g.authPluginDataPart1.length = 8
  reserved : g.reserved.length = 10
  part2 : g.authPluginDataPart2.length = max 13 (g.authPluginDataLength.toNat - 8)
  authPluginName : 0 ∉ g.authPluginName
  secure : HasFlag g.capability clientSecureConnection
  protocol41 : HasFlag g.capability clientProtocol41

/-- The random bytes for the token; the last byte that is sent is not one of them. -/
def challenge (g : Greeting) : List UInt8 := g.authPluginDataPart1 ++ g.authPluginDataPart2.dropLast

/-- What `HandleAuthInitHandshake` makes of it. -/
def initHandshake (g : Greeting) : InitHandshake where
  serverVersion := g.serverVersion
  connectionId := g.connectionId.toNat
  authPluginDataPart1 := g.authPluginDataPart1
  filter := g.filter.toNat
  capability := g.capability
  charset := g.charset.toNat
  statusFlag := g.statusFlag.toNat
  authPluginDataLength := g.authPluginDataLength
  authPluginDataPart2 := g.authPluginDataPart2.dropLast
  authPluginName := g.pluginBytes

end Greeting

/-- What a server reads of the answer. -/
structure HandshakeResponse where
  capability : UInt32
  maxPacketSize : Nat
  charset : Nat
  username : List UInt8
  token : List UInt8
  dbname : Option (List UInt8)
  authPluginName : Option (List UInt8)
deriving DecidableEq, Repr

namespace Reader

/-- A string that is there if both sides have a flag. -/
def readNulTerminateStringIf (p : Prop) [Decidable p] : Reader (Option (List UInt8)) :=
  if p then do
    let str ← readNulTerminateString
    return some str
  else
    return none

/-- The answer as a server of the given capabilities reads it, whose token has less than 251
    bytes. -/
def readHandshakeResponse (serverCapability : UInt32) : Reader HandshakeResponse := do
  let capability ← readFixedInteger 4
  let maxPacketSize ← readFixedInteger 4
  let charset ← readFixedInteger 1
  skip 23
  let username ← readNulTerminateString
  let length ← readFixedInteger 1
  let token ← readFixedString length
  let both := UInt32.ofNat capability &&& serverCapability
  let dbname ← readNulTerminateStringIf (HasFlag both clientConnectWithDB)
  let authPluginName ← readNulTerminateStringIf (HasFlag both clientPluginAuth)
  return ⟨UInt32.ofNat capability, maxPacketSize, charset, username, token, dbname, authPluginName⟩

end Reader

/-- A server that stores the hash of the hash of the password accepts a token. -/
def Accepts (sha1 : List UInt8 → List UInt8) (stored challenge token : List UInt8) : Prop :=
  sha1 (List.zipWith (· ^^^ ·) token (sha1 (challenge ++ stored))) = stored

/-! ### The round trip -/

theorem byte_toLE (b : UInt8) : [b] = toLE 1 b.toNat := by
  simp only [toLE, List.cons.injEq, and_true]
  exact UInt8.ofNat_toNat.symm

/-- The low and the high half of the flags are put together. -/
theorem capability_eq (capability : UInt32) :
    UInt32.ofNat (capability.toNat / 2 ^ 16 * 2 ^ 16 + capability.toNat % 2 ^ 16) = capability := by
  rw [Nat.div_add_mod']
  exact UInt32.ofNat_toNat

namespace Reader

theorem readByte (b : UInt8) (rest : List UInt8) :
    readFixedInteger 1 ([b] ++ rest) = .ok (b.toNat, rest) := by
  rw [byte_toLE b]
  exact readFixedInteger_toLE b.toNat_lt rest

theorem readCapabilityFlag1_encode {v : Nat} (h : v < 256 ^ 2) (rest : List UInt8) :
    readCapabilityFlag1 readers (toLE 2 v ++ rest) = .ok (v, rest) := by
  have hfree : readers.freeCount (toLE 2 v ++ rest) =
      .ok ((toLE 2 v ++ rest).length, toLE 2 v ++ rest) := rfl
  refine (bind_of_ok hfree).trans ?_
  rw [if_pos (by rw [List.length_append, length_toLE]; omega)]
  exact readFixedInteger_toLE h rest

theorem readExtended_encode {charset : UInt8} {statusFlag : UInt16} {v : Nat} (h : v < 256 ^ 2)
    {rest : List UInt8} (hrest : 13 ≤ rest.length) :
    readExtended readers ([charset] ++ (toLE 2 statusFlag.toNat ++ (toLE 2 v ++ rest))) =
      .ok ((charset.toNat, statusFlag.toNat, v), rest) := by
  have hfree : ∀ bs, readers.freeCount bs = .ok (bs.length, bs) := fun _ => rfl
  refine (bind_of_ok (hfree _)).trans ?_
  rw [if_pos (by simp only [List.length_append, length_toLE, List.length_singleton]; omega)]
  refine (bind_of_ok (readByte charset _)).trans ?_
  refine (bind_of_ok (readFixedInteger_toLE statusFlag.toNat_lt _)).trans ?_
  exact bind_of_ok (readFixedInteger_toLE h rest)

/-- The data of the plugin, to the end of the packet. -/
theorem readAuthPluginData_encode {g : Greeting} (h : g.WellFormed) :
    readAuthPluginData readers g.capability g.authPluginDataLength
        (g.authPluginDataPart2 ++ g.pluginBytes) =
      .ok ((g.authPluginDataPart2.dropLast, g.pluginBytes), []) := by
  rw [readAuthPluginData, if_pos h.secure]
  refine (bind_of_ok (getByte_append h.part2 g.pluginBytes)).trans ?_
  by_cases hplugin : HasFlag g.capability clientPluginAuth
  · rw [if_pos hplugin]
    rfl
  · rw [if_neg hplugin, Greeting.pluginBytes, if_neg hplugin]
    rfl

/-- **The greeting is read as it was sent.** -/
theorem readInitHandshake_encode {g : Greeting} (h : g.WellFormed) :
    readInitHandshake readers g.encode = .ok (.init g.initHandshake, []) := by
  have hlow : g.capability.toNat % 2 ^ 16 < 256 ^ 2 := Nat.mod_lt _ (by decide)
  have hhigh : g.capability.toNat / 2 ^ 16 < 256 ^ 2 := by
    have hlt : g.capability.toNat < 2 ^ 32 := g.capability.toNat_lt
    omega
  rw [Greeting.encode, readInitHandshake]
  refine (bind_of_ok (readByte 10 _)).trans ?_
  rw [if_neg (by decide), if_pos (by decide)]
  refine (bind_of_ok (readNulTerminateString_append h.serverVersion _)).trans ?_
  refine (bind_of_ok (readFixedInteger_toLE g.connectionId.toNat_lt _)).trans ?_
  refine (bind_of_ok (getByte_append h.part1 _)).trans ?_
  refine (bind_of_ok (readByte g.filter _)).trans ?_
  refine (bind_of_ok (readCapabilityFlag1_encode hlow _)).trans ?_
  refine (bind_of_ok (readExtended_encode hhigh ?_)).trans ?_
  · rw [List.length_append, List.length_append, h.reserved]
    simp only [List.length_singleton, List.length_append]
    rw [h.part2]
    omega
  refine (bind_of_ok (readByte g.authPluginDataLength _)).trans ?_
  refine (bind_of_ok (skip_append h.reserved _)).trans ?_
  simp only [capability_eq]
  rw [show UInt8.ofNat g.authPluginDataLength.toNat = g.authPluginDataLength from UInt8.ofNat_toNat]
  refine (bind_of_ok (readAuthPluginData_encode h)).trans ?_
  rw [if_pos h.protocol41]
  rfl

end Reader

namespace PacketOut

open Gateway.PacketOut (putByte)

/-- The answer, without the head. -/
def responsePayload (account : Account) (h : InitHandshake) (token : List UInt8) : List UInt8 :=
  toLE 4 clientCapability.toNat ++ (toLE 4 (1024 * 1024 * 5) ++ (toLE 1 33 ++
    (List.replicate 23 0 ++ ((account.username ++ [0]) ++ ((toLE 1 token.length ++ token) ++
      ((if HasFlag h.capability clientConnectWithDB then account.dbname ++ [0] else []) ++
        (if HasFlag h.capability clientPluginAuth then h.authPluginName ++ [0] else [])))))))

theorem length_responsePayload_le (account : Account) (h : InitHandshake) (token : List UInt8) :
    (responsePayload account h token).length ≤ account.username.length + token.length +
      account.dbname.length + h.authPluginName.length + 36 := by
  have hdbname : (if HasFlag h.capability clientConnectWithDB then account.dbname ++ [0]
      else []).length ≤ account.dbname.length + 1 := by
    split
    · rw [List.length_append, List.length_singleton]
    · exact Nat.zero_le _
  have hplugin : (if HasFlag h.capability clientPluginAuth then h.authPluginName ++ [0]
      else []).length ≤ h.authPluginName.length + 1 := by
    split
    · rw [List.length_append, List.length_singleton]
    · exact Nat.zero_le _
  simp only [responsePayload, List.length_append, length_toLE, List.length_replicate,
    List.length_singleton]
  omega

theorem fills_writeHandshakeResponse {account : Account} {h : InitHandshake} {token : List UInt8}
    (hsecure : HasFlag h.capability clientSecureConnection) (htoken : token.length < 251)
    (husername : account.username.length < 2 ^ 32) (hdb : account.dbname.length < 2 ^ 32)
    (hname : h.authPluginName.length < 2 ^ 32) :
    Fills (writeHandshakeResponse account h token) (responsePayload account h token) := by
  have hlength :
      Fills (writeVariableInteger (UInt64.ofNat token.length)) (toLE 1 token.length) := by
    have hto : (UInt64.ofNat token.length).toNat = token.length :=
      UInt64.toNat_ofNat_of_lt' (Nat.lt_trans htoken (by decide))
    have hsmall : UInt64.ofNat token.length < 251 := by
      rw [UInt64.lt_iff_toNat_lt, hto]
      exact htoken
    rw [writeVariableInteger, if_pos hsmall, hto]
    exact fills_putByte _
  have htokens : Fills (writeToken h.capability token) (toLE 1 token.length ++ token) := by
    rw [writeToken, if_pos hsecure]
    exact hlength.seq (fills_writeFixedString (by omega))
  have hdbname := Fills.ite (p := HasFlag h.capability clientConnectWithDB)
    (fills_writeNulTerminateString hdb) fills_pure
  have hplugin := Fills.ite (p := HasFlag h.capability clientPluginAuth)
    (fills_writeNulTerminateString hname) fills_pure
  exact (fills_putByte _).seq ((fills_putByte _).seq ((fills_putByte _).seq ((fills_putByte _).seq
    ((fills_writeNulTerminateString husername).seq (htokens.seq (hdbname.seq hplugin))))))

end PacketOut

/-! ### The token -/

section

variable {sha1 : List UInt8 → List UInt8}

theorem length_token (password part1 part2 : List UInt8) :
    (calculateMysqlNativePassword sha1 password part1 part2).length = 20 := by
  rw [calculateMysqlNativePassword, List.length_map, List.length_range]

/-- **The token convinces a server that has the hash of the hash of the password.** -/
theorem accepts_token (hsha1 : ∀ bs, (sha1 bs).length = 20) (password part1 part2 : List UInt8) :
    Accepts sha1 (sha1 (sha1 password)) (part1 ++ part2)
      (calculateMysqlNativePassword sha1 password part1 part2) := by
  -- what the server computes from the token is the hash of the password
  have hstage1 : List.zipWith (· ^^^ ·) (calculateMysqlNativePassword sha1 password part1 part2)
      (sha1 (part1 ++ part2 ++ sha1 (sha1 password))) = sha1 password := by
    refine List.ext_getElem ?_ fun i h h' => ?_
    · rw [List.length_zipWith, length_token, hsha1, hsha1]
      rfl
    · rw [hsha1] at h'
      have hstage3 : i < (sha1 (part1 ++ part2 ++ sha1 (sha1 password))).length := by
        rw [hsha1]
        exact h'
      have hpassword : i < (sha1 password).length := by
        rw [hsha1]
        exact h'
      rw [List.getElem_zipWith]
      simp only [calculateMysqlNativePassword, List.getElem_map, List.getElem_range,
        List.getD_eq_getElem?_getD, List.getElem?_eq_getElem hstage3,
        List.getElem?_eq_getElem hpassword, Option.getD_some]
      rw [UInt8.xor_assoc, UInt8.xor_self, UInt8.xor_zero]
  rw [Accepts, hstage1]

end

/-! ### The answer -/

/-- The answer that a server should get. -/
def Greeting.answer (g : Greeting) (account : Account) (token : List UInt8) :
    HandshakeResponse where
  capability := clientCapability
  maxPacketSize := 1024 * 1024 * 5
  charset := 33
  username := account.username
  token := token
  dbname := if HasFlag g.capability clientConnectWithDB then some account.dbname else none
  authPluginName := if HasFlag g.capability clientPluginAuth then some g.authPluginName else none

/-- A flag of the client's is the server's to have. -/
theorem hasFlag_both {flag : UInt32} (hflag : clientCapability &&& flag = flag)
    (capability : UInt32) : HasFlag (clientCapability &&& capability) flag ↔
      HasFlag capability flag := by
  rw [HasFlag, HasFlag, UInt32.and_comm clientCapability, UInt32.and_assoc, hflag]

namespace Reader

theorem readNulTerminateStringIf_append {p q : Prop} [Decidable p] [Decidable q] (hpq : p ↔ q)
    {str : List UInt8} (h : 0 ∉ str) (rest : List UInt8) :
    readNulTerminateStringIf p ((if q then str ++ [0] else []) ++ rest) =
      .ok (if q then some str else none, rest) := by
  rw [readNulTerminateStringIf]
  by_cases hp : p
  · have hq := hpq.mp hp
    rw [if_pos hp, if_pos hq, if_pos hq, List.append_assoc]
    exact bind_of_ok (readNulTerminateString_append h rest)
  · have hq := mt hpq.mpr hp
    rw [if_neg hp, if_neg hq, if_neg hq]
    rfl

/-- The server reads what the client has written. -/
theorem readHandshakeResponse_payload {g : Greeting} (hg : g.WellFormed) {account : Account}
    (husername : 0 ∉ account.username) (hdbname : 0 ∉ account.dbname) {token : List UInt8}
    (htoken : token.length < 251) :
    ∃ rest, readHandshakeResponse g.capability
      (PacketOut.responsePayload account g.initHandshake token) =
        .ok (g.answer account token, rest) := by
  -- the name is sent with the zero it came with and one more
  obtain ⟨rest, hname⟩ : ∃ rest, (if HasFlag g.capability clientPluginAuth then
      g.pluginBytes ++ [0] else []) = (if HasFlag g.capability clientPluginAuth then
        g.authPluginName ++ [0] else []) ++ rest := by
    by_cases hplugin : HasFlag g.capability clientPluginAuth
    · rw [if_pos hplugin, if_pos hplugin, Greeting.pluginBytes, if_pos hplugin]
      cases g.terminated with
      | true => exact ⟨[0], rfl⟩
      | false => exact ⟨[], by simp⟩
    · rw [if_neg hplugin, if_neg hplugin]
      exact ⟨[], rfl⟩
  refine ⟨rest, ?_⟩
  have hcapability : UInt32.ofNat clientCapability.toNat = clientCapability := UInt32.ofNat_toNat
  rw [PacketOut.responsePayload, readHandshakeResponse]
  refine (bind_of_ok (readFixedInteger_toLE clientCapability.toNat_lt _)).trans ?_
  refine (bind_of_ok (readFixedInteger_toLE (by decide) _)).trans ?_
  refine (bind_of_ok (readFixedInteger_toLE (by decide) _)).trans ?_
  refine (bind_of_ok (skip_append (List.length_replicate) _)).trans ?_
  rw [List.append_assoc]
  refine (bind_of_ok (readNulTerminateString_append husername _)).trans ?_
  rw [List.append_assoc]
  refine (bind_of_ok (readFixedInteger_toLE (by omega) _)).trans ?_
  refine (bind_of_ok (getByte_append rfl _)).trans ?_
  simp only [hcapability]
  refine (bind_of_ok (readNulTerminateStringIf_append
    (hasFlag_both (by decide) g.capability) hdbname _)).trans ?_
  have hlast := readNulTerminateStringIf_append
    (hasFlag_both (by decide : clientCapability &&& clientPluginAuth = clientPluginAuth)
      g.capability) hg.authPluginName rest
  rw [← hname] at hlast
  exact bind_of_ok hlast

end Reader

/-- **A greeting is answered so that the server lets the client in.**  Whatever chunks the
    greeting came in, the packet that is sent is a whole packet with the number 1, the server
    reads from it the account, the database if it asked for one, and its own plugin's name, and
    it accepts the token. -/
theorem handshake_accepted {sha1 : List UInt8 → List UInt8} (hsha1 : ∀ bs, (sha1 bs).length = 20)
    {g : Greeting} (hg : g.WellFormed) {account : Account} (husername : 0 ∉ account.username)
    (hdbname : 0 ∉ account.dbname)
    (hlen : account.username.length + account.dbname.length + g.authPluginName.length + 64 < 2 ^ 24)
    {mempool : MemoryPool} (hpool : mempool.Inv []) (hchunk : 0 < mempool.chunksize)
    (hroom : mempool.chunksize + 2 ^ 26 ≤ 2 ^ 32) {m : Bytes} {s : PacketIn} {bs : List UInt8}
    (hs : PacketIn.Holds m s bs) (hfit : bs.length + 2 ^ 16 ≤ 2 ^ 32)
    (hbytes : bs.drop s.packet.pos = g.encode) :
    ∃ out s' payload token rest,
      handleAuthInitHandshake sha1 account mempool m s = (.ok (.send out), s') ∧
      bytesOf out.pool.mem (Gateway.PacketOut.fetchData out.packet) =
        toLE 3 payload.length ++ 1 :: payload ∧ payload.length < 2 ^ 24 ∧
      Reader.readHandshakeResponse g.capability payload = .ok (g.answer account token, rest) ∧
      Accepts sha1 (sha1 (sha1 account.password)) g.challenge token := by
  have hread := Reader.readInitHandshake_encode hg
  rw [← hbytes] at hread
  obtain ⟨s', hop, -, -⟩ := (simulates_readInitHandshake m).ok hs hfit hread
  have htoken : (calculateMysqlNativePassword sha1 account.password g.authPluginDataPart1
      g.authPluginDataPart2.dropLast).length = 20 := length_token _ _ _
  have hname : g.initHandshake.authPluginName.length ≤ g.authPluginName.length + 1 := by
    show g.pluginBytes.length ≤ _
    unfold Greeting.pluginBytes
    split
    · cases g.terminated <;> simp
    · exact Nat.zero_le _
  obtain ⟨token, htokenEq⟩ : ∃ token, token = calculateMysqlNativePassword sha1 account.password
    g.authPluginDataPart1 g.authPluginDataPart2.dropLast := ⟨_, rfl⟩
  rw [← htokenEq] at htoken
  have hfills : PacketOut.Fills (PacketOut.writeHandshakeResponse account g.initHandshake token)
      (PacketOut.responsePayload account g.initHandshake token) :=
    PacketOut.fills_writeHandshakeResponse hg.secure (by omega) (by omega) (by omega) (by omega)
  have hpayload := PacketOut.length_responsePayload_le account g.initHandshake token
  obtain ⟨o1, o2, o3, hmake, hwrite, hhead, hframe⟩ := PacketOut.frame_of_fills hpool hchunk hroom
    hfills (by omega) (by decide : 30 < 2 ^ 24) 1
  obtain ⟨rest, hback⟩ := Reader.readHandshakeResponse_payload hg husername hdbname
    (by omega : token.length < 251)
  refine ⟨o3, s', _, token, rest, ?_, hframe, by omega, hback, ?_⟩
  · have hresponse :
        PacketOut.handshakeResponse mempool account g.initHandshake token = .ok o3 := by
      simp only [PacketOut.handshakeResponse, hmake, hwrite, hhead, bind, Except.bind, pure,
        Except.pure]
    rw [handleAuthInitHandshake, PacketIn.bind_ok hop]
    simp only [Greeting.initHandshake] at hresponse ⊢
    rw [← htokenEq, hresponse]
    rfl
  · rw [htokenEq]
    exact accepts_token hsha1 account.password g.authPluginDataPart1 _

/-! ### A greeting -/

/-- SHA-1 of what the handshake below hashes: the password, its hash, and the challenge with the
    hash of the hash behind it. -/
def secretSha1 (bs : List UInt8) : List UInt8 :=
  let stage1 : List UInt8 := [0xe5, 0xe9, 0xfa, 0x1b, 0xa3, 0x1e, 0xcd, 0x1a, 0xe8, 0x4f,
    0x75, 0xca, 0xaa, 0x47, 0x4f, 0x3a, 0x66, 0x3f, 0x05, 0xf4]
  let stage2 : List UInt8 := [0x14, 0xe6, 0x55, 0x67, 0xab, 0xdb, 0x51, 0x35, 0xd0, 0xcf,
    0xd9, 0xa7, 0x0b, 0x30, 0x32, 0xc1, 0x79, 0xa4, 0x9e, 0xe7]
  let stage3 : List UInt8 := [0xcd, 0xad, 0xef, 0x8b, 0xc4, 0x5c, 0x48, 0xfd, 0x38, 0x73,
    0xdb, 0xb0, 0x58, 0x70, 0x1f, 0x7d, 0xf1, 0xc8, 0x0b, 0x65]
  if bs = ascii "secret" then stage1
  else if bs = stage1 then stage2
  else if bs = ascii "ABCDEFGHIJKLMNOPQRST" ++ stage2 then stage3
  else List.replicate 20 0

/-- A greeting with all the flags that the client asks for. -/
def greeting : Greeting where
  serverVersion := ascii "5.5.2"
  connectionId := 8
  authPluginDataPart1 := ascii "ABCDEFGH"
  filter := 0
  capability := clientCapability
  charset := 33
  statusFlag := 2
  authPluginDataLength := 21
  reserved := List.replicate 10 0
  authPluginDataPart2 := ascii "IJKLMNOPQRST" ++ [0]
  authPluginName := ascii "mysql_native_password"
  terminated := true

def rootAccount : Account := ⟨ascii "root", ascii "secret", ascii "game"⟩

theorem wellFormed_greeting : greeting.WellFormed := by
  constructor <;> decide

theorem handshake_accepted_greeting :
    ∃ m s out s' payload token rest,
      handleAuthInitHandshake secretSha1 rootAccount (MemoryPool.emptyPool 256) m s =
        (.ok (.send out), s') ∧
      bytesOf out.pool.mem (Gateway.PacketOut.fetchData out.packet) =
        toLE 3 payload.length ++ 1 :: payload ∧
      Reader.readHandshakeResponse greeting.capability payload =
        .ok (greeting.answer rootAccount token, rest) ∧
      Accepts secretSha1 (secretSha1 (secretSha1 (ascii "secret"))) (ascii "ABCDEFGHIJKLMNOPQRST")
        token := by
  have hne : greeting.encode ≠ [] := by decide
  obtain ⟨m, s, hs, hpos⟩ := PacketIn.exists_holds hne (by decide)
  have hsha1 : ∀ bs, (secretSha1 bs).length = 20 := by
    intro bs
    simp only [secretSha1]
    split_ifs <;> rfl
  obtain ⟨out, s', payload, token, rest, hop, hframe, -, hback, haccepts⟩ :=
    handshake_accepted hsha1 wellFormed_greeting (by decide : 0 ∉ rootAccount.username)
      (by decide) (by decide) (MemoryPool.emptyPool_inv 256) (by decide) (by decide) hs (by decide)
      (by rw [hpos, List.drop_zero])
  exact ⟨m, s, out, s', payload, token, rest, hop, hframe, hback, haccepts⟩

end Jengine.Dbo.Internal
