import Nimmesh.Mesh.Envelope
import Nimmesh.Utf8
import Nimmesh.Lib.Table
import Nimmesh.Lib.Fifo

/-! @src balance.rs tx_history.rs chat.rs | name:Queries, answers and chat | layer:model

    The read-only traffic of the mesh: a query is an address, an answer is what a gateway read at some
    head, and a node keeps the freshest answer per address. Chat is a rolling log. -/

namespace Nimmesh
open Rlp

/-! ### Balances -/

def balanceResponseLen : ℕ := 33

structure BalanceResponse where
  address : NimAddress
  balance : UInt64
  headHeight : UInt32
  networkId : UInt8
  deriving DecidableEq

def encodeBalanceQuery (address : NimAddress) : Bytes := address.1

def decodeBalanceQuery (bytes : Bytes) : Option NimAddress := ByteArr.ofBytes? nimAddressLen bytes

def encodeBalanceResponse (r : BalanceResponse) : Bytes :=
  r.address.1 ++ beBytes r.balance ++ beBytes32 r.headHeight ++ [r.networkId]

def decodeBalanceResponse (bytes : Bytes) : Option BalanceResponse :=
  if bytes.length ≠ balanceResponseLen then none
  else some { address := sliceArr nimAddressLen bytes 0
              balance := u64OfBe (slice bytes 20 8)
              headHeight := u32OfBe (slice bytes 28 4)
              networkId := byteAt bytes 32 }

structure CachedBalance where
  balance : UInt64
  headHeight : UInt32
  networkId : UInt8
  deriving DecidableEq

/-- The last-known balance per address, of one network. -/
structure BalanceCache where
  networkId : Option UInt8
  entries : Table NimAddress CachedBalance := ∅

/-- Take an answer that is strictly fresher than what is held. -/
def BalanceCache.observe (c : BalanceCache) (r : BalanceResponse) : BalanceCache :=
  if c.networkId.any (· ≠ r.networkId) then c
  else
    let c := { c with networkId := some r.networkId }
    if (c.entries.lookup r.address).any fun have_ => r.headHeight ≤ have_.headHeight then c
    else { c with entries := c.entries.insert r.address ⟨r.balance, r.headHeight, r.networkId⟩ }

/-! ### Histories -/

def historyMax : ℕ := 10

def historyRecordLen : ℕ := 69

def historyResponseHeaderLen : ℕ := 26

/-- The chunk size of an answer that is flooded in fragments. -/
def historyFragmentChunk : ℕ := 180

structure TxHistoryRecord where
  hash : Hash
  counterparty : NimAddress
  value : UInt64
  timestampMs : UInt64
  flags : UInt8
  deriving DecidableEq

structure HistoryResponse where
  address : NimAddress
  headHeight : UInt32
  networkId : UInt8
  records : List TxHistoryRecord
  deriving DecidableEq

def encodeHistoryQuery (address : NimAddress) : Bytes := address.1

def decodeHistoryQuery (bytes : Bytes) : Option NimAddress := ByteArr.ofBytes? nimAddressLen bytes

def encodeHistoryRecord (r : TxHistoryRecord) : Bytes :=
  r.hash.1 ++ r.counterparty.1 ++ beBytes r.value ++ beBytes r.timestampMs ++ [r.flags]

def encodeHistoryResponse (r : HistoryResponse) : Bytes :=
  let records := r.records.take historyMax
  r.address.1 ++ beBytes32 r.headHeight ++ [r.networkId] ++ [records.length.toUInt8] ++
    records.flatMap encodeHistoryRecord

def decodeHistoryRecord (rec : Bytes) : TxHistoryRecord where
  hash := sliceArr hashLen rec 0
  counterparty := sliceArr nimAddressLen rec 32
  value := u64OfBe (slice rec 52 8)
  timestampMs := u64OfBe (slice rec 60 8)
  flags := byteAt rec 68

def decodeHistoryResponse (bytes : Bytes) : Option HistoryResponse :=
  if bytes.length < historyResponseHeaderLen then none
  else
    let count := (byteAt bytes 25).toNat
    if historyMax < count ∨ bytes.length ≠ historyResponseHeaderLen + count * historyRecordLen then none
    else some {
      address := sliceArr nimAddressLen bytes 0
      headHeight := u32OfBe (slice bytes 20 4)
      networkId := byteAt bytes 24
      records := (List.range count).map fun i =>
        decodeHistoryRecord (slice bytes (historyResponseHeaderLen + i * historyRecordLen) historyRecordLen) }

/-- The freshest history per address. -/
abbrev HistoryCache := Table NimAddress HistoryResponse

/-- Take an answer for the own network that is newer than what is held. -/
def HistoryCache.observe (c : HistoryCache) (r : HistoryResponse) (networkId : UInt8) : HistoryCache :=
  if r.networkId ≠ networkId then c
  else if (c.lookup r.address).any fun have_ => r.headHeight ≤ have_.headHeight then c
  else c.insert r.address r

/-! ### Chat -/

def chatVersion : UInt8 := 1

def maxNickBytes : ℕ := 32

def maxTextBytes : ℕ := 160

def chatLogCap : ℕ := 200

structure ChatEntry where
  sender : PeerId
  seq : UInt64
  nickname : String
  text : String
  timestampMs : UInt64
  mine : Bool

/-- The rolling log, oldest first. -/
abbrev ChatLog := List ChatEntry

/-- Append an entry that is not there yet. -/
def ChatLog.push (l : ChatLog) (e : ChatEntry) : ChatLog :=
  if l.any fun e' => e'.sender = e.sender ∧ e'.seq = e.seq then l
  else Fifo.push chatLogCap l e

/-- The first `n` bytes and the rest, if they are there. -/
def takeBytes (n : ℕ) (b : Bytes) : Option (Bytes × Bytes) :=
  if b.length < n then none else some (b.take n, b.drop n)

/-- Timestamp, nickname and text of a chat payload. -/
def decodeChat (payload : Bytes) : Option (UInt64 × String × String) := do
  let (v, rest) ← takeBytes 1 payload
  guard (byteAt v 0 = chatVersion)
  let (ts, rest) ← takeBytes 8 rest
  let (nickLen, rest) ← takeBytes 1 rest
  guard ((byteAt nickLen 0).toNat ≤ maxNickBytes)
  let (nick, rest) ← takeBytes (byteAt nickLen 0).toNat rest
  let nick ← fromUtf8 nick
  let (textLen, rest) ← takeBytes 2 rest
  guard (ofBe textLen ≠ 0 ∧ ofBe textLen ≤ maxTextBytes)
  let (text, rest) ← takeBytes (ofBe textLen) rest
  let text ← fromUtf8 text
  guard (rest = [])
  return (u64OfBe ts, nick, text)

end Nimmesh
