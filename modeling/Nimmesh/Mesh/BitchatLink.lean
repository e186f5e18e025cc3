import Nimmesh.Lib.Run
import Nimmesh.Lib.Table
import Nimmesh.Mesh.BitchatPacket
import Mathlib.Data.Finset.Card

/-! @src BitchatKit.swift | name:Inbound frames of a foreign chat mesh | layer:model

    The link keeps the peers that announced themselves and the sender and timestamp of every packet that came in. A
    packet is looked at once; an announce binds a name and a signing key to its sender, and a message is shown if it
    is signed under the key bound by then. -/

namespace Nimmesh
open BitchatWire

/-- What comes with the platform: SHA-256, and Ed25519 keys and signatures. -/
structure CryptoKit (Key : Type) where
  sha256 : Bytes → ByteArr hashLen
  publicKey : Bytes → Option Key
  isValidSignature : Key → Bytes → Bytes → Bool

variable {Key : Type}

/-- The packet carries a signature that is valid under the key. -/
def BitchatPacket.signedUnder (ck : CryptoKit Key) (k : Key) (p : BitchatPacket) : Bool :=
  p.signature.any fun sig => ck.isValidSignature k sig p.signingBytes

/-- What the link tells its owner: a name that is new, or a message that is shown under a name. The packet is there
    for the proofs; of it the owner gets the timestamp. -/
inductive BitchatEvent where
  | peer (nickname : String)
  | message (p : BitchatPacket) (nickname text : String)
  deriving DecidableEq

/-- The packet of a message that is shown. -/
def BitchatEvent.shown : BitchatEvent → Option BitchatPacket
  | .message p _ _ => some p
  | .peer _ => none

structure BitchatLink (Key : Type) where
  peerID : Bytes
  peers : Table Bytes (String × Key) := ∅
  seen : Finset Bytes := ∅
  /-- newest first -/
  events : List BitchatEvent := []

def seenBound : ℕ := 2000

/-- The name and key of an announce that is bound to its sender and signed under the key it announces. -/
def acceptAnnounce (ck : CryptoKit Key) (p : BitchatPacket) : Option (String × Key) := do
  let ann ← BitchatAnnounce.decode p.payload
  if (ck.sha256 ann.noisePublicKey).1.take 8 = p.senderID then
    let vk ← ck.publicKey ann.signingPublicKey
    if p.signedUnder ck vk then return (ann.nickname, vk) else none
  else none

/-- The name and text of a message that is signed under the key of a known peer. -/
def acceptMessage (ck : CryptoKit Key) (peers : Table Bytes (String × Key)) (p : BitchatPacket) :
    Option (String × String) := do
  let peer ← peers.lookup p.senderID
  if p.signedUnder ck peer.2 then
    let text ← fromUtf8 p.payload
    return (peer.1, text)
  else none

namespace BitchatLink

/-- `seen.insert(key)`, and past the bound the whole set is dropped. -/
def remember (key : Bytes) (l : BitchatLink Key) : BitchatLink Key :=
  let seen := insert key l.seen
  { l with seen := if seenBound < seen.card then ∅ else seen }

/-- The switch over the type of a packet. -/
def deliver (ck : CryptoKit Key) (p : BitchatPacket) (l : BitchatLink Key) : BitchatLink Key :=
  if p.type = typeAnnounce then
    match acceptAnnounce ck p with
    | none => l
    | some peer => { l with
        peers := l.peers.insert p.senderID peer
        events := if (l.peers.lookup p.senderID).isNone then .peer peer.1 :: l.events else l.events }
  else if p.type = typeMessage then
    match acceptMessage ck l.peers p with
    | none => l
    | some m => { l with events := .message p m.1 m.2 :: l.events }
  else l

def handleInbound (ck : CryptoKit Key) (l : BitchatLink Key) (data : Bytes) : BitchatLink Key :=
  match BitchatPacket.decode data with
  | none => l
  | some p =>
    if p.senderID = l.peerID then l
    else if p.dedupKey ∈ l.seen then l
    else (l.remember p.dedupKey).deliver ck p

/-- A link that gets frames one after the other from its start. -/
def run (ck : CryptoKit Key) (me : Bytes) (fs : List Bytes) : BitchatLink Key :=
  Run.exec (handleInbound ck) { peerID := me } fs

/-- The packets of the messages that were shown. -/
def shown (l : BitchatLink Key) : List BitchatPacket := l.events.filterMap BitchatEvent.shown

end BitchatLink

end Nimmesh
