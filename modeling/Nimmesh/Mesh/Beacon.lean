import Nimmesh.Mesh.Caches
import Nimmesh.Mesh.Envelope
import Mathlib.Data.List.GetD

/-! @src beacon.rs nimiq/signer.rs | name:Head beacons and the validity window | layer:model

    What a node knows of the chain head, and what that means for a transaction: it is dead once the
    freshest head heard is at or past the height its envelope names. -/

namespace Nimmesh
open Word Rlp

def validityWindow : UInt32 := 7200

/-- `u32::saturating_add`. -/
def satAdd32 (a b : UInt32) : UInt32 := if a.toNat + b.toNat < 2 ^ 32 then a + b else 4294967295

theorem toNat_satAdd32 (a b : UInt32) : (satAdd32 a b).toNat = min (2 ^ 32 - 1) (a.toNat + b.toNat) := by
  unfold satAdd32
  split_ifs with h
  · rw [UInt32.toNat_add, Nat.mod_eq_of_lt h]
    omega
  · have hmax : (4294967295 : UInt32).toNat = 2 ^ 32 - 1 := rfl
    rw [hmax]
    omega

def beaconPayloadLen : ℕ := 37

def beaconTickMs : UInt64 := 10000

def beaconRpcBackoffTicks : UInt8 := 5

structure HeadBeacon where
  height : UInt32
  blockHash : Hash
  networkId : UInt8
  deriving DecidableEq

def encodeBeacon (b : HeadBeacon) : Bytes := beBytes32 b.height ++ b.blockHash.1 ++ [b.networkId]

def decodeBeacon (payload : Bytes) : Option HeadBeacon :=
  if payload.length ≠ beaconPayloadLen then none
  else some { height := u32OfBe (slice payload 0 4)
              blockHash := sliceArr hashLen payload 4
              networkId := byteAt payload 36 }

/-- A beacon survives its payload. -/
theorem decodeBeacon_encodeBeacon (b : HeadBeacon) : decodeBeacon (encodeBeacon b) = some b := by
  obtain ⟨height, hash, networkId⟩ := b
  have hlen : (encodeBeacon ⟨height, hash, networkId⟩).length = beaconPayloadLen := by
    simp only [encodeBeacon, List.length_append, hash.2]
    rfl
  have hheight : slice (encodeBeacon ⟨height, hash, networkId⟩) 0 4 = beBytes32 height := rfl
  have hhash : sliceArr hashLen (encodeBeacon ⟨height, hash, networkId⟩) 4 = hash := by
    rw [encodeBeacon, List.append_assoc]
    exact (sliceArr_append (beBytes32 height) _ 0).trans (sliceArr_left hash _)
  have hbyte : byteAt (encodeBeacon ⟨height, hash, networkId⟩) 36 = networkId := by
    have h : (beBytes32 height ++ hash.1).length = 36 := by
      rw [List.length_append, hash.2]
      rfl
    rw [encodeBeacon, byteAt, List.getD_append_right _ _ _ _ h.le, h]
    rfl
  rw [decodeBeacon, if_neg (not_not.mpr hlen), hheight, hhash, hbyte, u32OfBe_beBytes32]

/-- The window of a transaction has closed, as far as this node can judge. -/
def isExpired (head validUntil : Option UInt32) : Bool :=
  match head, validUntil with
  | some h, some vu => decide (vu ≤ h)
  | _, _ => false

/-- A transaction that is built now is alive, short of the last height of all. -/
theorem isExpired_window {head : Option UInt32} (h : head ≠ some 4294967295) :
    isExpired head (head.map (satAdd32 · validityWindow)) = false := by
  cases head with
  | none => rfl
  | some height =>
    have hmax : (4294967295 : UInt32).toNat = 2 ^ 32 - 1 := rfl
    have hne : height.toNat ≠ 2 ^ 32 - 1 := fun heq =>
      h (congrArg some (UInt32.toNat_inj.mp (heq.trans hmax.symm)))
    have hlt := height.toNat_lt
    have hwin : validityWindow.toNat = 7200 := rfl
    rw [Option.map_some, isExpired, decide_eq_false_iff_not]
    intro hle
    rw [UInt32.le_iff_toNat_le, toNat_satAdd32, hwin] at hle
    omega

/-- The height past which a `nimiqTx` packet is dead, if its envelope names one. -/
def txValidUntil (p : Packet) : Option UInt32 :=
  match decodeEnvelope p.payload with
  | .ok env => env.validUntil
  | .error _ => none

/-- The freshest head heard. -/
structure HeadCache where
  networkId : UInt8
  latest : Option HeadBeacon := none
  deriving DecidableEq

namespace HeadCache

/-- Take a beacon of the own network that is newer than what is held. -/
def accept (c : HeadCache) (b : HeadBeacon) : HeadCache :=
  if b.networkId ≠ c.networkId then c
  else match c.latest with
    | some have_ => if b.height ≤ have_.height then c else { c with latest := some b }
    | none => { c with latest := some b }

def height (c : HeadCache) : Option UInt32 := c.latest.map (·.height)

end HeadCache

/-- At most one beacon per tick. -/
structure BeaconScheduler where
  lastMs : Option UInt64 := none

def BeaconScheduler.due (s : BeaconScheduler) (nowMs : UInt64) : Bool × BeaconScheduler :=
  if dueEvery beaconTickMs s.lastMs nowMs then (true, ⟨some nowMs⟩) else (false, s)

/-- The beacon to flood this tick: a live head, or while the uplink is down the last one. The result is
    the beacon, what is stashed and the back-off left. -/
def selectBeacon (live : Option HeadBeacon) (last : Option HeadBeacon) (backoff : UInt8) :
    Option HeadBeacon × Option HeadBeacon × UInt8 :=
  if backoff = 0 then
    match live with
    | some b => (some b, some b, backoff)
    | none => (last, last, beaconRpcBackoffTicks)
  else (last, last, backoff - 1)

end Nimmesh
