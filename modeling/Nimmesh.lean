import Nimmesh.Lib.Run
import Nimmesh.Lib.Table
import Nimmesh.Lib.Word
import Nimmesh.Lib.Codec
import Nimmesh.Packet
import Nimmesh.Swap.Wire
import Nimmesh.Swap.Machine
import Nimmesh.Swap.Lifecycle
import Nimmesh.Swap.Messages
import Nimmesh.Swap.Intent
import Nimmesh.Swap.FundingVerify
import Nimmesh.Swap.Coordinator
import Nimmesh.Swap.Session
import Nimmesh.Swap.Node
import Nimmesh.Swap.Slot
import Nimmesh.Swap.Refine
import Nimmesh.Swap.Ops
import Nimmesh.Swap.Signer
import Nimmesh.Swap.FundingGate
import Nimmesh.Swap.Settlement
import Nimmesh.Swap.Removal
import Nimmesh.Swap.Engagement
import Nimmesh.Swap.Worker
import Nimmesh.Swap.Addressing
import Nimmesh.Swap.Recovery
import Nimmesh.Swap.Reissue
import Nimmesh.Swap.Net
import Nimmesh.Swap.Atomicity
import Nimmesh.Swap.Origin
import Nimmesh.Swap.Replay
import Nimmesh.Swap.Resume
import Nimmesh.Swap.Retry
import Nimmesh.Contract.Erc20
import Nimmesh.Contract.Htlc
import Nimmesh.Contract.Solvency
import Nimmesh.Lib.Rlp
import Nimmesh.Live.Evm
import Nimmesh.Live.NimHtlc
import Nimmesh.Live.Signer
import Nimmesh.Live.PerSwap
import Nimmesh.Live.OneShot
import Nimmesh.Live.Door
import Nimmesh.Swap.InPlace
import Nimmesh.Live.Claimable
import Nimmesh.Lib.Record
import Nimmesh.Live.AmoyVerifier
import Nimmesh.Live.InitiatorRun
import Nimmesh.Live.VerifiedEscrow
import Nimmesh.Live.RevealKept
import Nimmesh.Swap.Admission
import Nimmesh.Live.TimeoutMapping
import Nimmesh.Contract.Forwarder
import Nimmesh.Contract.Forwarded
import Nimmesh.Live.EvmForward
import Nimmesh.Lib.Lockstep
import Nimmesh.Live.UsdcLeg
import Nimmesh.Live.NimCrossRead
import Nimmesh.Lib.Select
import Nimmesh.Swap.LedgerVerifier
import Nimmesh.Live.PolygonVerifier
import Nimmesh.Live.EscrowChain
import Nimmesh.Live.PolygonLedger
import Nimmesh.Live.BtcVerifier
import Nimmesh.Live.BtcCrossRead
import Nimmesh.Live.AmoyCrossRead
import Nimmesh.Live.Dust
import Nimmesh.Live.NimHints
import Nimmesh.Live.AmoyHints
import Nimmesh.Live.EscrowRun
import Nimmesh.Lib.Fifo
import Nimmesh.Mesh.Caches
import Nimmesh.Mesh.Beacon
import Nimmesh.Mesh.Settlement
import Nimmesh.Mesh.Gateway
import Nimmesh.Mesh.Fragment
import Nimmesh.Mesh.Node
import Nimmesh.Mesh.Handlers
import Nimmesh.Mesh.Dispatch
import Nimmesh.Mesh.Conduct
import Nimmesh.Mesh.Refine
import Nimmesh.Mesh.Expiry
import Nimmesh.Mesh.Honesty
import Nimmesh.Mesh.ReceiptOrder
import Nimmesh.Mesh.Submission
import Nimmesh.Mesh.Window
import Nimmesh.Mesh.CatchUp
import Nimmesh.Lib.Cascade
import Nimmesh.Mesh.Flood
import Nimmesh.Bytes
import Nimmesh.Mesh.Frame
import Nimmesh.Swap.Snapshot
import Nimmesh.Lib.Tlv
import Nimmesh.Swap.WireCodec
import Nimmesh.Live.Transfer
import Nimmesh.Swap.Signed
import Nimmesh.Live.NimLeg
import Nimmesh.Lib.RlpItem
import Nimmesh.Live.Announce
import Nimmesh.Lib.Bitset
import Nimmesh.Lib.AntiReplay
import Nimmesh.Mesh.Noise
import Nimmesh.Mesh.GcsCoding
import Nimmesh.Mesh.GcsBytes
import Nimmesh.Lib.TableOrder
import Nimmesh.Mesh.Reassembly
import Nimmesh.Lib.Script
import Nimmesh.Live.BtcHtlc
import Nimmesh.Swap.Engine
import Nimmesh.Swap.BtcReveal
import Nimmesh.Swap.EngineErrors
import Nimmesh.Live.BtcExits
import Nimmesh.Swap.Matching
import Nimmesh.Lib.Mirror
import Nimmesh.Mesh.Paired
import Nimmesh.Lib.Checked
import Nimmesh.Lib.Regroup
import Nimmesh.Live.Address
import Nimmesh.Live.AddressParse
import Nimmesh.Live.AddressTypos
import Nimmesh.Utf8
import Nimmesh.Live.RequestUri
import Nimmesh.Live.RequestLink
import Nimmesh.Lib.Varint
import Nimmesh.Mesh.MicroHeader
import Nimmesh.Mesh.BalanceProof
import Nimmesh.Lib.Logged
import Nimmesh.Mesh.MeshtasticFrame
import Nimmesh.Mesh.MeshtasticWalk
import Nimmesh.Mesh.MeshtasticFields
import Nimmesh.Mesh.Payloads
import Nimmesh.Mesh.PayloadCodecs
import Nimmesh.Mesh.Rounds
import Nimmesh.Mesh.Completions
import Nimmesh.Mesh.Twins
import Nimmesh.Mesh.RelayBlind
import Nimmesh.Mesh.RelayRuns
import Nimmesh.Mesh.BitchatPacket
import Nimmesh.Mesh.BitchatLink
import Nimmesh.Mesh.BitchatInbound
import Nimmesh.Mesh.Bounds
import Nimmesh.Mesh.RateLimit
import Nimmesh.Mesh.Coverage
import Nimmesh.Mesh.Delivery
import Nimmesh.Swap.Circulation
import Nimmesh.Swap.Agreement
import Nimmesh.Mesh.Sync
import Nimmesh.Mesh.Channel
import Nimmesh.Contract.Exits
import Nimmesh.Swap.Capacity
