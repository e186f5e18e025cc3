import Nimmesh.Swap.Engine

/-! @src btc.rs swap_engine.rs | name:Reading the secret off the chain | layer:properties

    A spend of the Bitcoin script by its first branch shows an opening of the hash, but the spender chooses the
    shape of the transaction and the script does not fix the length of the opening. `revealed_iff` says for
    which spends the one position that is read holds it. -/

namespace Nimmesh

open Btc

/-! ### A responder that waits for the secret holds the wire of the funding -/

namespace SwapEngine

variable {env : EngineEnv}

/-- From the initiator's funding on, until the secret is out. -/
def Waiting (phase : SwapPhase) : Prop := phase = .initiatorFunded ∨ phase = .selfFunded ∨ phase = .bothFunded

/-- INVARIANT: a responder that waits holds the wire. -/
def WireKept (e : SwapEngine) : Prop := e.role = .responder → Waiting e.phase → e.nimFundingWire ≠ none

theorem WireKept.of_waiting {e : SwapEngine} (h : WireKept e) (hw : Waiting e.phase) (phase : SwapPhase)
    (funding : Option FundedHtlc) : WireKept { e.withPhase phase with btcFunding := funding } :=
  fun hrole _ => h hrole hw

theorem wireKept_of_not_waiting {e : SwapEngine} (h : ¬ Waiting e.phase) : WireKept e :=
  fun _ hw => absurd hw h

/-- STEP: every call keeps the wire. -/
theorem wireKept_step (e : SwapEngine) (op : EngineOp) (h : WireKept e) : WireKept (step env e op) := by
  cases op with
  | accept head params =>
    rcases e.accept_cases head params with hc | ⟨err, hc⟩ <;> rw [step, call, hc]
    · exact wireKept_of_not_waiting (by rintro (h | h | h) <;> cases h)
    · exact h
  | observeInitiatorFunded wire observed need =>
    rcases e.observeInitiatorFunded_cases wire observed need with hc | ⟨err, hc⟩ <;> rw [step, call, hc]
    · exact fun _ _ => Option.some_ne_none wire
    · exact h
  | fund head params vsh =>
    rcases e.fund_cases env head params vsh with ⟨⟨hrole, -⟩, ⟨wire, -, hc⟩ | ⟨err, -, hc⟩⟩ |
      ⟨⟨hrole, hlegal, -⟩, hc⟩ | ⟨-, err, hc⟩ <;> rw [step, call, hc]
    · exact fun _ _ => Option.some_ne_none wire
    · intro hresponder
      exact absurd (hrole.symm.trans hresponder) (by decide)
    · rcases hlegal with ⟨hinit, -⟩ | ⟨-, hphase⟩
      · exact absurd (hrole.symm.trans hinit) (by decide)
      · exact h.of_waiting (.inl hphase) .selfFunded e.btcFunding
    · exact h
  | observeBtcFunded funded observed need =>
    rcases e.observeBtcFunded_cases funded observed need with ⟨hphase, hc⟩ | ⟨err, hc⟩ <;> rw [step, call, hc]
    · exact h.of_waiting (.inr (.inl hphase)) .bothFunded (some funded)
    · exact h
  | observeNimFunded own =>
    rcases e.observeNimFunded_cases own with ⟨hphase, hc⟩ | ⟨err, hc⟩ <;> rw [step, call, hc]
    · exact h.of_waiting (.inr (.inl hphase)) .bothFunded (some own)
    · exact h
  | revealAndClaimBtc head params =>
    rcases e.revealAndClaimBtc_cases env head params with ⟨-, hc⟩ | ⟨-, err, hc⟩ <;> rw [step, call, hc]
    · exact wireKept_of_not_waiting (by rintro (h | h | h) <;> cases h)
    · exact h
  | claimNimFromBtcClaim tx vsh =>
    rcases e.claimNimFromBtcClaim_cases env tx vsh with ⟨secret, -, ⟨wire, -, hc⟩ | ⟨err, -, hc⟩⟩ |
      ⟨-, err, hc⟩ <;> rw [step, call, hc]
    · exact wireKept_of_not_waiting (by rintro (h | h | h) <;> cases h)
    · exact wireKept_of_not_waiting (by rintro (h | h | h) <;> cases h)
    · exact h
  | observeSettled =>
    rcases e.observeSettled_cases with hc | ⟨err, hc⟩ <;> rw [step, call, hc]
    · exact wireKept_of_not_waiting (by rintro (h | h | h) <;> cases h)
    · exact h
  | abort =>
    rcases e.abort_cases with hc | ⟨err, hc⟩ <;> rw [step, call, hc]
    · exact wireKept_of_not_waiting (by rintro (h | h | h) <;> cases h)
    · exact h
  | refund head vsh =>
    rcases e.refund_cases env head vsh with ⟨-, hc⟩ | ⟨-, err, hc⟩ <;> rw [step, call, hc]
    · exact wireKept_of_not_waiting (by rintro (h | h | h) <;> cases h)
    · exact h

/-- RUN: a reachable engine keeps the wire. -/
theorem Reachable.wireKept {e : SwapEngine} (h : Reachable env e) : WireKept e := by
  have hnew : ∀ config role secret, WireKept (fromConfig config role secret) := fun config role secret =>
    wireKept_of_not_waiting (by rintro (h | h | h) <;> cases h)
  obtain ⟨config, ops, rfl | ⟨secret, rfl⟩⟩ := h
  · exact Run.exec_preserves (step env) wireKept_step ops _ (hnew config .responder none)
  · exact Run.exec_preserves (step env) wireKept_step ops _ (hnew config .initiator (some secret))

end SwapEngine

/-! ### What is read -/

/-- The item that is read, whatever it is: the second of the witness of input 0. -/
def readItem (tx : Transaction) : Option Bytes := tx.input.head?.bind fun input => input.witness[1]?

/-- The second witness item of input 0 has the length of a secret and opens the hash. -/
def ReadOpens (sha256 : Bytes → Hash) (root : Hash) (tx : Transaction) : Prop :=
  ∃ item, readItem tx = some item ∧ item.length = hashLen ∧ sha256 item = root

variable {env : EngineEnv} {p : BtcHtlcParams} {bytes : Bytes} {tx : Transaction}

theorem extractPreimage_eq_some_iff (h : env.lib.deserialize bytes = some tx) {secret : Hash} :
    extractPreimage env.lib bytes = some secret ↔ readItem tx = some secret.1 := by
  have heq : extractPreimage env.lib bytes = (readItem tx).bind (ByteArr.ofBytes? hashLen) := by
    rw [extractPreimage, h, readItem, Option.bind_assoc]
    rfl
  rw [heq, Option.bind_eq_some_iff]
  simp only [ByteArr.ofBytes?_eq_some]
  constructor
  · rintro ⟨item, hitem, rfl⟩
    exact hitem
  · intro hitem
    exact ⟨secret.1, hitem, rfl⟩

theorem exists_extract_iff (h : env.lib.deserialize bytes = some tx) (root : Hash) :
    (∃ secret, extractPreimage env.lib bytes = some secret ∧ env.sha256 secret.1 = root) ↔
      ReadOpens env.sha256 root tx := by
  constructor
  · rintro ⟨secret, hread, hopens⟩
    exact ⟨secret.1, (extractPreimage_eq_some_iff h).mp hread, secret.2, hopens⟩
  · rintro ⟨item, hread, hlen, hopens⟩
    exact ⟨⟨item, hlen⟩, (extractPreimage_eq_some_iff h).mpr hread, hopens⟩

/-- At input 0, the item that is read is the second of the script. -/
theorem readItem_of_spends {cs : Consensus} {script : Bytes} {outpoint : OutPoint} {items : List Bytes} {item : Bytes}
    (h : Btc.Spends cs script outpoint tx 0 items) (hitem : items[1]? = some item) : readItem tx = some item := by
  obtain ⟨input, hinput, -, hwitness⟩ := h.input
  rw [readItem, List.head?_eq_getElem?, hinput, Option.bind_some, hwitness,
    List.getElem?_append_left (List.getElem?_eq_some_iff.mp hitem).1, hitem]

/-- The wire that a responder was shown is a funding that its own key claims. -/
def SwapEngine.Claimable (env : EngineEnv) (e : SwapEngine) : Prop :=
  ∀ wire, e.nimFundingWire = some wire → ∃ c key, decodeCreationWire wire = some c ∧ e.nim.key.Holds key ∧
    fromPublicKey env.blake key = c.data.htlcRecipient

/-- The secret is read, and a responder that waits for it claims with it. -/
structure Revealed (env : EngineEnv) (p : BtcHtlcParams) (bytes : Bytes) : Prop where
  read : ∃ secret, extractPreimage env.lib bytes = some secret ∧ env.sha256 secret.1 = p.hashRoot
  claims : ∀ e vsh, SwapEngine.Reachable env e → e.role = .responder → e.phase = .bothFunded → e.btc.params = p →
    e.Claimable env → ∃ claim, (e.claimNimFromBtcClaim env bytes vsh).1 = .ok (.broadcast .nim claim)

/-- A responder that waits claims with whatever opening is read. -/
theorem claims_of_read {e : SwapEngine} {vsh : UInt32} {secret : Hash}
    (hread : extractPreimage env.lib bytes = some secret) (hopens : env.sha256 secret.1 = e.hashlock)
    (he : SwapEngine.Reachable env e) (hrole : e.role = .responder) (hphase : e.phase = .bothFunded)
    (hclaimable : e.Claimable env) :
    ∃ claim, (e.claimNimFromBtcClaim env bytes vsh).1 = .ok (.broadcast .nim claim) := by
  obtain ⟨wire, hwire⟩ := Option.ne_none_iff_exists'.mp (he.wireKept hrole (.inr (.inr hphase)))
  obtain ⟨c, key, hc, hholds, hkey⟩ := hclaimable wire hwire
  obtain ⟨sig, -, hbuild⟩ := NimiqLeg.buildClaim_eq hc hholds hkey secret vsh
  have htx : ∃ claim, e.claimNimTx env secret vsh = .ok claim := by
    rw [SwapEngine.claimNimTx, hwire]
    exact ⟨_, congrArg (Except.mapError EngineError.nimLeg) hbuild⟩
  obtain ⟨built, htx⟩ := htx
  rcases e.claimNimFromBtcClaim_cases env bytes vsh with ⟨s, hs, ⟨claim, -, h⟩ | ⟨err, herr, -⟩⟩ | ⟨hno, -⟩
  · exact ⟨claim, by rw [h]⟩
  · rw [Option.some.inj (hs.1.symm.trans hread), htx] at herr
    cases herr
  · exact absurd ⟨hread, hopens, hrole, hphase⟩ (hno secret)

theorem revealed_iff (h : env.lib.deserialize bytes = some tx) :
    Revealed env p bytes ↔ ReadOpens env.sha256 p.hashRoot tx := by
  constructor
  · intro hrev
    exact (exists_extract_iff h p.hashRoot).mp hrev.read
  · intro hread
    obtain ⟨secret, hsecret, hopens⟩ := (exists_extract_iff h p.hashRoot).mpr hread
    refine ⟨⟨secret, hsecret, hopens⟩, ?_⟩
    intro e vsh he hrole hphase hparams hclaimable
    exact claims_of_read hsecret (by rw [hopens, SwapEngine.hashlock, hparams]) he hrole hphase hclaimable

/-- EXACT: a spend of the script shows an opening or is a refund that is due. A shown opening is read, and claimed
    with, exactly when it has 32 bytes and the script is at input 0, or the second witness item of input 0 is an
    opening of 32 bytes anyway; and nothing that opens the hash is read off a refund exactly when that item is none. -/
theorem btc_claim_revealed_iff (env : EngineEnv) (checkSig : Transaction → ℕ → Bytes → Bytes → Bytes → Option Bool)
    (lockTime : Transaction → ℕ → Bytes → Bool) (p : BtcHtlcParams) (script : Bytes)
    (hscript : (p.redeemScript : Checked.Result BtcError Bytes) = .ok script) (outpoint : OutPoint) (tx : Transaction)
    (k : ℕ) (items : List Bytes) (bytes : Bytes) (hbytes : env.lib.deserialize bytes = some tx)
    (hspend : Btc.Spends ⟨env.sha256, checkSig, lockTime⟩ script outpoint tx k items) :
    ((∃ preimage, p.Claims ⟨env.sha256, checkSig, lockTime⟩ script tx k items preimage) ∨
      p.Refunds ⟨env.sha256, checkSig, lockTime⟩ script tx k items) ∧
    (((∀ preimage, p.Claims ⟨env.sha256, checkSig, lockTime⟩ script tx k items preimage → Revealed env p bytes) ∧
      (p.Refunds ⟨env.sha256, checkSig, lockTime⟩ script tx k items →
        ∀ secret, extractPreimage env.lib bytes = some secret → env.sha256 secret.1 ≠ p.hashRoot)) ↔
    ((∀ preimage, p.Claims ⟨env.sha256, checkSig, lockTime⟩ script tx k items preimage →
        if k = 0 then preimage.length = hashLen else ReadOpens env.sha256 p.hashRoot tx) ∧
      (p.Refunds ⟨env.sha256, checkSig, lockTime⟩ script tx k items → ¬ ReadOpens env.sha256 p.hashRoot tx))) := by
  refine ⟨((BtcHtlcParams.spends_iff hscript).mp hspend).2.2, and_congr ?_ ?_⟩
  · refine forall_congr' fun preimage => forall_congr' fun hclaims => ?_
    rw [revealed_iff hbytes]
    split_ifs with hk
    · subst hk
      obtain ⟨sig, cond, hitems, -⟩ := hclaims.shape
      have hread : readItem tx = some preimage := readItem_of_spends hspend (by rw [hitems]; rfl)
      constructor
      · rintro ⟨item, hitem, hlen, -⟩
        rw [hread] at hitem
        rw [Option.some.inj hitem]
        exact hlen
      · intro hlen
        exact ⟨preimage, hread, hlen, hclaims.opens⟩
    · rfl
  · refine forall_congr' fun _ => ?_
    rw [← exists_extract_iff hbytes p.hashRoot, not_exists]
    exact forall_congr' fun secret => not_and.symm

/-! ### Two claims of one output -/

namespace Sample

def btcSecret : Hash :=
  ⟨[1, 2, 3, 4, 5, 6, 7, 8, 9, 10, 11, 12, 13, 14, 15, 16, 17, 18, 19, 20, 21, 22, 23, 24, 25, 26, 27, 28, 29, 30,
      31, 32], rfl⟩

/-- The SHA-256 of the secret. -/
def btcRoot : Hash :=
  ⟨[0xae, 0x21, 0x6c, 0x2e, 0xf5, 0x24, 0x7a, 0x37, 0x82, 0xc1, 0x35, 0xef, 0xa2, 0x79, 0xa3, 0xe4, 0xcd,
    0xc6, 0x10, 0x94, 0x27, 0x0f, 0x5d, 0x2b, 0xe5, 0x8c, 0x62, 0x04, 0xb7, 0xa6, 0x12, 0xc9], rfl⟩

def btcParams : BtcHtlcParams where
  hashRoot := btcRoot
  recipientPubkey :=
    ⟨[0x03, 0x4f, 0x35, 0x5b, 0xdc, 0xb7, 0xcc, 0x0a, 0xf7, 0x28, 0xef, 0x3c, 0xce, 0xb9, 0x61, 0x5d, 0x90,
    0x68, 0x4b, 0xb5, 0xb2, 0xca, 0x5f, 0x85, 0x9a, 0xb0, 0xf0, 0xb7, 0x04, 0x07, 0x58, 0x71, 0xaa], rfl⟩
  senderPubkey :=
    ⟨[0x02, 0x46, 0x6d, 0x7f, 0xca, 0xe5, 0x63, 0xe5, 0xcb, 0x09, 0xa0, 0xd1, 0x87, 0x0b, 0xb5, 0x80, 0x34,
    0x48, 0x04, 0x61, 0x78, 0x79, 0xa1, 0x49, 0x49, 0xcf, 0x22, 0x28, 0x5f, 0x1b, 0xae, 0x3f, 0x27], rfl⟩
  cltvLocktime := 1782588246

def btcFunded : OutPoint := ⟨⟨List.replicate 32 0x11, rfl⟩, 0⟩

/-- The output of both transactions. -/
def btcPayout : TxOut where
  value := 99000
  scriptPubkey :=
    [0x00, 0x14, 0x75, 0x1e, 0x76, 0xe8, 0x19, 0x91, 0x96, 0xd4, 0x54, 0x94, 0x1c, 0x45, 0xd1, 0xb3, 0xa3,
    0x23, 0xf1, 0x43, 0x3b, 0xd6]

/-- The signature of the claim that spends the output alone. -/
def btcSignature : Bytes :=
  [0x30, 0x44, 0x02, 0x20, 0x37, 0xc2, 0x5c, 0x05, 0xc9, 0x43, 0xf7, 0x3e, 0x5e, 0x48, 0xdf, 0xc6, 0xb7,
    0x27, 0x2d, 0xbd, 0xbd, 0xa9, 0x24, 0x84, 0x26, 0x27, 0xb6, 0xe3, 0xa4, 0x63, 0xf8, 0x64, 0xc7, 0x92,
    0x89, 0xc2, 0x02, 0x20, 0x39, 0xb0, 0x8b, 0xe7, 0x28, 0x1f, 0x1d, 0x10, 0x74, 0xe4, 0x58, 0x64, 0x42,
    0xa9, 0x6f, 0xc2, 0xca, 0xeb, 0x81, 0x71, 0x02, 0xf1, 0x15, 0xad, 0xdb, 0x45, 0x5c, 0xe3, 0x70, 0x0d,
    0x7e, 0x58, 0x01]

/-- The signature of the claim that spends it as its second input. -/
def btcSignatureTwo : Bytes :=
  [0x30, 0x45, 0x02, 0x21, 0x00, 0xd4, 0xf1, 0x2e, 0x65, 0xc0, 0x33, 0x2c, 0xbe, 0x9c, 0x47, 0xdf, 0x18,
    0x7b, 0x2f, 0x95, 0x79, 0x21, 0x1f, 0xa8, 0x6a, 0xa5, 0x72, 0x10, 0x1c, 0x9e, 0x75, 0xe0, 0x53, 0x6f,
    0xab, 0x37, 0xf0, 0x02, 0x20, 0x5f, 0x84, 0x78, 0x88, 0x10, 0xc5, 0x98, 0x3d, 0x66, 0xf2, 0x6f, 0x34,
    0xfd, 0x7b, 0xef, 0x52, 0x08, 0x59, 0x7b, 0x0c, 0xcb, 0x08, 0xb4, 0x1d, 0xa7, 0xc7, 0x4f, 0x02, 0x6b,
    0x52, 0x9e, 0xa3, 0x01]

/-- The bytes of the script. -/
def btcScript : Bytes := Script.bytes btcParams.redeemOps

theorem btcScript_eq {ε : Type} : (btcParams.redeemScript : Checked.Result ε Bytes) = .ok btcScript :=
  BtcHtlcParams.redeemScript_eq_ok_iff.mpr ⟨by decide, rfl⟩

def btcClaimInput (signature : Bytes) : TxIn :=
  ⟨btcFunded, [], 0xffffffff, [signature, btcSecret.1, [1], btcScript]⟩

def btcClaim : Transaction := ⟨2, 0, [btcClaimInput btcSignature], [btcPayout]⟩

/-- The other input spends an output that anyone can spend. -/
def btcClaimTwo : Transaction :=
  ⟨2, 0, [⟨⟨⟨List.replicate 32 0x22, rfl⟩, 0⟩, [], 0xffffffff, [[0x51]]⟩, btcClaimInput btcSignatureTwo], [btcPayout]⟩

/-- The bytes of an input that spends a witness output. -/
def btcInputBytes (outpoint : OutPoint) : Bytes := outpoint.txid.1 ++ [0, 0, 0, 0, 0, 0xff, 0xff, 0xff, 0xff]

def btcItemsBytes (items : List Bytes) : Bytes :=
  items.length.toUInt8 :: items.flatMap fun item => item.length.toUInt8 :: item

/-- The bytes of a transaction with these inputs and the output of the sample. -/
def btcBytes (tx : Transaction) : Bytes :=
  [2, 0, 0, 0, 0, 1, tx.input.length.toUInt8] ++ tx.input.flatMap (fun i => btcInputBytes i.previousOutput) ++
    [1, 0xb8, 0x82, 1, 0, 0, 0, 0, 0] ++ btcPayout.scriptPubkey.length.toUInt8 :: btcPayout.scriptPubkey ++
    tx.input.flatMap (fun i => btcItemsBytes i.witness) ++ [0, 0, 0, 0]

def btcLib : Library where
  serialize := btcBytes
  deserialize b :=
    if b = btcBytes btcClaim then some btcClaim else if b = btcBytes btcClaimTwo then some btcClaimTwo else none
  p2wshSignatureHash _ _ _ := none
  normalizeDer := some
  p2wshAddress _ _ := "tb1qk5003sapatwjjnxvv296f8qvv8wkdujx5cppul8vfj4lf26g5ylqjc9ntt"

def btcEnv : EngineEnv where
  sha256 b := if b = btcSecret.1 then btcRoot else ByteArr.fill 32 0
  blake := keyHash
  lib := btcLib

/-- The two signatures are good, each for its transaction. -/
def btcCheckSig (tx : Transaction) (_ : ℕ) (_ sig key : Bytes) : Option Bool :=
  some (decide (key = btcParams.recipientPubkey.1 ∧
    (tx = btcClaim ∧ sig = btcSignature ∨ tx = btcClaimTwo ∧ sig = btcSignatureTwo)))

def btcConsensus : Consensus := ⟨btcEnv.sha256, btcCheckSig, fun _ _ _ => false⟩

def btcItems (signature : Bytes) : List Bytes := [signature, btcSecret.1, [1]]

theorem btcClaim_spends : Btc.Spends btcConsensus btcScript btcFunded btcClaim 0 (btcItems btcSignature) :=
  (BtcHtlcParams.spends_iff (btcScript_eq (ε := BtcError))).mpr ⟨⟨_, rfl, rfl, rfl⟩, by decide +kernel,
    .inl ⟨btcSecret.1, ⟨btcSignature, [1], rfl, rfl, by decide +kernel⟩, by decide +kernel⟩⟩

theorem btcClaimTwo_spends :
    Btc.Spends btcConsensus btcScript btcFunded btcClaimTwo 1 (btcItems btcSignatureTwo) :=
  (BtcHtlcParams.spends_iff (btcScript_eq (ε := BtcError))).mpr ⟨⟨_, rfl, rfl, rfl⟩, by decide +kernel,
    .inl ⟨btcSecret.1, ⟨btcSignatureTwo, [1], rfl, rfl, by decide +kernel⟩, by decide +kernel⟩⟩

end Sample

/-- The claim that spends the output alone is read. -/
theorem sample_btc_claim_revealed : Revealed Sample.btcEnv Sample.btcParams (Sample.btcBytes Sample.btcClaim) := by
  have hread : Sample.btcEnv.lib.deserialize (Sample.btcBytes Sample.btcClaim) = some Sample.btcClaim := by
    simp [Sample.btcEnv, Sample.btcLib]
  have hlaw := btc_claim_revealed_iff Sample.btcEnv Sample.btcCheckSig (fun _ _ _ => false) Sample.btcParams
    Sample.btcScript Sample.btcScript_eq Sample.btcFunded Sample.btcClaim 0 (Sample.btcItems Sample.btcSignature) _ hread
    Sample.btcClaim_spends
  have hclaims : Sample.btcParams.Claims Sample.btcConsensus Sample.btcScript Sample.btcClaim 0
      (Sample.btcItems Sample.btcSignature) Sample.btcSecret.1 :=
    ⟨⟨Sample.btcSignature, [1], rfl, rfl, by decide +kernel⟩, by decide +kernel⟩
  refine (hlaw.2.mpr ⟨?_, ?_⟩).1 _ hclaims
  · rintro preimage ⟨⟨sig, cond, hitems, -⟩, -⟩
    rw [if_pos rfl]
    cases hitems
    rfl
  · rintro ⟨⟨sig, cond, hitems, -⟩, -⟩
    cases hitems

/-- The claim that spends it as the second input is not, and every responder is left without the secret. -/
theorem btc_claim_unread :
    Btc.Spends Sample.btcConsensus Sample.btcScript Sample.btcFunded Sample.btcClaimTwo 1
        (Sample.btcItems Sample.btcSignatureTwo) ∧
      Sample.btcParams.Claims Sample.btcConsensus Sample.btcScript Sample.btcClaimTwo 1
        (Sample.btcItems Sample.btcSignatureTwo) Sample.btcSecret.1 ∧
      extractPreimage Sample.btcEnv.lib (Sample.btcBytes Sample.btcClaimTwo) = none ∧
      ∀ e vsh, SwapEngine.claimNimFromBtcClaim Sample.btcEnv e (Sample.btcBytes Sample.btcClaimTwo) vsh =
        (.error (.missingInput "no preimage in the BTC claim"), e) := by
  have hnone : extractPreimage Sample.btcEnv.lib (Sample.btcBytes Sample.btcClaimTwo) = none := by
    decide +kernel
  refine ⟨Sample.btcClaimTwo_spends, ⟨⟨Sample.btcSignatureTwo, [1], rfl, rfl, by decide +kernel⟩, by decide +kernel⟩,
    hnone, ?_⟩
  intro e vsh
  rw [SwapEngine.claimNimFromBtcClaim, hnone]

end Nimmesh
