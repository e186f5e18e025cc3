import Nimmesh.Live.Transfer
import Nimmesh.Swap.Signer
import Nimmesh.Swap.WireCodec

/-! @src swap_messages.rs swap_intent.rs nimiq/tx.rs nimiq/htlc.rs | name:What a swap signature covers |
    layer:properties

    A `Propose` and an intent are signed over all of their fields, by the key that also signs NIM
    transactions. The signed bytes of a proposal end with its network id, those of every transaction
    with the length of the sender data, which is zero: on a network with a nonzero id no string is both. -/

namespace Nimmesh

/-- The bytes an intent's signature covers. -/
def SwapIntent.signingBytes (i : SwapIntent) : Bytes := encodeIntentContent i

/-- The NIM transactions that this code can serialise. -/
inductive NimTx where
  | transfer (t : Transfer)
  | creation (c : HtlcCreation)
  | redeem (r : HtlcRedeem)

def NimTx.serializeContent (blake : Blake2b) : NimTx → Bytes
  | .transfer t => t.serializeContent
  | .creation c => c.serializeContent blake
  | .redeem r => r.serializeContent

theorem beBytes_inj {v w : UInt64} (h : beBytes v = beBytes w) : v = w := by
  rw [← u64OfBe_beBytes v, h, u64OfBe_beBytes]

/-- Two strings that end in arrays of one width agree in them and in what stands before. -/
theorem append_arr_inj {a a' : Bytes} {n : ℕ} {b b' : ByteArr n} (h : a ++ b.1 = a' ++ b'.1) : a = a' ∧ b = b' := by
  obtain ⟨ha, hb⟩ := List.append_inj' h (b.2.trans b'.2.symm)
  exact ⟨ha, Subtype.ext hb⟩

theorem append_beBytes_inj {a a' : Bytes} {v w : UInt64} (h : a ++ beBytes v = a' ++ beBytes w) :
    a = a' ∧ v = w := by
  obtain ⟨ha, hb⟩ := List.append_inj' h rfl
  exact ⟨ha, beBytes_inj hb⟩

/-- No two proposals have the same signed bytes. -/
theorem SwapProposal.signingBytes_inj {p q : SwapProposal} (h : p.signingBytes = q.signingBytes) : p = q := by
  obtain ⟨pid, phash, pgive, ptake, ⟨pnim, pcounter⟩, paddr, pbtc, ppk, pnet⟩ := p
  obtain ⟨qid, qhash, qgive, qtake, ⟨qnim, qcounter⟩, qaddr, qbtc, qpk, qnet⟩ := q
  simp only [signingBytes] at h
  obtain ⟨h, hnet⟩ := List.append_inj' h rfl
  obtain ⟨h, hpk⟩ := append_arr_inj h
  -- the fields before the BTC address have a fixed width, so the address is the rest
  have hfixed : ∀ (id : SwapId) (hash : Hash) (g t n c : UInt64) (addr : NimAddress),
      (id.1 ++ hash.1 ++ beBytes g ++ beBytes t ++ beBytes n ++ beBytes c ++ addr.1).length =
        swapIdLen + hashLen + 32 + nimAddressLen := by
    intro id hash g t n c addr
    simp only [List.length_append, id.2, hash.2, addr.2, length_beBytes]
  obtain ⟨h, hbtc⟩ := List.append_inj h ((hfixed ..).trans (hfixed ..).symm)
  obtain ⟨h, haddr⟩ := append_arr_inj h
  obtain ⟨h, hcounter⟩ := append_beBytes_inj h
  obtain ⟨h, hnim⟩ := append_beBytes_inj h
  obtain ⟨h, htake⟩ := append_beBytes_inj h
  obtain ⟨h, hgive⟩ := append_beBytes_inj h
  obtain ⟨h, hhash⟩ := append_arr_inj h
  have hid : pid = qid := Subtype.ext h
  have hnet : pnet = qnet := (List.cons.inj hnet).1
  subst hid hhash hgive htake hnim hcounter haddr hbtc hpk hnet
  rfl

/-- No two intents with different fields have the same signed bytes. -/
theorem SwapIntent.signingBytes_inj {i j : SwapIntent} (hi : i.btcAddress.length ≤ 65535)
    (hj : j.btcAddress.length ≤ 65535) (h : i.signingBytes = j.signingBytes) :
    { i with signature := j.signature } = j := by
  have hbytes : encodeIntent { i with signature := j.signature } = encodeIntent j :=
    congrArg (· ++ j.signature.1) h
  have hread := decodeIntent_encodeIntent (i := { i with signature := j.signature }) hi
  rw [hbytes, decodeIntent_encodeIntent hj] at hread
  exact (Except.ok.inj hread).symm

/-- Every transaction's signed bytes end with the length of its sender data. -/
theorem NimTx.getLast?_serializeContent (blake : Blake2b) (tx : NimTx) :
    (tx.serializeContent blake).getLast? = some 0 := by
  cases tx with
  | transfer t => exact List.getLast?_concat
  | creation c => exact List.getLast?_concat
  | redeem r => exact List.getLast?_concat

theorem SwapProposal.getLast?_signingBytes (p : SwapProposal) : p.signingBytes.getLast? = some p.networkId :=
  List.getLast?_concat

/-- A proposal is not a transaction. -/
theorem SwapProposal.signingBytes_ne {p : SwapProposal} (hp : p.networkId ≠ 0) (blake : Blake2b) (tx : NimTx) :
    p.signingBytes ≠ tx.serializeContent blake := by
  intro h
  have hlast := congrArg List.getLast? h
  rw [p.getLast?_signingBytes, tx.getLast?_serializeContent] at hlast
  exact hp (Option.some.inj hlast)

/-- An ideal signature: it is good for one message under a key. -/
def Crypto.SignsOnce (cr : Crypto) : Prop :=
  ∀ key m m' sig, cr.verifyStrict key m sig = true → cr.verifyStrict key m' sig = true → m = m'

/-- CORRECT: the signed bytes of a proposal and of an intent determine every field but the signature; on a
    network with a nonzero id the signed bytes of a proposal are those of no transaction, and an ideal
    signature that authenticates the proposal is valid on no transaction by the same key. -/
theorem swap_signature_scope :
    (∀ p q : SwapProposal, p.signingBytes = q.signingBytes → p = q) ∧
    (∀ i j : SwapIntent, i.btcAddress.length ≤ 65535 → j.btcAddress.length ≤ 65535 →
      i.signingBytes = j.signingBytes → { i with signature := j.signature } = j) ∧
    (∀ (p : SwapProposal) (blake : Blake2b) (tx : NimTx), p.networkId ≠ 0 →
      p.signingBytes ≠ tx.serializeContent blake) ∧
    ∀ (cr : Crypto) (p : SwapProposal) (key : ByteArr proposePubkeyLen) (sig : ByteArr proposeSigLen)
      (blake : Blake2b) (tx : NimTx), cr.SignsOnce → p.networkId ≠ 0 → p.verifySignature cr key sig = true →
      cr.verifyStrict key (tx.serializeContent blake) sig = false := by
  refine ⟨fun p q h => SwapProposal.signingBytes_inj h, fun i j hi hj h => SwapIntent.signingBytes_inj hi hj h,
    fun p blake tx hp => SwapProposal.signingBytes_ne hp blake tx, ?_⟩
  intro cr p key sig blake tx honce hp hsig
  have hvalid : cr.verifyStrict key p.signingBytes sig = true := by
    unfold SwapProposal.verifySignature at hsig
    split_ifs at hsig
    exact hsig
  by_contra hspend
  have hboth := honce key _ _ sig hvalid (eq_true_of_ne_false hspend)
  exact SwapProposal.signingBytes_ne hp blake tx hboth

namespace Sample

theorem crypto_signsOnce : crypto.SignsOnce := by
  have hne : pubkey ≠ bobPubkey := by decide
  intro key m m' sig h h'
  simp only [crypto, Bool.or_eq_true, Bool.and_eq_true, decide_eq_true_eq] at h h'
  rcases h with ⟨⟨hk, rfl⟩, -⟩ | ⟨⟨hk, rfl⟩, -⟩ <;> rcases h' with ⟨⟨hk', rfl⟩, -⟩ | ⟨⟨hk', rfl⟩, -⟩
  · rfl
  · exact absurd (hk.symm.trans hk') hne
  · exact absurd (hk'.symm.trans hk) hne
  · rfl

/-- A redeem to the initiator of the sample swap. -/
def redeem : HtlcRedeem := ⟨ByteArr.fill nimAddressLen 1, aliceAddress, 200000, 0, 100, 5⟩

end Sample

/-- The signature on the sample's `Propose` moves no coins of its signer. -/
theorem sample_signature_scope :
    Sample.crypto.verifyStrict Sample.pubkey
      ((NimTx.redeem Sample.redeem).serializeContent fun _ => ByteArr.fill 32 0) Sample.signature = false :=
  swap_signature_scope.2.2.2 Sample.crypto Sample.proposal Sample.pubkey Sample.signature _ _
    Sample.crypto_signsOnce (by decide) (by decide +kernel)

end Nimmesh
