import Nimmesh.Swap.Wire

/-! @src contracts/src/NimmeshHtlc.sol contracts/test/MockUsdc.sol | name:The escrowed token |
    layer:model

    The ERC-20 surface that the escrow calls. The token is code of its own: it enters as the functions
    `Erc20` on some state, with what a standard token does as `Erc20.Standard`. `MockUsdc` is the
    repository's own stand-in for USDC, and it is standard. -/

namespace Nimmesh

/-- An `address`. -/
abbrev EvmAddress := ByteArr 20

/-- A `uint256`. -/
abbrev U256 := BitVec 256

/-- `address(0)`. -/
def zeroAddress : EvmAddress := ByteArr.fill 20 0

/-- The signature part of an EIP-2612 `permit`. -/
structure PermitSig where
  deadline : U256
  v : UInt8
  r : Hash
  s : Hash
  deriving DecidableEq

/-- A token on states `T`. A call reverts (`none`) or returns its flag and the new state; the first
    address is `msg.sender`. -/
structure Erc20 (T : Type) where
  balanceOf : T → EvmAddress → ℕ
  allowance : T → EvmAddress → EvmAddress → ℕ
  transfer : T → EvmAddress → EvmAddress → ℕ → Option (Bool × T)
  transferFrom : T → EvmAddress → EvmAddress → EvmAddress → ℕ → Option (Bool × T)
  approve : T → EvmAddress → EvmAddress → ℕ → Option (Bool × T)
  permit : T → U256 → EvmAddress → EvmAddress → ℕ → PermitSig → Option T

namespace Erc20

variable {T : Type}

/-- From `t` to `t'` exactly `value` moved from `src` to `dst`, and `src` had it. -/
def Moved (tok : Erc20 T) (t t' : T) (src dst : EvmAddress) (value : ℕ) : Prop :=
  value ≤ tok.balanceOf t src ∧
  ∀ a, tok.balanceOf t' a + (if a = src then value else 0) =
    tok.balanceOf t a + (if a = dst then value else 0)

/-- A standard token: a transfer that succeeds moves exactly the amount asked for, a `transferFrom` within
    the allowance of its caller, and only the owner (by a call or a signature) raises an allowance. -/
structure Standard (tok : Erc20 T) : Prop where
  transfer {t t' : T} {caller dst : EvmAddress} {value : ℕ} :
    tok.transfer t caller dst value = some (true, t') →
      tok.Moved t t' caller dst value ∧ ∀ o s, tok.allowance t' o s = tok.allowance t o s
  transferFrom {t t' : T} {caller src dst : EvmAddress} {value : ℕ} :
    tok.transferFrom t caller src dst value = some (true, t') →
      value ≤ tok.allowance t src caller ∧ tok.Moved t t' src dst value ∧
        ∀ o s, tok.allowance t' o s ≤ tok.allowance t o s
  approve {t t' : T} {caller spender : EvmAddress} {value : ℕ} :
    tok.approve t caller spender value = some (true, t') →
      (∀ a, tok.balanceOf t' a = tok.balanceOf t a) ∧
        ∀ o s, o ≠ caller → tok.allowance t' o s = tok.allowance t o s
  permit {t t' : T} {now : U256} {owner spender : EvmAddress} {value : ℕ} {sig : PermitSig} :
    tok.permit t now owner spender value sig = some t' →
      (∀ a, tok.balanceOf t' a = tok.balanceOf t a) ∧
        ∀ o s, o ≠ owner → tok.allowance t' o s = tok.allowance t o s

/-- A token that honours what it shows: within the balance a transfer succeeds, and within balance and
    allowance a `transferFrom`. -/
structure Honours (tok : Erc20 T) : Prop where
  transfer {t : T} {caller dst : EvmAddress} {value : ℕ} : value ≤ tok.balanceOf t caller →
    ∃ t', tok.transfer t caller dst value = some (true, t')
  transferFrom {t : T} {caller src dst : EvmAddress} {value : ℕ} : value ≤ tok.balanceOf t src →
    value ≤ tok.allowance t src caller → ∃ t', tok.transferFrom t caller src dst value = some (true, t')

/-- No signature permits in the name of `a`: it is a contract, and has no key. -/
def Keyless (tok : Erc20 T) (a : EvmAddress) : Prop :=
  ∀ t now spender value sig, tok.permit t now a spender value sig = none

/-- `a` has approved nobody. -/
def Unapproved (tok : Erc20 T) (t : T) (a : EvmAddress) : Prop := ∀ s, tok.allowance t a s = 0

/-- The token calls of anyone but `a`. -/
inductive OutsideCall (a : EvmAddress) where
  | transfer (caller : { c : EvmAddress // c ≠ a }) (dst : EvmAddress) (value : ℕ)
  | transferFrom (caller : { c : EvmAddress // c ≠ a }) (src dst : EvmAddress) (value : ℕ)
  | approve (caller : { c : EvmAddress // c ≠ a }) (spender : EvmAddress) (value : ℕ)
  | permit (owner spender : EvmAddress) (value : ℕ) (sig : PermitSig)

/-- The token after such a call; one that reverts or reports failure is left out. -/
def outside (tok : Erc20 T) {a : EvmAddress} (t : T) (now : U256) : OutsideCall a → T
  | .transfer caller dst value =>
    match tok.transfer t caller dst value with
    | some (true, t') => t'
    | _ => t
  | .transferFrom caller src dst value =>
    match tok.transferFrom t caller src dst value with
    | some (true, t') => t'
    | _ => t
  | .approve caller spender value =>
    match tok.approve t caller spender value with
    | some (true, t') => t'
    | _ => t
  | .permit owner spender value sig => (tok.permit t now owner spender value sig).getD t

variable {tok : Erc20 T}

/-- A transfer out of another account never takes from `a`. -/
theorem Moved.le_balance {t t' : T} {src dst a : EvmAddress} {value : ℕ} (h : tok.Moved t t' src dst value)
    (ha : a ≠ src ∨ value = 0) : tok.balanceOf t a ≤ tok.balanceOf t' a := by
  have heq := h.2 a
  rcases ha with ha | rfl
  · rw [if_neg ha] at heq
    omega
  · simp only [ite_self, Nat.add_zero] at heq
    omega

/-- Nobody can spend or approve in the name of an account that has no key and has approved nobody. -/
theorem outside_keeps (hstd : tok.Standard) {a : EvmAddress} (hkey : tok.Keyless a) {t : T}
    (hun : tok.Unapproved t a) (now : U256) (call : OutsideCall a) :
    tok.balanceOf t a ≤ tok.balanceOf (tok.outside t now call) a ∧
      tok.Unapproved (tok.outside t now call) a := by
  cases call with
  | transfer caller dst value =>
    simp only [outside]
    split
    · rename_i t' he
      obtain ⟨hm, hal⟩ := hstd.transfer he
      exact ⟨hm.le_balance (.inl caller.2.symm), fun s => (hal a s).trans (hun s)⟩
    · exact ⟨le_rfl, hun⟩
  | transferFrom caller src dst value =>
    simp only [outside]
    split
    · rename_i t' he
      obtain ⟨hle, hm, hal⟩ := hstd.transferFrom he
      refine ⟨hm.le_balance ?_, fun s => ?_⟩
      · by_cases hs : a = src
        · subst hs
          rw [hun] at hle
          exact .inr (Nat.le_zero.mp hle)
        · exact .inl hs
      · have hs := hal a s
        rw [hun s] at hs
        exact Nat.le_zero.mp hs
    · exact ⟨le_rfl, hun⟩
  | approve caller spender value =>
    simp only [outside]
    split
    · rename_i t' he
      obtain ⟨hb, hal⟩ := hstd.approve he
      exact ⟨(hb a).ge, fun s => (hal a s caller.2.symm).trans (hun s)⟩
    · exact ⟨le_rfl, hun⟩
  | permit owner spender value sig =>
    simp only [outside]
    cases he : tok.permit t now owner spender value sig with
    | none => exact ⟨le_rfl, hun⟩
    | some t' =>
      obtain ⟨hb, hal⟩ := hstd.permit he
      have hne : a ≠ owner := by
        rintro rfl
        rw [hkey] at he
        cases he
      exact ⟨(hb a).ge, fun s => (hal a s hne).trans (hun s)⟩

end Erc20

/-! ### The repository's own USDC -/

/-- The state of `MockUsdc`; the nonces are what a permit digest is bound to. -/
structure MockUsdc where
  balanceOf : EvmAddress → ℕ
  allowance : EvmAddress → EvmAddress → ℕ
  nonces : EvmAddress → ℕ

namespace MockUsdc

/-- `type(uint256).max`: the allowance that is never used up. -/
def unlimited : ℕ := 2 ^ 256 - 1

/-- `_transfer`: checked subtraction, then addition; equal ends leave the balances alone. -/
def move (t : MockUsdc) (src dst : EvmAddress) (value : ℕ) : Option (Bool × MockUsdc) :=
  if t.balanceOf src < value then none
  else
    let debited := fun a => if a = src then t.balanceOf a - value else t.balanceOf a
    some (true, { t with balanceOf := fun a => if a = dst then debited a + value else debited a })

def transferFrom (t : MockUsdc) (caller src dst : EvmAddress) (value : ℕ) : Option (Bool × MockUsdc) :=
  let allowed := t.allowance src caller
  if allowed < value then none
  else
    let t := if allowed = unlimited then t else
      { t with allowance := fun o s => if o = src ∧ s = caller then allowed - value else t.allowance o s }
    t.move src dst value

def approve (t : MockUsdc) (caller spender : EvmAddress) (value : ℕ) : Option (Bool × MockUsdc) :=
  some (true, { t with
    allowance := fun o s => if o = caller ∧ s = spender then value else t.allowance o s })

/-- `permit`: `recover` is `ecrecover` on the digest of the arguments and the owner's nonce. -/
def permit (recover : EvmAddress → EvmAddress → ℕ → ℕ → PermitSig → Option EvmAddress) (t : MockUsdc)
    (now : U256) (owner spender : EvmAddress) (value : ℕ) (sig : PermitSig) : Option MockUsdc :=
  if sig.deadline < now then none
  else if recover owner spender value (t.nonces owner) sig = some owner then
    some { t with nonces := fun a => if a = owner then t.nonces a + 1 else t.nonces a,
                  allowance := fun o s => if o = owner ∧ s = spender then value else t.allowance o s }
  else none

/-- `MockUsdc` as a token. -/
def erc20 (recover : EvmAddress → EvmAddress → ℕ → ℕ → PermitSig → Option EvmAddress) : Erc20 MockUsdc where
  balanceOf := balanceOf
  allowance := allowance
  transfer := move
  transferFrom := transferFrom
  approve := approve
  permit := permit recover

variable {recover : EvmAddress → EvmAddress → ℕ → ℕ → PermitSig → Option EvmAddress}

theorem move_spec (recover : EvmAddress → EvmAddress → ℕ → ℕ → PermitSig → Option EvmAddress) {t t' : MockUsdc}
    {src dst : EvmAddress} {value : ℕ} {b : Bool} (h : t.move src dst value = some (b, t')) :
    (erc20 recover).Moved t t' src dst value ∧ t'.allowance = t.allowance := by
  simp only [move] at h
  split_ifs at h with hlt
  simp only [Option.some.injEq, Prod.mk.injEq] at h
  obtain ⟨-, rfl⟩ := h
  refine ⟨⟨not_lt.mp hlt, fun a => ?_⟩, rfl⟩
  simp only [erc20]
  by_cases hs : a = src
  · subst hs
    split_ifs <;> omega
  · split_ifs <;> omega

/-- CORRECT: the repository's USDC is a standard token. -/
theorem standard : (erc20 recover).Standard where
  transfer h := by
    obtain ⟨hm, hal⟩ := move_spec recover h
    exact ⟨hm, fun o s => congrFun (congrFun hal o) s⟩
  transferFrom := by
    intro t t' caller src dst value h
    simp only [erc20, transferFrom] at h
    split_ifs at h with hlt hmax
    · obtain ⟨hm, hal⟩ := move_spec recover h
      exact ⟨not_lt.mp hlt, hm, fun o s => (congrFun (congrFun hal o) s).le⟩
    · obtain ⟨hm, hal⟩ := move_spec recover h
      refine ⟨not_lt.mp hlt, hm, fun o s => ?_⟩
      simp only [erc20, hal]
      split_ifs with hos
      · obtain ⟨rfl, rfl⟩ := hos
        exact Nat.sub_le _ _
      · exact le_rfl
  approve := by
    intro t t' caller spender value h
    simp only [erc20, approve, Option.some.injEq, Prod.mk.injEq, true_and] at h
    subst h
    exact ⟨fun _ => rfl, fun o s ho => if_neg fun hos => ho hos.1⟩
  permit := by
    intro t t' now owner spender value sig h
    simp only [erc20, permit] at h
    split_ifs at h
    cases h
    exact ⟨fun _ => rfl, fun o s ho => if_neg fun hos => ho hos.1⟩

theorem honours : (erc20 recover).Honours where
  transfer := by
    intro t caller dst value h
    simp only [erc20] at h ⊢
    exact ⟨_, by rw [move, if_neg (not_lt.mpr h)]⟩
  transferFrom := by
    intro t caller src dst value h hal
    simp only [erc20] at h hal ⊢
    rw [transferFrom]
    simp only [if_neg (not_lt.mpr hal)]
    split <;> exact ⟨_, by rw [move, if_neg (not_lt.mpr h)]⟩

end MockUsdc

end Nimmesh
