import NomadAmm.Instructions.Initialize
import NomadAmm.World.Tokens

/-! The accounts each instruction is given, under the names of its `Accounts` struct.
What exists once per token is a `PerToken`. Programs, sysvars and the authority, whose
address is fixed, are left out. -/

namespace NomadAmm

open Run

/-- `create_pool_fee_reveiver::ID`. -/
def createPoolFeeReceiver : Pubkey :=
  57167628119568775958919085132888433286133064148399240927585748839052494055209

variable (p : Addresses)

structure CreateAmmConfig where
  owner : Signer p
  ammConfig : Pubkey

structure UpdateAmmConfig where
  owner : Signer p
  ammConfig : Pubkey

/-- `CreatePermissionPda` and `ClosePermissionPda`. -/
structure PermissionPda where
  owner : Signer p
  permissionAuthority : Pubkey
  permission : Pubkey

/-- `Initialize`, where the creator is the payer, and `InitializeWithPermission`. The pool
account may have signed. -/
structure Initialize where
  payer : Signer p
  ammConfig : Pubkey
  poolState : Pubkey
  poolStateSigned : Bool
  tokenMint : PerToken Pubkey
  lpMint : Pubkey
  payerToken : PerToken Pubkey
  payerLpToken : Pubkey
  tokenVault : PerToken Pubkey
  createPoolFee : Pubkey
  observationState : Pubkey

/-- `UpdatePoolStatus` and `SetOracleKeeper`. -/
structure PoolAdmin where
  authority : Signer p
  poolState : Pubkey

structure UpdatePoolOracle where
  oracleKeeper : Signer p
  poolState : Pubkey

/-- `CollectProtocolFee` and `CollectFundFee`. -/
structure CollectFee where
  owner : Signer p
  poolState : Pubkey
  ammConfig : Pubkey
  tokenVault : PerToken Pubkey
  vaultMint : PerToken Pubkey
  recipientToken : PerToken Pubkey

structure CollectCreatorFee where
  creator : Signer p
  poolState : Pubkey
  ammConfig : Pubkey
  tokenVault : PerToken Pubkey
  vaultMint : PerToken Pubkey
  creatorToken : PerToken Pubkey

/-- `Deposit` and `Withdraw`. -/
structure ChangeLiquidity where
  owner : Signer p
  poolState : Pubkey
  ownerLpToken : Pubkey
  tokenAccount : PerToken Pubkey
  tokenVault : PerToken Pubkey
  vaultMint : PerToken Pubkey
  lpMint : Pubkey

structure Swap where
  payer : Signer p
  ammConfig : Pubkey
  poolState : Pubkey
  inputTokenAccount : Pubkey
  outputTokenAccount : Pubkey
  inputVault : Pubkey
  outputVault : Pubkey
  inputTokenMint : Pubkey
  outputTokenMint : Pubkey
  observationState : Pubkey

/-- Which vault of the pool a key is. -/
def PoolKeys.sideOf (keys : PoolKeys) (key : Pubkey) : Option TokenSide :=
  if key = keys.vault.token0 then some .token0
  else if key = keys.vault.token1 then some .token1
  else none

/-- A constraint that picks something, or fails as `constraint = ..` does. -/
def picked {α : Type} : Option α → Run α
  | some a => .ok a
  | none => .error (.account .constraintRaw)

namespace World

/-- Both vaults and their mints, as the constraints of four instructions have them. -/
def vaults (w : World) (keys : PoolKeys) (tokenVault vaultMint : PerToken Pubkey) :
    Run (PerToken TokenAccount × PerToken Mint) := do
  let vault0 ← w.token tokenVault.token0
  let vault1 ← w.token tokenVault.token1
  let mint0 ← w.mint vaultMint.token0
  let mint1 ← w.mint vaultMint.token1
  check (tokenVault.token0 = keys.vault.token0) .constraintRaw
  check (tokenVault.token1 = keys.vault.token1) .constraintRaw
  check (vaultMint.token0 = vault0.mint) .constraintAddress
  check (vaultMint.token1 = vault1.mint) .constraintAddress
  pure (⟨vault0, vault1⟩, ⟨mint0.mint, mint1.mint⟩)

/-- `init_if_needed` on an associated token account. -/
def initAssociated (w : World) (wallet : Pubkey) (mint : Mint) (mintKey key : Pubkey) :
    Run World := do
  check (key = p.associatedToken wallet mint.owner mintKey) .constraintAssociated
  match w.account key with
  | none => w.createTokenAccount wallet key mintKey
  | some _ => do
    let t ← w.token key
    check (t.mint = mintKey) .constraintTokenMint
    check (t.owner = wallet) .constraintTokenOwner
    pure w

end World

end NomadAmm
