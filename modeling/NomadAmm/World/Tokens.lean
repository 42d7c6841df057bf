import NomadAmm.World.Accounts

/-! The token instructions the program invokes, on the accounts themselves. Of the
extensions of Token-2022 the transfer fee and the permanent delegate are modelled; freezing
and the others, which can only make a transfer fail, are left out. Decimals always are the
ones of the mint that is passed. -/

namespace NomadAmm

open Lib.Checked Exec Run

/-- The mint of wrapped SOL of each token program. An account of it has its lamports for
tokens, as many as were there when it was last synced. -/
def nativeMint : TokenProgram → Pubkey
  | .token => 2988679396378646993494765771507681406623014513651778753134412041978399162369
  | .token2022 => 59277695726379707410789448180848216922638439526505700165302955650568672926544

def IsNative (mint : Pubkey) : Prop := mint = nativeMint .token ∨ mint = nativeMint .token2022

instance (mint : Pubkey) : Decidable (IsNative mint) := inferInstanceAs (Decidable (_ ∨ _))

namespace TokenAccount

/-- A fresh account. -/
def opened (mint owner : Pubkey) (amount : Nat) : TokenAccount := ⟨mint, owner, amount, none, 0, 0⟩

/-- Whom a token program lets move `amount`: the permanent delegate of the mint, or the
delegate as far as approved, or else the owner. -/
def validate (t : TokenAccount) (permanentDelegate : Option Pubkey) (authority : Pubkey)
    (amount : Nat) : Run Unit :=
  if permanentDelegate = some authority then .ok ()
  else if t.delegate = some authority then
    handler (require (amount ≤ t.delegatedAmount) (.token .insufficientFunds))
  else check (authority = t.owner) .ownerMismatch

/-- The account after `authority` took `amount` from it. A used-up approval ends; a permanent
delegate uses none. -/
def debit (t : TokenAccount) (permanentDelegate : Option Pubkey) (authority : Pubkey)
    (amount : Nat) : TokenAccount :=
  if permanentDelegate ≠ some authority ∧ t.delegate = some authority then
    { t with
      amount := t.amount - amount
      delegatedAmount := t.delegatedAmount - amount
      delegate := if t.delegatedAmount = amount then none else t.delegate }
  else { t with amount := t.amount - amount }

/-- The account after `amount` was sent to it, `fee` of it withheld. -/
def credit (t : TokenAccount) (amount fee : Nat) : Exec TokenAccount := do
  let credited ← tokenCheck .overflow (checkedSub amount fee)
  let newAmount ← tokenCheck .overflow (checkedAdd 64 t.amount credited)
  let withheldAmount ← tokenCheck .overflow (checkedAdd 64 t.withheldAmount fee)
  pure { t with amount := newAmount, withheldAmount }

end TokenAccount

namespace World

/-- Lamports that go from one account to another, as the system program moves them and as
a transfer of wrapped SOL does. -/
def moveLamports (w : World) (e : Fault) (source destination : Pubkey) (amount : Nat) :
    Run World := do
  handler (require (amount ≤ (w.lamports source).toNat) e)
  let rest := Function.update w.lamports source (w.lamports source - .ofNat amount)
  handler (require ((rest destination).toNat + amount < 2 ^ 64) e)
  pure { w with lamports := Function.update rest destination (rest destination + .ofNat amount) }

/-- The lamports of a transfer of wrapped SOL. -/
def moveNative (w : World) (mintKey source destination : Pubkey) (amount : Nat) : Run World :=
  if IsNative mintKey then w.moveLamports (.token .overflow) source destination amount
  else pure w

/-- `transfer_checked`. A transfer of an account to itself passes the checks and moves
nothing. -/
def transferChecked (w : World) (epoch : Nat) (authority source destination mintKey : Pubkey)
    (amount : Nat) : Run World := do
  let sender ← w.token source
  let receiver ← w.token destination
  let mint ← w.mint mintKey
  handler (require (amount ≤ sender.amount) (.token .insufficientFunds))
  check (sender.mint = receiver.mint ∧ sender.mint = mintKey) .mintMismatch
  let fee ← handler (withheldFee mint.mint epoch amount)
  sender.validate mint.permanentDelegate authority amount
  if source = destination then pure w
  else do
    let credited ← handler (receiver.credit amount fee)
    let w ← w.moveNative mintKey source destination amount
    let debited := sender.debit mint.permanentDelegate authority amount
    pure ((w.put source (.token debited)).put destination (.token credited))

/-- Both directions of the source; only the one out of a vault is signed with seeds. -/
def transferFromUserToPoolVault (w : World) (epoch : Nat)
    (authority fromAccount toVault mint : Pubkey) (amount : Nat) : Run World :=
  if amount = 0 then pure w
  else w.transferChecked epoch authority fromAccount toVault mint amount

def transferFromPoolVaultToUser (w : World) (epoch : Nat)
    (authority fromVault toAccount mint : Pubkey) (amount : Nat) : Run World :=
  if amount = 0 then pure w
  else w.transferChecked epoch authority fromVault toAccount mint amount

def tokenMintTo (w : World) (authority mintKey destination : Pubkey) (amount : Nat) :
    Run World := do
  let receiver ← w.token destination
  let mint ← w.mint mintKey
  check (¬IsNative receiver.mint) .nativeNotSupported
  check (receiver.mint = mintKey) .mintMismatch
  check (mint.mintAuthority = some authority) .ownerMismatch
  let newAmount ← handler (tokenCheck .overflow (checkedAdd 64 receiver.amount amount))
  let supply ← handler (NomadAmm.tokenMintTo mint.supply amount)
  pure ((w.put destination (.token { receiver with amount := newAmount })).put mintKey
    (.mint { mint with supply }))

def tokenBurn (w : World) (authority mintKey source : Pubkey) (amount : Nat) : Run World := do
  let holder ← w.token source
  let mint ← w.mint mintKey
  check (¬IsNative holder.mint) .nativeNotSupported
  check (holder.mint = mintKey) .mintMismatch
  let supply ← handler (NomadAmm.tokenBurn mint.supply holder.amount amount)
  holder.validate mint.permanentDelegate authority amount
  let debited := holder.debit mint.permanentDelegate authority amount
  pure ((w.put source (.token debited)).put mintKey (.mint { mint with supply }))

/-- `create_token_account`: an account of `mint` for `authority`. One of wrapped SOL starts
with the lamports that are there already. -/
def createTokenAccount (w : World) (authority tokenAccount mintKey : Pubkey) : Run World := do
  let _ ← w.mint mintKey
  let amount := if IsNative mintKey then (w.lamports tokenAccount).toNat else 0
  w.create tokenAccount (.token (.opened mintKey authority amount))

/-- `sync_native` of the older token program. -/
def syncNative (w : World) (key : Pubkey) : Run World := do
  let t ← w.token key
  check (t.mint = nativeMint .token) .nonNativeNotSupported
  check (t.amount ≤ (w.lamports key).toNat) .invalidState
  pure (w.put key (.token { t with amount := (w.lamports key).toNat }))

end World

end NomadAmm
