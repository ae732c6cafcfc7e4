import StakePool.Codec.Layout
import StakePool.Text.Json

/-!
# Token accounts

A `TokenAccount` holds an amount of one token for an owner; the vaults of a pool are token accounts.
`TokenAccount.layout` fills 165 bytes.
-/

namespace StakePool

inductive AccountState
  | uninitialized
  | initialized
  | frozen
deriving DecidableEq, Repr, Inhabited

namespace AccountState

def all : List AccountState := [uninitialized, initialized, frozen]

def toByte : AccountState → UInt8
  | uninitialized => 0
  | initialized => 1
  | frozen => 2

def code : ByteCode AccountState :=
  .ofList all toByte (by intro a; cases a <;> decide) (by intro a b; cases a <;> cases b <;> decide)

def name : AccountState → String
  | uninitialized => "Uninitialized"
  | initialized => "Initialized"
  | frozen => "Frozen"

end AccountState

structure TokenAccount where
  mint : Pubkey
  owner : Pubkey
  amount : UInt64
  delegate : Option Pubkey
  state : AccountState
  /-- The reserve of an account that wraps the native token. -/
  nativeReserve : Option UInt64
  delegatedAmount : UInt64
  closeAuthority : Option Pubkey
deriving DecidableEq, Inhabited

namespace TokenAccount

def isInitialized (t : TokenAccount) : Bool := t.state != .uninitialized

def isFrozen (t : TokenAccount) : Bool := t.state == .frozen

def fields : Bijection
    (Pubkey × Pubkey × UInt64 × Option Pubkey × AccountState × Option UInt64 × UInt64 × Option Pubkey)
    TokenAccount where
  forth := fun (mint, owner, amount, delegate, state, nativeReserve, delegatedAmount, closeAuthority) =>
    { mint, owner, amount, delegate, state, nativeReserve, delegatedAmount, closeAuthority }
  back t := (t.mint, t.owner, t.amount, t.delegate, t.state, t.nativeReserve, t.delegatedAmount, t.closeAuthority)
  back_forth _ := rfl
  forth_back _ := rfl

def layout : Layout TokenAccount :=
  .via fields <| .pair .pubkey <| .pair .pubkey <| .pair .u64 <| .pair (.wideOption .pubkey)
    <| .pair (.code "state" AccountState.code) <| .pair (.wideOption .u64) <| .pair .u64 (.wideOption .pubkey)

theorem size_layout : layout.size = 165 := rfl

def toJson (t : TokenAccount) : Json := .object [
  ("mint", .ofPubkey t.mint),
  ("owner", .ofPubkey t.owner),
  ("amount", .ofWord64 t.amount),
  ("delegate", .ofOption .ofPubkey t.delegate),
  ("state", .text t.state.name),
  ("is_native", .ofOption .ofWord64 t.nativeReserve),
  ("delegated_amount", .ofWord64 t.delegatedAmount),
  ("close_authority", .ofOption .ofPubkey t.closeAuthority)]

end TokenAccount

end StakePool
