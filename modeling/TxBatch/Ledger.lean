import TxBatch.Access
import TxBatch.Program

/-! # Transfers between accounts

A ledger keeps one balance an account under the account's key. A transfer reads both balances at
its position and writes both back, whether it succeeds or not, so the keys that it writes do not
depend on what it reads. A transfer that the sender cannot cover, or to itself, leaves both
balances as they are.
-/

namespace TxBatch

/-- Move `amount` from one account to another. -/
structure Transfer where
  source : UInt32
  target : UInt32
  amount : UInt64
deriving Repr, DecidableEq

structure Receipt where
  success : Bool
  /-- Balance of the source afterwards. -/
  balance : UInt64
  access : Access
deriving DecidableEq

instance : Tracked Receipt := ⟨Receipt.access⟩

namespace Ledger

def accountKey (id : UInt32) : Key := Key.ofText s!"account/{id.toNat}"

/-- The state in which every account holds `balance`. -/
def genesis (accounts : UInt32) (balance : UInt64) : KeyMap UInt64 :=
  Std.ExtTreeMap.ofList
    ((List.range accounts.toNat).map fun id => (accountKey id.toUInt32, balance))

/-- The balance that a read finds; an account without one holds nothing. -/
def balance (found : Reading UInt64) : UInt64 := found.value?.getD 0

/-- Both balances after a transfer, and whether it moved anything. -/
structure Settlement where
  success : Bool
  source : UInt64
  target : UInt64
deriving Repr, DecidableEq

/-- Settle a transfer on two balances, unless the target's would exceed 64 bits. -/
def settle? (t : Transfer) (source target : UInt64) : Option Settlement :=
  if t.source ≠ t.target ∧ t.amount ≤ source then
    if target.toNat + t.amount.toNat < UInt64.size then
      some ⟨true, source - t.amount, target + t.amount⟩
    else none
  else some ⟨false, source, target⟩

/-- What a transfer touches: it reads and writes both accounts. -/
def access (t : Transfer) : Access :=
  ((({} : Access).read (accountKey t.source)).read (accountKey t.target)).write
    (accountKey t.target) |>.write (accountKey t.source)

/-- A transfer in a ledger of `accounts` accounts. An unknown account fails it before it touches
anything, and an overflow breaks it off before it writes anything; `overflow` is what the runtime
says of that. -/
def transfer (accounts : UInt32) (overflow : String) (t : Transfer) : Program UInt64 Receipt :=
  if t.source < accounts ∧ t.target < accounts then
    .read (accountKey t.source) fun source =>
      .read (accountKey t.target) fun target =>
        match settle? t (balance source) (balance target) with
        | none => .finish (.crashed overflow)
        | some settled =>
          .write (accountKey t.target) settled.target <|
            .write (accountKey t.source) settled.source <|
              .finish (.returned ⟨settled.success, settled.source, access t⟩)
  else
    .finish (.failed s!"unknown account in transfer {t.source.toNat} -> {t.target.toNat}")

def executor (accounts : UInt32) (overflow : String) :
    Executor (Store UInt64) Transfer Receipt :=
  fun t version => (transfer accounts overflow t).call version

end Ledger

end TxBatch
