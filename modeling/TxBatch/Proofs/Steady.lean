import TxBatch.Ledger
import TxBatch.Proofs.FinalReads
import TxBatch.Proofs.Serial

/-!
# Steady programs

The conditions under which the attempts of a batch may run in any order (`Program.Steady`), and the
programs that the ledger runs: a transfer has three ways through it (`Ledger.transfer_path`), and
meets them all (`Ledger.transfer_steady`).
-/

namespace TxBatch

variable {V Req R : Type}

namespace Journal

def Writes (key : Key) (entries : List (Entry V)) : Prop := ∃ value, .write key value ∈ entries

end Journal

namespace Program

/-- What a program must keep to, whatever it finds: it does not clear, it answers with the keys that
it touched, it goes on by the values that it reads, and its attempts that return write all the same
keys, its aborted ones no others. -/
structure Steady [Tracked R] (program : Program V R) : Prop where
  unclearing : ∀ {entries result}, program.Path entries result → .clear ∉ entries
  records : program.Records
  onlyValues : program.OnlyValues
  writes : ∀ {entries result entries' response}, program.Path entries result →
    result.outcome?.isSome → program.Path entries' (.returned response) →
    ∀ {key}, Journal.Writes key entries → Journal.Writes key entries'

/-- Programs that are told their position, but not how often they were attempted. -/
def placed (body : Req → Nat → Program V R) : Req → Version → Program V R :=
  fun request version => body request version.index

end Program

namespace Ledger

/-! ## Transfers -/

/-- How a call of a transfer went: what it did, and how it ended. -/
inductive Transferred (accounts : UInt32) (t : Transfer) :
    List (Journal.Entry UInt64) → CallEnd Receipt → Prop
  | unknown {reason : String} (h : ¬ (t.source < accounts ∧ t.target < accounts)) :
      Transferred accounts t [] (.failed reason)
  | overflow {source target : Reading UInt64} {report : String}
      (h : settle? t (balance source) (balance target) = none) :
      Transferred accounts t
        [.read (accountKey t.source) source, .read (accountKey t.target) target] (.crashed report)
  | settled {source target : Reading UInt64} {settled : Settlement}
      (h : settle? t (balance source) (balance target) = some settled) :
      Transferred accounts t
        [.read (accountKey t.source) source, .read (accountKey t.target) target,
          .write (accountKey t.target) settled.target, .write (accountKey t.source) settled.source]
        (.returned ⟨settled.success, settled.source, access t⟩)

theorem transfer_path {accounts : UInt32} {overflow : String} {t : Transfer}
    {entries : List (Journal.Entry UInt64)} {result : CallEnd Receipt}
    (h : (transfer accounts overflow t).Path entries result) :
    Transferred accounts t entries result := by
  unfold transfer at h
  split at h
  · cases h with
    | read source h =>
        cases h with
        | read target h =>
            cases hsettle : settle? t (balance source) (balance target) with
            | none =>
                simp only [hsettle] at h
                cases h
                exact .overflow hsettle
            | some settled =>
                simp only [hsettle] at h
                cases h with
                | write h =>
                    cases h with
                    | write h =>
                        cases h
                        exact .settled hsettle
  · rename_i hunknown
    cases h
    exact .unknown hunknown

theorem mem_reads_access {t : Transfer} {key : Key} :
    key ∈ (access t).reads ↔ key = accountKey t.source ∨ key = accountKey t.target := by
  simp [access, Access.read, Access.write, eq_comm (a := key), or_comm]

theorem mem_writes_access {t : Transfer} {key : Key} :
    key ∈ (access t).writes ↔ key = accountKey t.source ∨ key = accountKey t.target := by
  simp [access, Access.read, Access.write, eq_comm (a := key)]

theorem Transferred.touched {accounts : UInt32} {t : Transfer}
    {entries : List (Journal.Entry UInt64)} {receipt : Receipt}
    (h : Transferred accounts t entries (.returned receipt)) :
    receipt.access = access t ∧
      (∀ {key}, (∃ found, .read key found ∈ entries) ↔ key ∈ (access t).reads) ∧
      ∀ {key}, Journal.Writes key entries ↔ key ∈ (access t).writes := by
  cases h with
  | settled h =>
      refine ⟨rfl, fun {key} => ?_, fun {key} => ?_⟩
      · rw [mem_reads_access]
        simp [exists_or]
      · rw [mem_writes_access]
        simp [Journal.Writes, exists_or, or_comm]

theorem transfer_records (accounts : UInt32) (overflow : String) (t : Transfer) :
    (transfer accounts overflow t).Records := by
  intro entries receipt hpath
  obtain ⟨haccess, hreads, hwrites⟩ := (transfer_path hpath).touched
  have htracked : Tracked.access receipt = access t := haccess
  rw [htracked]
  exact ⟨fun {key found} hmem => hreads.mp ⟨found, hmem⟩,
    fun {key value} hmem => hwrites.mp ⟨value, hmem⟩⟩

theorem transfer_onlyValues (accounts : UInt32) (overflow : String) (t : Transfer) :
    (transfer accounts overflow t).OnlyValues := by
  unfold transfer
  split
  · have hbalance : ∀ {found found' : Reading UInt64}, found.value? = found'.value? →
        balance found = balance found' := fun h => by rw [balance, balance, h]
    refine ⟨fun found found' h => by simp only [hbalance h], fun source =>
      ⟨fun found found' h => by simp only [hbalance h], fun target => ?_⟩⟩
    dsimp only
    split <;> trivial
  · trivial

theorem transfer_steady (accounts : UInt32) (overflow : String) (t : Transfer) :
    (transfer accounts overflow t).Steady where
  unclearing := fun hpath hmem => by
    cases transfer_path hpath <;> simp at hmem
  records := transfer_records accounts overflow t
  onlyValues := transfer_onlyValues accounts overflow t
  writes := fun hpath hout hpath' key hwrites => by
    obtain ⟨-, -, hkeys'⟩ := (transfer_path hpath').touched
    cases transfer_path hpath with
    | unknown h => cases hout
    | overflow h => cases hout
    | settled h => exact hkeys'.mpr ((transfer_path hpath).touched.2.2.mp hwrites)

end Ledger

end TxBatch
