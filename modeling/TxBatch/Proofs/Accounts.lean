import Std.Data.String.ToNat
import Mathlib.Algebra.BigOperators.Group.Finset.Basic
import Mathlib.Data.List.Nodup
import Mathlib.Tactic.Ring
import TxBatch.Comparison
import TxBatch.Proofs.Cells

/-!
# The accounts of a ledger

An account is found under its key, and no two accounts share one (`accountKey_inj`). So the fresh
ledger gives every account the same balance (`getElem?_genesis`) and holds nothing else
(`mem_genesis`), and whoever adds up the balances of a state adds up those of the accounts
(`total_eq_sum`).
-/

namespace TxBatch

namespace Key

theorem ofText_inj {text text' : String} : ofText text = ofText text' ↔ text = text' := by
  refine ⟨fun h => ?_, congrArg ofText⟩
  have hbytes : text.toUTF8.data.toList = text'.toUTF8.data.toList := congrArg bytes h
  have hdata : text.toUTF8 = text'.toUTF8 := ByteArray.ext (Array.toList_inj.mp hbytes)
  rwa [String.toUTF8_eq_toByteArray, String.toUTF8_eq_toByteArray, String.toByteArray_inj] at hdata

end Key

namespace Ledger

variable {accounts : UInt32}

theorem accountKey_inj {id id' : UInt32} : accountKey id = accountKey id' ↔ id = id' := by
  refine ⟨fun h => ?_, congrArg accountKey⟩
  have htext : "account/" ++ id.toNat.repr = "account/" ++ id'.toNat.repr := Key.ofText_inj.mp h
  exact UInt32.toNat_inj.mp (Nat.repr_inj.mp ((String.append_right_inj _).mp htext))

/-- The accounts are the numbers below their count. -/
theorem toNat_toUInt32 {id : Nat} (h : id < accounts.toNat) : id.toUInt32.toNat = id :=
  UInt32.toNat_ofNat_of_lt' (Nat.lt_trans h accounts.toNat_lt)

theorem accountKey_toUInt32_inj {id id' : Nat} (h : id < accounts.toNat)
    (h' : id' < accounts.toNat) :
    accountKey id.toUInt32 = accountKey id'.toUInt32 ↔ id = id' := by
  rw [accountKey_inj, ← UInt32.toNat_inj, toNat_toUInt32 h, toNat_toUInt32 h']

def IsAccount (accounts : UInt32) (key : Key) : Prop :=
  ∃ id < accounts.toNat, key = accountKey id.toUInt32

theorem isAccount_accountKey {id : UInt32} (h : id < accounts) :
    IsAccount accounts (accountKey id) :=
  ⟨id.toNat, UInt32.lt_iff_toNat_lt.mp h, (congrArg accountKey UInt32.ofNat_toNat).symm⟩

/-! ## The fresh ledger -/

theorem mem_genesis {balance : UInt64} {key : Key} :
    key ∈ genesis accounts balance ↔ IsAccount accounts key := by
  simp [genesis, IsAccount, eq_comm (a := key), Std.ExtTreeMap.mem_ofList]

theorem getElem?_genesis {balance : UInt64} {key : Key} (h : IsAccount accounts key) :
    (genesis accounts balance)[key]? = some balance := by
  obtain ⟨id, hlt, rfl⟩ := h
  refine Std.ExtTreeMap.getElem?_ofList_of_mem Std.ReflCmp.compare_self ?_
    (List.mem_map.mpr ⟨id, List.mem_range.mpr hlt, rfl⟩)
  refine List.pairwise_map.mpr (List.pairwise_lt_range.imp_of_mem fun hmem hmem' hlt hsame => ?_)
  have heq := (accountKey_toUInt32_inj (List.mem_range.mp hmem) (List.mem_range.mp hmem')).mp
    (Std.LawfulEqOrd.eq_of_compare hsame)
  exact Nat.ne_of_lt hlt heq

/-! ## Adding up -/

def total (balances : KeyMap UInt64) : Nat :=
  (balances.toList.map fun entry => entry.2.toNat).sum

/-- In a state that has the accounts and nothing else it is their balances that add up. -/
theorem total_eq_sum {balances : KeyMap UInt64} {holding : Nat → UInt64}
    (hkeys : ∀ key, key ∈ balances → IsAccount accounts key)
    (hholding : ∀ id < accounts.toNat, balances[accountKey id.toUInt32]? = some (holding id)) :
    total balances = ∑ id ∈ Finset.range accounts.toNat, (holding id).toNat := by
  have hentries : balances.toList.Perm
      ((List.range accounts.toNat).map fun id => (accountKey id.toUInt32, holding id)) := by
    refine (List.perm_ext_iff_of_nodup ?_ ?_).mpr fun ⟨key, value⟩ => ?_
    · refine Std.ExtTreeMap.distinct_keys_toList.imp fun {entry entry'} hne heq => hne ?_
      rw [heq]
      exact Std.ReflCmp.compare_self
    · refine List.nodup_range.map_on fun id hid id' hid' heq => ?_
      exact (accountKey_toUInt32_inj (List.mem_range.mp hid) (List.mem_range.mp hid')).mp
        (congrArg Prod.fst heq)
    · rw [Std.ExtTreeMap.mem_toList_iff_getElem?_eq_some, List.mem_map]
      constructor
      · intro hvalue
        obtain ⟨id, hlt, rfl⟩ := hkeys key (Std.ExtTreeMap.mem_iff_isSome_getElem?.mpr
          (by rw [hvalue]; rfl))
        rw [hholding id hlt] at hvalue
        exact ⟨id, List.mem_range.mpr hlt, by rw [Option.some.inj hvalue]⟩
      · rintro ⟨id, hid, heq⟩
        obtain ⟨rfl, rfl⟩ := Prod.mk.inj heq
        exact hholding id (List.mem_range.mp hid)
  rw [total, (hentries.map _).sum_eq, List.map_map]
  rfl

theorem sum_pair (f : Nat → Nat) {count a b : Nat} (ha : a < count) (hb : b < count)
    (hne : a ≠ b) :
    f a + f b + ∑ id ∈ ((Finset.range count).erase a).erase b, f id =
      ∑ id ∈ Finset.range count, f id := by
  have hmem : b ∈ (Finset.range count).erase a :=
    Finset.mem_erase.mpr ⟨hne.symm, Finset.mem_range.mpr hb⟩
  rw [← Finset.add_sum_erase _ f (Finset.mem_range.mpr ha), ← Finset.add_sum_erase _ f hmem]
  ring

/-- What two of the summands give to each other leaves the sum as it is. -/
theorem sum_exchange {f g : Nat → Nat} {count a b : Nat} (ha : a < count) (hb : b < count)
    (hne : a ≠ b) (hothers : ∀ id < count, id ≠ a → id ≠ b → g id = f id)
    (hpair : g a + g b = f a + f b) :
    ∑ id ∈ Finset.range count, g id = ∑ id ∈ Finset.range count, f id := by
  have hrest : ∑ id ∈ ((Finset.range count).erase a).erase b, g id =
      ∑ id ∈ ((Finset.range count).erase a).erase b, f id := by
    refine Finset.sum_congr rfl fun id hid => ?_
    obtain ⟨hb', hid⟩ := Finset.mem_erase.mp hid
    obtain ⟨ha', hid⟩ := Finset.mem_erase.mp hid
    exact hothers id (Finset.mem_range.mp hid) ha' hb'
  rw [← sum_pair f ha hb hne, ← sum_pair g ha hb hne, hpair, hrest]

end Ledger

end TxBatch
