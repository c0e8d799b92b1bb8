import Mathlib.Logic.Function.Iterate
import TxBatch.Proofs.Accounts
import TxBatch.Workload

/-!
# Workloads are well formed

What a transfer is made of are three draws. Nothing is asked of their source but that each draw
stays below the number that it was asked for, which uniform draws do (`Draw.uniform_inRange`). Then
the arithmetic of a transfer is exact: the target that moves on to the next account is told over the
natural numbers, and nothing wraps, however many accounts there are (`Workload.draw_exact`). All
that a workload promises is read off that, transfer by transfer, since it hands one state on from
each transfer to the next.
-/

namespace TxBatch

/-! ## Draws -/

namespace Draw

theorem accept?_lt {span size word value : Nat} (hword : word < span)
    (h : accept? span size word = some value) (hpos : 0 < size) : value < size := by
  unfold accept? at h
  split at h
  · rename_i hall
    obtain rfl := Option.some.inj h
    exact hall ▸ hword
  · split at h
    · obtain rfl := Option.some.inj h
      exact Nat.div_lt_of_lt_mul (Nat.mul_lt_mul_of_pos_right hword hpos)
    · cases h

section Below

variable {size : Nat} (hpos : 0 < size)

include hpos

theorem below32_lt (tries : Nat) (g : Generator) : (below32 size tries g).1 < size := by
  induction tries generalizing g with
  | zero => exact hpos
  | succ tries ih =>
      unfold below32
      split
      rename_i word g' _
      split
      · rename_i value haccept
        exact accept?_lt word.toNat_lt haccept hpos
      · exact ih g'

theorem below64_lt (tries : Nat) (g : Generator) : (below64 size tries g).1 < size := by
  induction tries generalizing g with
  | zero => exact hpos
  | succ tries ih =>
      unfold below64
      split
      rename_i word g' _
      split
      · rename_i value haccept
        exact accept?_lt word.toNat_lt haccept hpos
      · exact ih g'

end Below

/-- Each draw stays below its size. -/
structure Source.InRange {G : Type} (draws : Source G) : Prop where
  below32 : ∀ {size : Nat}, 0 < size → ∀ g, (draws.below32 size g).1 < size
  below64 : ∀ {size : Nat}, 0 < size → ∀ g, (draws.below64 size g).1 < size

theorem uniform_inRange : uniform.InRange where
  below32 := fun hpos g => below32_lt hpos patience g
  below64 := fun hpos g => below64_lt hpos patience g

end Draw

namespace Workload

variable {G : Type}

/-! ## One transfer -/

theorem toNat_next {accounts : UInt32} {id : Nat} (hid : id < accounts.toNat) :
    ((id.toUInt32 + 1) % accounts).toNat = (id + 1) % accounts.toNat := by
  have hroom : id + 1 < 2 ^ 32 := Nat.lt_of_le_of_lt hid accounts.toNat_lt
  rw [UInt32.toNat_mod, UInt32.toNat_add, Ledger.toNat_toUInt32 hid, UInt32.toNat_one,
    Nat.mod_eq_of_lt hroom]

/-- The three numbers that a transfer is made of. -/
structure Drawn where
  source : Nat
  target : Nat
  extra : Nat

def drawn (draws : Draw.Source G) (accounts : UInt32) (maxAmount : UInt64) (g : G) : Drawn :=
  let first := draws.below32 (max accounts.toNat 1) g
  let second := draws.below32 (max accounts.toNat 1) first.2
  ⟨first.1, second.1, (draws.below64 (max maxAmount.toNat 1) second.2).1⟩

/-- The transfer is what the numbers make, reckoned without bounds: nothing in it has wrapped. -/
structure Exact (accounts : UInt32) (maxAmount : UInt64) (d : Drawn) (t : Transfer) : Prop where
  source_lt : d.source < accounts.toNat
  target_lt : d.target < accounts.toNat
  extra_lt : d.extra < max 1 maxAmount.toNat
  /-- The account next to the target has a number, too. -/
  room : d.target + 1 < 2 ^ 32
  source : t.source.toNat = d.source
  target : t.target.toNat =
    if d.target = d.source ∧ 1 < accounts.toNat then (d.target + 1) % accounts.toNat else d.target
  amount : t.amount.toNat = d.extra + 1

theorem draw_exact {draws : Draw.Source G} (hdraws : draws.InRange) {accounts : UInt32}
    (hpos : 1 ≤ accounts.toNat) (maxAmount : UInt64) (g : G) :
    Exact accounts maxAmount (drawn draws accounts maxAmount g)
      (draw draws accounts maxAmount g).1 := by
  have hsource := hdraws.below32 hpos g
  have htarget := hdraws.below32 hpos (draws.below32 accounts.toNat g).2
  have hextra := hdraws.below64 (Nat.le_max_left 1 maxAmount.toNat)
    (draws.below32 accounts.toNat (draws.below32 accounts.toNat g).2).2
  simp only [drawn, draw, Nat.max_eq_left hpos, Nat.max_comm maxAmount.toNat]
  generalize (draws.below32 accounts.toNat g).1 = source at *
  generalize (draws.below32 accounts.toNat (draws.below32 accounts.toNat g).2).1 = target at *
  generalize (draws.below64 _ _).1 = extra at *
  have hroom : target + 1 < 2 ^ 32 := Nat.lt_of_le_of_lt htarget accounts.toNat_lt
  have hsource' := Ledger.toNat_toUInt32 hsource
  have htarget' := Ledger.toNat_toUInt32 htarget
  have hamount : extra + 1 < 2 ^ 64 :=
    Nat.lt_of_le_of_lt hextra (Nat.max_lt.mpr ⟨by decide, maxAmount.toNat_lt⟩)
  have hextra' : extra.toUInt64.toNat = extra :=
    UInt64.toNat_ofNat_of_lt' (show extra < 2 ^ 64 by omega)
  refine ⟨hsource, htarget, hextra, hroom, hsource', ?_, ?_⟩
  · have hsame : target.toUInt32 = source.toUInt32 ↔ target = source := by
      rw [← UInt32.toNat_inj, hsource', htarget']
    have htwo : 1 < accounts ↔ 1 < accounts.toNat := UInt32.lt_iff_toNat_lt
    simp only [hsame, htwo]
    split
    · exact toNat_next htarget
    · exact htarget'
  · rw [UInt64.toNat_add, hextra', UInt64.toNat_one, Nat.mod_eq_of_lt hamount]

structure WellFormed (accounts : UInt32) (maxAmount : UInt64) (t : Transfer) : Prop where
  source_lt : t.source < accounts
  target_lt : t.target < accounts
  distinct : 1 < accounts → t.source ≠ t.target
  amount_pos : 1 ≤ t.amount.toNat
  amount_le : t.amount.toNat ≤ max 1 maxAmount.toNat

theorem Exact.wellFormed {accounts : UInt32} {maxAmount : UInt64} {d : Drawn} {t : Transfer}
    (h : Exact accounts maxAmount d t) : WellFormed accounts maxAmount t where
  source_lt := UInt32.lt_iff_toNat_lt.mpr (h.source ▸ h.source_lt)
  target_lt := by
    rw [UInt32.lt_iff_toNat_lt, h.target]
    split
    · exact Nat.mod_lt _ (Nat.zero_lt_of_lt h.target_lt)
    · exact h.target_lt
  distinct := by
    intro htwo hsame
    have htwo' : 1 < accounts.toNat := UInt32.lt_iff_toNat_lt.mp htwo
    have hsame' : d.source = t.target.toNat := by rw [← h.source, hsame]
    rw [h.target] at hsame'
    split at hsame'
    · rename_i hmoved
      -- The next account is another one, also around the end.
      rcases Nat.lt_or_eq_of_le (Nat.succ_le_of_lt h.target_lt) with hlt | hend
      · rw [Nat.mod_eq_of_lt hlt] at hsame'
        omega
      · rw [show d.target + 1 = accounts.toNat from hend, Nat.mod_self] at hsame'
        omega
    · rename_i hkept
      exact hkept ⟨hsame'.symm, htwo'⟩
  amount_pos := by
    rw [h.amount]
    exact Nat.succ_pos _
  amount_le := by
    rw [h.amount]
    exact h.extra_lt

/-! ## All transfers -/

section Transfers

variable (draws : Draw.Source G) (accounts : UInt32) (maxAmount : UInt64)

/-- The state behind so many transfers. -/
def behind (count : Nat) (g : G) : G :=
  (fun g => (draw draws accounts maxAmount g).2)^[count] g

theorem transfers_succ (count : Nat) (g : G) :
    transfers draws accounts maxAmount (count + 1) g =
      (draw draws accounts maxAmount g).1 ::
        transfers draws accounts maxAmount count (draw draws accounts maxAmount g).2 := by
  rw [transfers]

theorem length_transfers (count : Nat) (g : G) :
    (transfers draws accounts maxAmount count g).length = count := by
  induction count generalizing g with
  | zero => rfl
  | succ count ih => rw [transfers_succ, List.length_cons, ih]

theorem getElem?_transfers {count position : Nat} (hlt : position < count) (g : G) :
    (transfers draws accounts maxAmount count g)[position]? =
      some (draw draws accounts maxAmount (behind draws accounts maxAmount position g)).1 := by
  induction count generalizing position g with
  | zero => cases hlt
  | succ count ih =>
      rw [transfers_succ]
      cases position with
      | zero => rw [behind, Function.iterate_zero_apply, List.getElem?_cons_zero]
      | succ position =>
          rw [behind, Function.iterate_succ_apply, List.getElem?_cons_succ]
          exact ih (Nat.lt_of_succ_lt_succ hlt) _

theorem transfers_prefix {n m : Nat} (hle : n ≤ m) (g : G) :
    transfers draws accounts maxAmount n g <+: transfers draws accounts maxAmount m g := by
  rw [List.prefix_iff_getElem?]
  intro position hlt
  rw [length_transfers] at hlt
  rw [getElem?_transfers _ _ _ (Nat.lt_of_lt_of_le hlt hle), ← getElem?_transfers _ _ _ hlt,
    List.getElem?_eq_getElem]

end Transfers

theorem run_ne_failed {accounts : UInt32} {t : Transfer}
    (h : t.source < accounts ∧ t.target < accounts) (overflow : String) (version : Version)
    (w : World (Store UInt64)) (reason : String) :
    ((Ledger.executor accounts overflow t version).run w).1 ≠ .failed reason := by
  rw [Ledger.executor, Ledger.transfer, if_pos h]
  simp only [Program.call, Call.run]
  split <;> simp [Program.call, Call.run]

/-- What is asked of the workloads of every length whose draws start from `g`. -/
structure Sound (draws : Draw.Source G) (accounts : UInt32) (maxAmount : UInt64) (g : G)
    (workload : Nat → List Transfer) : Prop where
  length : ∀ count, (workload count).length = count
  wellFormed : ∀ count, ∀ t ∈ workload count, WellFormed accounts maxAmount t
  executes : ∀ count, ∀ t ∈ workload count, ∀ overflow version w reason,
    ((Ledger.executor accounts overflow t version).run w).1 ≠ .failed reason
  exact : ∀ count, ∀ position < count, ∃ t, (workload count)[position]? = some t ∧
    Exact accounts maxAmount
      (drawn draws accounts maxAmount (behind draws accounts maxAmount position g)) t
  grows : ∀ n m, n ≤ m → workload n <+: workload m

theorem transfers_sound {draws : Draw.Source G} (hdraws : draws.InRange) {accounts : UInt32}
    (hpos : 1 ≤ accounts) (maxAmount : UInt64) (g : G) :
    Sound draws accounts maxAmount g (transfers draws accounts maxAmount · g) := by
  have hpos' : 1 ≤ accounts.toNat := UInt32.le_iff_toNat_le.mp hpos
  have hlength : ∀ count, (transfers draws accounts maxAmount count g).length = count :=
    fun count => length_transfers draws accounts maxAmount count g
  have hexact : ∀ count, ∀ position < count,
      ∃ t, (transfers draws accounts maxAmount count g)[position]? = some t ∧
        Exact accounts maxAmount
          (drawn draws accounts maxAmount (behind draws accounts maxAmount position g)) t :=
    fun count position hlt =>
      ⟨_, getElem?_transfers draws accounts maxAmount hlt g, draw_exact hdraws hpos' maxAmount _⟩
  have hwell : ∀ count, ∀ t ∈ transfers draws accounts maxAmount count g,
      WellFormed accounts maxAmount t := by
    intro count t hmem
    obtain ⟨position, ht⟩ := List.getElem?_of_mem hmem
    have hlt : position < count := hlength count ▸ (List.getElem?_eq_some_iff.mp ht).1
    obtain ⟨t', ht', ht''⟩ := hexact count position hlt
    obtain rfl := Option.some.inj (ht.symm.trans ht')
    exact ht''.wellFormed
  exact {
    length := hlength
    wellFormed := hwell
    executes := fun count t hmem =>
      run_ne_failed ⟨(hwell count t hmem).source_lt, (hwell count t hmem).target_lt⟩
    exact := hexact
    grows := fun n m hle => transfers_prefix draws accounts maxAmount hle g }

/-- **Workloads are well formed and grow at their end.** Of at least one account, with any limit on
amounts, and from any source of draws that stay in range and depend on its state only: a workload
has as many transfers as were asked for; each of them is between accounts of the ledger, distinct
ones if there are two, moves at least 1 and at most the limit (or 1, if that is zero), and never
fails in a ledger of these accounts; in drawing it no addition wraps, even if no further account
could be numbered; and a workload begins with each shorter one. So it is with the workloads of
every seed. -/
theorem generate_wellFormed {accounts : UInt32} (hpos : 1 ≤ accounts) (maxAmount : UInt64) :
    (∀ {G : Type} {draws : Draw.Source G}, draws.InRange → ∀ g,
      Sound draws accounts maxAmount g (transfers draws accounts maxAmount · g)) ∧
    ∀ seed, Sound Draw.uniform accounts maxAmount (Generator.ofSeed seed)
      (generate · accounts maxAmount seed) :=
  ⟨fun hdraws g => transfers_sound hdraws hpos maxAmount g,
    fun seed => transfers_sound Draw.uniform_inRange hpos maxAmount (Generator.ofSeed seed)⟩

/-- Draws the largest account and the smallest amount every time. -/
def last : Draw.Source Unit := ⟨fun size g => (size - 1, g), fun _ g => (0, g)⟩

/-- Every account number is taken, and no amount is allowed. The last of all accounts, drawn twice,
pays the first. -/
theorem full_ledger_wellFormed :
    (1 : UInt32) ≤ 4294967295 ∧ (generate 3 4294967295 0 7).length = 3 ∧
      generate 2 4294967295 0 7 <+: generate 3 4294967295 0 7 ∧
      (∀ t ∈ generate 3 4294967295 0 7, t.source ≠ t.target ∧ t.amount.toNat = 1) ∧
      last.InRange ∧ transfers last 4294967295 0 1 () = [⟨4294967294, 0, 1⟩] ∧
      WellFormed 4294967295 0 ⟨4294967294, 0, 1⟩ := by
  have hpos : (1 : UInt32) ≤ 4294967295 := by decide
  have hlast : last.InRange := ⟨fun h _ => Nat.sub_one_lt_of_lt h, fun h _ => h⟩
  have hpays : transfers last 4294967295 0 1 () = [⟨4294967294, 0, 1⟩] := by decide
  obtain ⟨hany, hseeded⟩ := generate_wellFormed hpos 0
  have hseven := hseeded 7
  refine ⟨hpos, hseven.length 3, hseven.grows 2 3 (by decide), fun t hmem => ?_, hlast, hpays,
    (hany hlast ()).wellFormed 1 _ (by rw [hpays]; exact List.mem_singleton_self _)⟩
  have ht := hseven.wellFormed 3 t hmem
  exact ⟨ht.distinct (by decide), Nat.le_antisymm ht.amount_le ht.amount_pos⟩

end Workload

end TxBatch
