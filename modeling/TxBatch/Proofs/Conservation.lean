import TxBatch.Proofs.Accounts
import TxBatch.Proofs.Comparison

/-!
# Money is conserved

In front of every position of a sequential run the accounts together hold what they held at first
(`Solvent`). So whatever two balances a transfer finds, they fit into a word together; the target's
balance cannot exceed it, the transfer answers, and what it writes back is worth what it read
(`Solvent.transfer`). The final state is what a reader behind all positions finds, and so it holds
the same accounts and the same total. A batch that is answered ends in the state of the sequential
run (`parallel_sequential`), and so the same is true of it.
-/

namespace TxBatch

namespace Ledger

variable {accounts : UInt32} {initial : UInt64} {overflow : String}

/-! ## One settlement -/

/-- What a settlement moves is taken from one balance and added to the other, as whole numbers. -/
theorem settle?_exact {t : Transfer} {source target : UInt64} {settled : Settlement}
    (h : settle? t source target = some settled) :
    ∃ moved, moved = (if settled.success then t.amount.toNat else 0) ∧
      settled.source.toNat + moved = source.toNat ∧
      settled.target.toNat = target.toNat + moved := by
  refine ⟨_, rfl, ?_⟩
  unfold settle? at h
  split at h
  · rename_i hcovered
    split at h
    · rename_i hfits
      cases h
      have hle := UInt64.le_iff_toNat_le.mp hcovered.2
      simp only [if_true]
      rw [UInt64.toNat_sub_of_le _ _ hcovered.2, UInt64.toNat_add, Nat.mod_eq_of_lt hfits]
      omega
    · cases h
  · cases h
    simp

theorem settle?_isSome (t : Transfer) {source target : UInt64}
    (h : source.toNat + target.toNat < 2 ^ 64) :
    ∃ settled, settle? t source target = some settled := by
  unfold settle?
  split
  · rename_i hcovered
    have hle := UInt64.le_iff_toNat_le.mp hcovered.2
    have hfits : target.toNat + t.amount.toNat < UInt64.size := by
      rw [UInt64.size]
      omega
    exact ⟨_, if_pos hfits⟩
  · exact ⟨_, rfl⟩

theorem settle?_self {t : Transfer} (h : t.source = t.target) (source target : UInt64) :
    settle? t source target = some ⟨false, source, target⟩ := by
  simp [settle?, h]

/-! ## One transfer -/

/-- What a transfer leaves of a store: both balances at its version. -/
def deposit (s : Store UInt64) (t : Transfer) (version : Version) (settled : Settlement) :
    Store UInt64 :=
  (s.write (accountKey t.target) version settled.target).write (accountKey t.source) version
    settled.source

theorem transfer_run {t : Transfer} (hknown : t.source < accounts ∧ t.target < accounts)
    {version : Version} {w : World (Store UInt64)} {settled : Settlement}
    (hsettle : settle? t (balance (w.state.read (accountKey t.source) version.index))
      (balance (w.state.read (accountKey t.target) version.index)) = some settled) :
    (executor accounts overflow t version).run w =
      (.returned ⟨settled.success, settled.source, access t⟩,
        ⟨deposit w.state t version settled, w.cancelled⟩) := by
  simp [executor, transfer, hknown, Program.call, Call.run, World.apply, hsettle, deposit]

/-- Where a position has no cell yet, a transfer writes its two cells and no other. -/
theorem cell?_deposit {s : Store UInt64} (version : Version)
    (hfresh : ∀ key, s.cell? key version.index = none) (t : Transfer) (settled : Settlement)
    (key : Key) (index : Nat) :
    (deposit s t version settled).cell? key index =
      if accountKey t.source = key ∧ version.index = index then
        some ⟨version.incarnation, settled.source⟩
      else if accountKey t.target = key ∧ version.index = index then
        some ⟨version.incarnation, settled.target⟩
      else s.cell? key index := by
  have htarget : ∀ key index,
      (s.write (accountKey t.target) version settled.target).cell? key index =
        if accountKey t.target = key ∧ version.index = index then
          some ⟨version.incarnation, settled.target⟩
        else s.cell? key index :=
    Store.cell?_write fun cell hcell => by rw [hfresh] at hcell; cases hcell
  rw [deposit, Store.cell?_write fun cell hcell => ?_, htarget]
  rw [htarget] at hcell
  split at hcell
  · cases hcell
    exact Nat.le_refl _
  · rw [hfresh] at hcell
    cases hcell

/-! ## The state in front of a position -/

/-- What an account holds for a reader. -/
def holding (s : Store UInt64) (reader id : Nat) : UInt64 :=
  balance (s.read (accountKey id.toUInt32) reader)

/-- The state in front of a position: nothing was written there or behind it, nothing but accounts
was written at all, and together they hold what they held at first. -/
structure Solvent (accounts : UInt32) (initial : UInt64) (s : Store UInt64) (reader : Nat) :
    Prop where
  base : s.base = genesis accounts initial
  below : ∀ {key index cell}, s.cell? key index = some cell →
    index < reader ∧ IsAccount accounts key
  supply : ∑ id ∈ Finset.range accounts.toNat, (holding s reader id).toNat =
    accounts.toNat * initial.toNat

theorem solvent_start (accounts : UInt32) (initial : UInt64) :
    Solvent accounts initial (.ofBase (genesis accounts initial)) 0 := by
  refine ⟨rfl, fun hcell => by simp at hcell, ?_⟩
  have hfirst : ∀ id ∈ Finset.range accounts.toNat,
      (holding (.ofBase (genesis accounts initial)) 0 id).toNat = initial.toNat := by
    intro id hid
    have hgenesis : (genesis accounts initial)[accountKey id.toUInt32]? = some initial :=
      getElem?_genesis ⟨id, Finset.mem_range.mp hid, rfl⟩
    have hread : (Store.ofBase (genesis accounts initial)).read (accountKey id.toUInt32) 0 =
        .base initial := by
      rw [Store.read_of_none fun index hlt => absurd hlt (Nat.not_lt_zero index)]
      simp only [Store.fallback, Store.ofBase, hgenesis]
    rw [holding, hread]
    rfl
  rw [Finset.sum_const_nat hfirst, Finset.card_range]

variable {s : Store UInt64} {reader : Nat} (h : Solvent accounts initial s reader)

include h

theorem Solvent.fresh (key : Key) : s.cell? key reader = none := by
  cases hcell : s.cell? key reader with
  | none => rfl
  | some cell => exact absurd (h.below hcell).1 (Nat.lt_irrefl reader)

theorem Solvent.holding_deposit (t : Transfer) (incarnation : Nat) (settled : Settlement)
    {id : Nat} (hid : id < accounts.toNat) :
    holding (deposit s t ⟨reader, incarnation⟩ settled) (reader + 1) id =
      if t.source.toNat = id then settled.source
      else if t.target.toNat = id then settled.target
      else holding s reader id := by
  have hcell := cell?_deposit ⟨reader, incarnation⟩ h.fresh t settled
  have hkey : ∀ account : UInt32,
      accountKey account = accountKey id.toUInt32 ↔ account.toNat = id := by
    intro account
    rw [accountKey_inj, ← UInt32.toNat_inj, toNat_toUInt32 hid]
  have hown := hcell (accountKey id.toUInt32) reader
  simp only [hkey, and_true, h.fresh] at hown
  unfold holding
  split
  · rename_i hsource
    rw [if_pos hsource] at hown
    rw [Store.read_succ_of_cell hown]
    rfl
  · rename_i hsource
    rw [if_neg hsource] at hown
    split
    · rename_i htarget
      rw [if_pos htarget] at hown
      rw [Store.read_succ_of_cell hown]
      rfl
    · rename_i htarget
      rw [if_neg htarget] at hown
      rw [Store.read_succ_of_none hown]
      refine congrArg balance (Store.read_congr (by simp [deposit]) fun index hlt => ?_)
      simp [hcell, Nat.ne_of_gt hlt]

/-- The accounts of a transfer hold as much for the next position as they did. -/
theorem Solvent.supply_deposit {t : Transfer} (hknown : t.source < accounts ∧ t.target < accounts)
    (incarnation : Nat) {settled : Settlement}
    (hsettle : settle? t (holding s reader t.source.toNat) (holding s reader t.target.toNat) =
      some settled) :
    ∑ id ∈ Finset.range accounts.toNat,
        (holding (deposit s t ⟨reader, incarnation⟩ settled) (reader + 1) id).toNat =
      ∑ id ∈ Finset.range accounts.toNat, (holding s reader id).toNat := by
  have hsource : t.source.toNat < accounts.toNat := UInt32.lt_iff_toNat_lt.mp hknown.1
  have htarget : t.target.toNat < accounts.toNat := UInt32.lt_iff_toNat_lt.mp hknown.2
  by_cases hself : t.source = t.target
  · rw [settle?_self hself] at hsettle
    cases hsettle
    refine Finset.sum_congr rfl fun id hid => ?_
    rw [h.holding_deposit t incarnation _ (Finset.mem_range.mp hid), ← hself]
    split
    · rename_i hsame
      rw [hsame]
    · rfl
  · have hne : t.source.toNat ≠ t.target.toNat := fun heq => hself (UInt32.toNat_inj.mp heq)
    refine sum_exchange hsource htarget hne (fun id hid hns hnt => ?_) ?_
    · rw [h.holding_deposit t incarnation _ hid, if_neg hns.symm, if_neg hnt.symm]
    · rw [h.holding_deposit t incarnation _ hsource, h.holding_deposit t incarnation _ htarget,
        if_pos rfl, if_neg hne, if_pos rfl]
      obtain ⟨moved, -, hsource', htarget'⟩ := settle?_exact hsettle
      omega

/-- Two accounts hold no more than fits into a word, so a transfer between them can be settled. -/
theorem Solvent.exists_settlement (hfits : accounts.toNat * initial.toNat < 2 ^ 64) {t : Transfer}
    (hknown : t.source < accounts ∧ t.target < accounts) :
    ∃ settled, settle? t (holding s reader t.source.toNat) (holding s reader t.target.toNat) =
      some settled := by
  by_cases hself : t.source = t.target
  · exact ⟨_, settle?_self hself _ _⟩
  · have hne : t.source.toNat ≠ t.target.toNat := fun heq => hself (UInt32.toNat_inj.mp heq)
    have hpair := sum_pair (fun id => (holding s reader id).toNat)
      (UInt32.lt_iff_toNat_lt.mp hknown.1) (UInt32.lt_iff_toNat_lt.mp hknown.2) hne
    have hsupply := h.supply
    exact settle?_isSome t (by omega)

theorem Solvent.deposit {t : Transfer} (hknown : t.source < accounts ∧ t.target < accounts)
    (incarnation : Nat) {settled : Settlement}
    (hsettle : settle? t (holding s reader t.source.toNat) (holding s reader t.target.toNat) =
      some settled) :
    Solvent accounts initial (deposit s t ⟨reader, incarnation⟩ settled) (reader + 1) := by
  refine ⟨by simp [Ledger.deposit, h.base], fun {key index cell} hcell => ?_, ?_⟩
  · rw [cell?_deposit _ h.fresh] at hcell
    split at hcell
    · rename_i hwritten
      obtain ⟨rfl, rfl⟩ := hwritten
      exact ⟨Nat.lt_succ_self _, isAccount_accountKey hknown.1⟩
    · split at hcell
      · rename_i hwritten
        obtain ⟨rfl, rfl⟩ := hwritten
        exact ⟨Nat.lt_succ_self _, isAccount_accountKey hknown.2⟩
      · obtain ⟨hlt, haccount⟩ := h.below hcell
        exact ⟨Nat.lt_succ_of_lt hlt, haccount⟩
  · rw [h.supply_deposit hknown incarnation hsettle, h.supply]

theorem Solvent.transfer (hfits : accounts.toNat * initial.toNat < 2 ^ 64) {t : Transfer}
    (hknown : t.source < accounts ∧ t.target < accounts) (incarnation : Nat) :
    ∃ receipt s', (executor accounts overflow t ⟨reader, incarnation⟩).run ⟨s, false⟩ =
        (.returned receipt, ⟨s', false⟩) ∧ Solvent accounts initial s' (reader + 1) := by
  obtain ⟨settled, hsettle⟩ := h.exists_settlement hfits hknown
  have hrun : (executor accounts overflow t ⟨reader, incarnation⟩).run ⟨s, false⟩ =
      (.returned ⟨settled.success, settled.source, access t⟩,
        ⟨Ledger.deposit s t ⟨reader, incarnation⟩ settled, false⟩) :=
    transfer_run hknown (by simpa [holding] using hsettle)
  exact ⟨_, _, hrun, h.deposit hknown incarnation hsettle⟩

/-! ## The final state -/

theorem Solvent.getElem?_snapshot (key : Key) : s.snapshot[key]? = (s.read key reader).value? :=
  Store.getElem?_snapshot (fun hcell => (h.below hcell).1) key

theorem Solvent.getElem?_snapshot_account {id : Nat} (hid : id < accounts.toNat) :
    s.snapshot[accountKey id.toUInt32]? = some (holding s reader id) := by
  have hgenesis : (genesis accounts initial)[accountKey id.toUInt32]? = some initial :=
    getElem?_genesis ⟨id, hid, rfl⟩
  rw [h.getElem?_snapshot, holding]
  rcases Store.read_cases s (accountKey id.toUInt32) reader with
    ⟨index, cell, -, -, -, hread⟩ | ⟨-, hread⟩
  · rw [hread]
    rfl
  · rw [hread, Store.fallback, h.base, hgenesis]
    rfl

theorem Solvent.mem_snapshot {key : Key} : key ∈ s.snapshot ↔ key ∈ genesis accounts initial := by
  rw [mem_genesis]
  constructor
  · intro hmem
    by_contra hforeign
    have hnone : ∀ index, s.cell? key index = none := fun index => by
      cases hcell : s.cell? key index with
      | none => rfl
      | some cell => exact absurd (h.below hcell).2 hforeign
    have hmissing : (genesis accounts initial)[key]? = none :=
      Std.ExtTreeMap.getElem?_eq_none fun hmem => hforeign (mem_genesis.mp hmem)
    rw [Std.ExtTreeMap.mem_iff_isSome_getElem?, h.getElem?_snapshot,
      Store.read_of_none fun index _ => hnone index, Store.fallback, h.base, hmissing] at hmem
    cases hmem
  · rintro ⟨id, hid, rfl⟩
    rw [Std.ExtTreeMap.mem_iff_isSome_getElem?, h.getElem?_snapshot_account hid]
    rfl

/-- The final state holds what the accounts held at first. -/
theorem Solvent.total_snapshot : total s.snapshot = accounts.toNat * initial.toNat := by
  rw [total_eq_sum (fun key hmem => mem_genesis.mp (h.mem_snapshot.mp hmem))
    fun id hid => h.getElem?_snapshot_account hid]
  exact h.supply

end Ledger

namespace Comparison

variable (c : Comparison)

theorem sequentialFrom_solvent
    (hfits : c.accounts.toNat * c.initialBalance.toNat < 2 ^ 64) (rest : List Transfer) :
    ∀ (index : Nat) (s : Store UInt64) (log : List (Event Transfer Receipt)),
      Ledger.Solvent c.accounts c.initialBalance s index →
      (∀ t ∈ rest, t.source < c.accounts ∧ t.target < c.accounts) →
      ∃ rs s' log', c.scheduler.sequentialFrom index ⟨s, false⟩ log rest =
          ⟨.ok rs, ⟨s', false⟩, log'⟩ ∧
        Ledger.Solvent c.accounts c.initialBalance s' (index + rest.length) := by
  induction rest with
  | nil => exact fun index s log h _ => ⟨[], s, log, rfl, h⟩
  | cons t rest ih =>
      intro index s log h hknown
      obtain ⟨receipt, s₁, hrun, hnext⟩ := h.transfer hfits (hknown t List.mem_cons_self) 0
      obtain ⟨log₁, hattempt⟩ := Scheduler.attempt_of_returned (s := c.scheduler) rfl hrun
        counterMax log
      obtain ⟨rs, s', log', hothers, hlast⟩ := ih (index + 1) s₁ log₁ hnext fun u hu =>
        hknown u (List.mem_cons_of_mem _ hu)
      refine ⟨receipt :: rs, s', log', ?_, ?_⟩
      · rw [Scheduler.sequentialFrom, hattempt]
        simp only
        rw [hothers]
        rfl
      · rwa [List.length_cons, ← Nat.add_assoc, Nat.add_right_comm]

theorem sequential_solvent (hvalid : c.config.validate = .ok ())
    (hfits : c.accounts.toNat * c.initialBalance.toNat < 2 ^ 64)
    (hknown : ∀ t ∈ c.transfers, t.source < c.accounts ∧ t.target < c.accounts) :
    (∃ rs, c.sequential.result = .ok rs) ∧
      Ledger.Solvent c.accounts c.initialBalance c.sequential.world.state c.transfers.length := by
  obtain ⟨rs, s', log', hrun, hsolvent⟩ := c.sequentialFrom_solvent hfits c.transfers 0 _ []
    (Ledger.solvent_start _ _) hknown
  have hsequential : c.sequential = ⟨.ok rs, ⟨s', false⟩, log'⟩ := by
    rw [← hrun, sequential, Scheduler.sequential]
    simp only [scheduler, hvalid]
    rfl
  rw [hsequential]
  rw [Nat.zero_add] at hsolvent
  exact ⟨⟨rs, rfl⟩, hsolvent⟩

/-- A state has the accounts and nothing else, and together they hold what they held at first. -/
structure Conserves (w : World (Store UInt64)) : Prop where
  keys : ∀ key, key ∈ balances w ↔ key ∈ Ledger.genesis c.accounts c.initialBalance
  total : Ledger.total (balances w) = c.accounts.toNat * c.initialBalance.toNat

/-- **Money is conserved.** Let the accounts together hold less than 2⁶⁴, and let transfers be
between known accounts. Then the run in sequence answers, and no balance leaves its 64 bits: what a
transfer moves is taken from one account and added to the other, as whole numbers. The final state
has the accounts that there were at first, and they hold together what they held at first. So it is
with every batch that is answered, whatever its workers and its schedule. -/
theorem money_is_conserved (hvalid : c.config.validate = .ok ())
    (hfits : c.accounts.toNat * c.initialBalance.toNat < 2 ^ 64)
    (hknown : ∀ t ∈ c.transfers, t.source < c.accounts ∧ t.target < c.accounts) :
    (∃ rs, c.sequential.result = .ok rs) ∧
      (∀ (t : Transfer) {source target settled},
        Ledger.settle? t source target = some settled →
        ∃ moved, moved = (if settled.success then t.amount.toNat else 0) ∧
          settled.source.toNat + moved = source.toNat ∧
          settled.target.toNat = target.toNat + moved) ∧
      c.Conserves c.sequential.world ∧
      ∀ env rs, (c.parallel env).result = .ok rs → c.Conserves (c.parallel env).batch.world := by
  obtain ⟨hanswers, hsolvent⟩ := c.sequential_solvent hvalid hfits hknown
  have hsequential : c.Conserves c.sequential.world :=
    ⟨fun _ => hsolvent.mem_snapshot, hsolvent.total_snapshot⟩
  refine ⟨hanswers, fun t => Ledger.settle?_exact, hsequential, fun env rs h => ?_⟩
  have hbalances : balances c.sequential.world = balances (c.parallel env).batch.world :=
    (parallel_sequential h).2.symm
  exact ⟨fun key => hbalances ▸ hsequential.keys key, hbalances ▸ hsequential.total⟩

/-- Three accounts that pass more on than each of them holds at first; one transfer is to itself and
one is not covered. -/
def passing : Comparison where
  accounts := 3
  initialBalance := 10
  config := { workers := 2 }
  transfers := [⟨0, 1, 10⟩, ⟨1, 2, 15⟩, ⟨2, 2, 5⟩, ⟨0, 2, 1⟩]
  overflow := ""

/-- In the first round the second transfer reads before the first one writes. -/
def hasty : Environment where
  schedule := fun number => if number = 1 then [.take, .take, .advance 1, .advance 1] else []

theorem passing_is_conserved :
    passing.accounts.toNat * passing.initialBalance.toNat < 2 ^ 64 ∧
      (∀ t ∈ passing.transfers, t.source < passing.accounts ∧ t.target < passing.accounts) ∧
      (∃ rs, passing.sequential.result = .ok rs) ∧
      passing.Conserves passing.sequential.world ∧
      (∃ rs, (passing.parallel hasty).result = .ok rs) ∧
      passing.Conserves (passing.parallel hasty).batch.world := by
  have hfits : passing.accounts.toNat * passing.initialBalance.toNat < 2 ^ 64 := by decide
  have hknown : ∀ t ∈ passing.transfers,
      t.source < passing.accounts ∧ t.target < passing.accounts := by decide
  have hanswered : ∃ rs, (passing.parallel hasty).result = .ok rs := ⟨_, rfl⟩
  obtain ⟨hsequential, -, hconserves, hparallel⟩ := passing.money_is_conserved rfl hfits hknown
  obtain ⟨rs, hresult⟩ := hanswered
  exact ⟨hfits, hknown, hsequential, hconserves, ⟨rs, hresult⟩, hparallel hasty rs hresult⟩

end Comparison

end TxBatch
