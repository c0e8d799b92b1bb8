import TxBatch.Proofs.Conservation
import TxBatch.Proofs.Kept

/-!
# Speculative transfers

In sequence no balance leaves its 64 bits (`money_is_conserved`). In a batch a transfer may find one
balance as a transfer in front of it left it that ran too early, and the other as one left it that
ran in time. These need not stand side by side in any single state, so their sum is bounded by
nothing that the accounts hold together, and crediting the target may overflow
(`brimming_overflows`).

That is all that can go wrong. A transfer of known accounts answers or overflows, whatever it finds
(`transfer_ends`). If none overflows, the batch is answered as the run in sequence is, and if one
does, it fails of it. And none does if no account could be credited too much by the transfers whose
sources might cover them, on the way of the batch from its front to its end (`most`): no transfer
ever finds more than that (`Bounded.balance_le`), and none writes more (`transfer_keeps_bounded`).
-/

namespace TxBatch

namespace Ledger

variable {accounts : UInt32} {initial : UInt64} {overflow : String} {transfers : List Transfer}

/-! ## The most that an account can hold -/

/-- The most that each account can hold behind a transfer, given the most in front of it. -/
def credit (most : UInt32 → Nat) (t : Transfer) : UInt32 → Nat :=
  if t.source ≠ t.target ∧ t.amount.toNat ≤ most t.source then
    Function.update most t.target (most t.target + t.amount.toNat)
  else most

/-- The most that each account can hold behind these transfers: credits are counted if the source
might cover them, debits are not. -/
def most (initial : UInt64) (transfers : List Transfer) : UInt32 → Nat :=
  transfers.foldl credit fun _ => initial.toNat

theorem le_credit (most : UInt32 → Nat) (t : Transfer) (id : UInt32) :
    most id ≤ credit most t id := by
  unfold credit
  split
  · by_cases hid : id = t.target
    · subst hid
      simp
    · rw [Function.update_of_ne hid]
  · exact Nat.le_refl _

theorem le_foldl_credit (transfers : List Transfer) (id : UInt32) :
    ∀ most : UInt32 → Nat, most id ≤ transfers.foldl credit most id := by
  induction transfers with
  | nil => exact fun most => Nat.le_refl _
  | cons t rest ih => exact fun most => Nat.le_trans (le_credit most t id) (ih _)

/-- Further transfers only raise it. -/
theorem most_take_le {m n : Nat} (h : m ≤ n) (id : UInt32) :
    most initial (transfers.take m) id ≤ most initial (transfers.take n) id := by
  obtain ⟨rest, hrest⟩ := List.take_prefix_take_left h (l := transfers)
  rw [← hrest, most, most, List.foldl_append]
  exact le_foldl_credit rest id _

theorem most_take_le_all (n : Nat) (id : UInt32) :
    most initial (transfers.take n) id ≤ most initial transfers id := by
  have h : most initial (transfers.take n) id ≤
      most initial (transfers.take (max n transfers.length)) id :=
    most_take_le (Nat.le_max_left ..) id
  rwa [List.take_of_length_le (Nat.le_max_right ..)] at h

theorem most_take_succ {slot : Nat} {t : Transfer} (ht : transfers[slot]? = some t) :
    most initial (transfers.take (slot + 1)) = credit (most initial (transfers.take slot)) t := by
  rw [most, List.take_add_one, ht, List.foldl_append]
  rfl

/-! ## What a transfer finds and writes -/

/-- No account was ever written more than it can hold behind that position. -/
structure Bounded (accounts : UInt32) (initial : UInt64) (transfers : List Transfer)
    (s : Store UInt64) : Prop where
  base : s.base = genesis accounts initial
  cell : ∀ {id index cell}, s.cell? (accountKey id) index = some cell →
    cell.value.toNat ≤ most initial (transfers.take (index + 1)) id

theorem bounded_start (accounts : UInt32) (initial : UInt64) (transfers : List Transfer) :
    Bounded accounts initial transfers (.ofBase (genesis accounts initial)) :=
  ⟨rfl, fun hcell => by simp at hcell⟩

namespace Bounded

variable {s : Store UInt64} (h : Bounded accounts initial transfers s)

include h

theorem balance_le {id : UInt32} (hid : id < accounts) (reader : Nat) :
    (balance (s.read (accountKey id) reader)).toNat ≤ most initial (transfers.take reader) id := by
  rcases Store.read_cases s (accountKey id) reader with
    ⟨index, cell, hcell, hlt, -, hread⟩ | ⟨-, hread⟩
  · rw [hread]
    exact Nat.le_trans (h.cell hcell) (most_take_le hlt id)
  · have hinitial : s.base[accountKey id]? = some initial := by
      rw [h.base]
      exact getElem?_genesis (isAccount_accountKey hid)
    rw [hread, Store.fallback, hinitial]
    exact le_foldl_credit (transfers.take reader) id fun _ => initial.toNat

theorem write {id : UInt32} {version : Version} {value : UInt64}
    (hvalue : value.toNat ≤ most initial (transfers.take (version.index + 1)) id) :
    Bounded accounts initial transfers (s.write (accountKey id) version value) := by
  refine ⟨by simp [h.base], fun {other index cell} hcell => ?_⟩
  rcases Store.cell?_write_cases s (accountKey id) version value (accountKey other) index with
    hsame | ⟨hkey, rfl, hwritten⟩
  · exact h.cell (hsame ▸ hcell)
  · obtain rfl := accountKey_inj.mp hkey
    cases hwritten.symm.trans hcell
    exact hvalue

end Bounded

/-- Where no account can be credited beyond 64 bits, balances within what the accounts can hold are
settled within it. -/
theorem settle?_bounded {slot : Nat} {t : Transfer} (ht : transfers[slot]? = some t)
    (hroom : most initial transfers t.target < 2 ^ 64) {source target : UInt64}
    (hsource : source.toNat ≤ most initial (transfers.take slot) t.source)
    (htarget : target.toNat ≤ most initial (transfers.take slot) t.target) :
    ∃ settled, settle? t source target = some settled ∧
      settled.source.toNat ≤ most initial (transfers.take (slot + 1)) t.source ∧
      settled.target.toNat ≤ most initial (transfers.take (slot + 1)) t.target := by
  have hsource' : source.toNat ≤ most initial (transfers.take (slot + 1)) t.source :=
    Nat.le_trans hsource (most_take_le (Nat.le_succ slot) _)
  have htarget' : target.toNat ≤ most initial (transfers.take (slot + 1)) t.target :=
    Nat.le_trans htarget (most_take_le (Nat.le_succ slot) _)
  by_cases hcovered : t.source ≠ t.target ∧ t.amount ≤ source
  · have hamount : t.amount.toNat ≤ most initial (transfers.take slot) t.source :=
      Nat.le_trans (UInt64.le_iff_toNat_le.mp hcovered.2) hsource
    have hcredit : most initial (transfers.take (slot + 1)) t.target =
        most initial (transfers.take slot) t.target + t.amount.toNat := by
      rw [most_take_succ ht, credit, if_pos ⟨hcovered.1, hamount⟩, Function.update_self]
    have hfits : target.toNat + t.amount.toNat < UInt64.size := by
      have hle : most initial (transfers.take (slot + 1)) t.target ≤ most initial transfers t.target :=
        most_take_le_all (slot + 1) t.target
      rw [UInt64.size]
      omega
    have hsettle : settle? t source target = some ⟨true, source - t.amount, target + t.amount⟩ := by
      rw [settle?, if_pos hcovered, if_pos hfits]
    obtain ⟨moved, hmoved, hleft, hcredited⟩ := settle?_exact hsettle
    refine ⟨_, hsettle, by omega, ?_⟩
    rw [hcredited, hcredit, hmoved]
    exact Nat.add_le_add_right htarget _
  · exact ⟨_, if_neg hcovered, hsource', htarget'⟩

/-- Where no account can be credited beyond 64 bits, a transfer answers as long as no balance
exceeds what its account can hold, and leaves them so. -/
theorem transfer_keeps_bounded {slot : Nat} {t : Transfer} (ht : transfers[slot]? = some t)
    (hknown : t.source < accounts ∧ t.target < accounts)
    (hroom : most initial transfers t.target < 2 ^ 64) (incarnation : Nat) :
    (executor accounts overflow t ⟨slot, incarnation⟩).Keeps (Bounded accounts initial transfers)
      fun result => ∃ receipt, result = .returned receipt := by
  rw [executor, transfer, if_pos hknown]
  refine .step (fun _ _ h => ⟨h, rfl⟩) fun w _ hw =>
    .step (fun _ _ h => ⟨h, rfl⟩) fun w' _ hw' => ?_
  obtain ⟨settled, hsettle, hsource, htarget⟩ :=
    settle?_bounded ht hroom (hw.balance_le hknown.1 slot) (hw'.balance_le hknown.2 slot)
  simp only [hsettle]
  exact .step (fun _ _ h => ⟨h.write htarget, rfl⟩) fun _ _ _ =>
    .step (fun _ _ h => ⟨h.write hsource, rfl⟩) fun _ _ _ => .finish ⟨_, rfl⟩

/-- How a transfer of known accounts may end. -/
inductive Ended (overflow : String) : CallEnd Receipt → Prop
  | answered (receipt : Receipt) : Ended overflow (.returned receipt)
  | overflowed : Ended overflow (.crashed overflow)

theorem transfer_ends {t : Transfer} (hknown : t.source < accounts ∧ t.target < accounts)
    (version : Version) : (executor accounts overflow t version).Ends (Ended overflow) := by
  rw [executor, transfer, if_pos hknown]
  refine .step (fun _ _ => rfl) fun w _ => .step (fun _ _ => rfl) fun w' _ => ?_
  dsimp only
  cases settle? t (balance (w.state.read (accountKey t.source) version.index))
      (balance (w'.state.read (accountKey t.target) version.index)) with
  | none => exact .finish .overflowed
  | some settled =>
      exact .step (fun _ _ => rfl) fun _ _ =>
        .step (fun _ _ => rfl) fun _ _ => .finish (.answered _)

end Ledger

/-! ## The two runs -/

namespace Comparison

variable (c : Comparison)

section Known

variable (hknown : ∀ t ∈ c.transfers, t.source < c.accounts ∧ t.target < c.accounts)

include hknown

theorem calls_end {slot : Nat} {t : Transfer} (ht : c.transfers[slot]? = some t)
    (incarnation : Nat) :
    (c.scheduler.executor t ⟨slot, incarnation⟩).Keeps (fun _ => True) (Ledger.Ended c.overflow) :=
  (Ledger.transfer_ends (hknown t (List.mem_of_getElem? ht)) _).keeps

theorem parallel_ends (env : Environment) {job : Job Transfer} {result : CallEnd Receipt}
    (hmem : .ended job result ∈ (c.parallel env).batch.log.flatten) :
    Ledger.Ended c.overflow result :=
  (Scheduler.process_kept (s := c.scheduler) (I := fun _ => True)
    (P := fun _ _ => Ledger.Ended c.overflow) (c.calls_end hknown) Validator.judges_readWrite
    trivial env {}).ended hmem

theorem parallel_crashes {env : Environment} {job : Job Transfer} {report : String}
    (hmem : .ended job (.crashed report) ∈ (c.parallel env).batch.log.flatten) :
    (c.parallel env).result = .error (.failed (.workerCrashed c.overflow)) := by
  obtain ⟨error, hresult, job', result, hmem', herror⟩ :=
    Scheduler.process_blames (s := c.scheduler) (I := fun _ => True)
      (P := fun _ _ => Ledger.Ended c.overflow) (c.calls_end hknown) trivial
      Validator.judges_readWrite hmem rfl
  cases c.parallel_ends hknown env hmem' with
  | answered receipt => cases herror
  | overflowed =>
      cases herror
      exact hresult

theorem parallel_answers
    (hceiling : ∀ limit, c.config.maxIncarnations = some limit →
      max 1 (c.transfers.length - 1) ≤ limit.toNat) {env : Environment}
    (huninterrupted : ∀ round, env.interrupts round = false)
    (hnone : ∀ job report, .ended job (.crashed report) ∉ (c.parallel env).batch.log.flatten) :
    (∃ rs, (c.parallel env).result = .ok rs ∧ c.sequential.result = .ok rs ∧
      balances (c.parallel env).batch.world = balances c.sequential.world) ∨
    counterMax < c.transfers.length ∧ (c.parallel env).result = .error .crashed := by
  have hreturned : ∀ {job result},
      .ended job result ∈ (c.parallel env).batch.log.flatten →
        ∃ receipt, result = .returned receipt := by
    intro job result hmem
    cases c.parallel_ends hknown env hmem with
    | answered receipt => exact ⟨receipt, rfl⟩
    | overflowed => exact absurd hmem (hnone job _)
  have hanswers : (∃ rs, (c.parallel env).result = .ok rs) ∨
      counterMax < c.transfers.length ∧ (c.parallel env).result = .error .crashed :=
    Scheduler.process_answers (s := c.scheduler) (I := fun _ => True)
      (P := fun _ _ => Ledger.Ended c.overflow) (c.calls_end hknown) trivial huninterrupted rfl rfl
      hceiling hreturned
  refine hanswers.imp_left fun ⟨rs, hresult⟩ => ?_
  obtain ⟨hsequential, hbalances⟩ := parallel_sequential hresult
  exact ⟨rs, hresult, hsequential, hbalances⟩

theorem parallel_in_room
    (hroom : ∀ t ∈ c.transfers, Ledger.most c.initialBalance c.transfers t.target < 2 ^ 64)
    (env : Environment) (job : Job Transfer) (report : String) :
    .ended job (.crashed report) ∉ (c.parallel env).batch.log.flatten := by
  intro hmem
  have hkept : Kept (Ledger.Bounded c.accounts c.initialBalance c.transfers)
      (fun _ _ result => ∃ receipt, result = .returned receipt) (c.parallel env).batch :=
    Scheduler.process_kept (s := c.scheduler) (fun {slot t} ht incarnation =>
        have hmem := List.mem_of_getElem? ht
        Ledger.transfer_keeps_bounded ht (hknown t hmem) (hroom t hmem) incarnation)
      Validator.judges_readWrite (Ledger.bounded_start _ _ _) env {}
  obtain ⟨receipt, hreturned⟩ := hkept.ended hmem
  cases hreturned

end Known

/-- **Only speculation overflows.** Let the accounts together hold less than 2⁶⁴, let transfers be
between known accounts, and let the ceiling, if there is one, leave room for one retry and for one
less than there are transfers. Then the run in sequence answers. So does the run as a batch, with
the same receipts and the same balances, if nobody cancels it and none of its calls overflows,
unless the round counter is full; if one does, the batch fails of it. And none does, in whatever
order they run, if no account can be credited beyond 64 bits by transfers that their sources might
cover. -/
theorem answers_unless_overflow
    (hceiling : ∀ limit, c.config.maxIncarnations = some limit →
      max 1 (c.transfers.length - 1) ≤ limit.toNat)
    (hfits : c.accounts.toNat * c.initialBalance.toNat < 2 ^ 64)
    (hknown : ∀ t ∈ c.transfers, t.source < c.accounts ∧ t.target < c.accounts) :
    (∃ rs, c.sequential.result = .ok rs) ∧
    ∀ env : Environment,
      let ended := c.parallel env
      (∀ job report, .ended job (.crashed report) ∈ ended.batch.log.flatten →
        ended.result = .error (.failed (.workerCrashed c.overflow))) ∧
      ((∀ round, env.interrupts round = false) →
        (∀ job report, .ended job (.crashed report) ∉ ended.batch.log.flatten) →
        (∃ rs, ended.result = .ok rs ∧ c.sequential.result = .ok rs ∧
          balances ended.batch.world = balances c.sequential.world) ∨
        counterMax < c.transfers.length ∧ ended.result = .error .crashed) ∧
      ((∀ t ∈ c.transfers, Ledger.most c.initialBalance c.transfers t.target < 2 ^ 64) →
        ∀ job report, .ended job (.crashed report) ∉ ended.batch.log.flatten) := by
  have hvalid := Scheduler.validate_of_ceiling hceiling
  refine ⟨(c.sequential_solvent hvalid hfits hknown).1, fun env => ⟨fun job report => ?_, ?_, ?_⟩⟩
  · exact c.parallel_crashes hknown
  · exact c.parallel_answers hknown hceiling
  · exact fun hroom => c.parallel_in_room hknown hroom env

/-- In a ledger of small balances no transfer can overflow: in whatever order they run, the batch is
answered unless somebody cancels it. -/
theorem passing_answers_in_any_order :
    (∀ limit, passing.config.maxIncarnations = some limit →
      max 1 (passing.transfers.length - 1) ≤ limit.toNat) ∧
    passing.accounts.toNat * passing.initialBalance.toNat < 2 ^ 64 ∧
    (∀ t ∈ passing.transfers, t.source < passing.accounts ∧ t.target < passing.accounts) ∧
    (∀ t ∈ passing.transfers,
      Ledger.most passing.initialBalance passing.transfers t.target < 2 ^ 64) ∧
    ∀ env : Environment, (∀ round, env.interrupts round = false) →
      ∃ rs, (passing.parallel env).result = .ok rs ∧ passing.sequential.result = .ok rs ∧
        balances (passing.parallel env).batch.world = balances passing.sequential.world := by
  have hceiling : ∀ limit, passing.config.maxIncarnations = some limit →
      max 1 (passing.transfers.length - 1) ≤ limit.toNat := by
    intro limit hlimit
    cases hlimit
    decide
  have hfits : passing.accounts.toNat * passing.initialBalance.toNat < 2 ^ 64 := by decide
  have hknown : ∀ t ∈ passing.transfers,
      t.source < passing.accounts ∧ t.target < passing.accounts := by decide
  have hroom : ∀ t ∈ passing.transfers,
      Ledger.most passing.initialBalance passing.transfers t.target < 2 ^ 64 := by decide
  obtain ⟨-, hruns⟩ := passing.answers_unless_overflow hceiling hfits hknown
  refine ⟨hceiling, hfits, hknown, hroom, fun env huninterrupted => ?_⟩
  obtain ⟨-, hanswers, hnone⟩ := hruns env
  exact (hanswers huninterrupted (hnone hroom)).resolve_right fun hfull =>
    absurd hfull.1 (by decide)

/-- Three accounts that together hold three quarters of what a word can. -/
def brimming : Comparison where
  accounts := 3
  initialBalance := 0x4000000000000000
  config := { workers := 3, maxIncarnations := none }
  transfers := [⟨0, 1, 0x4000000000000000⟩, ⟨2, 0, 0x4000000000000000⟩, ⟨0, 1, 0x8000000000000000⟩]
  overflow := "attempt to add with overflow"

/-- In the first round the second transfer runs from its beginning to its end, then the first one,
then the third. `choices` is how many it takes to run one. -/
def reordered (choices : Nat) : Environment where
  schedule := fun number =>
    if number = 1 then
      [.take, .take, .take] ++ List.replicate choices (.advance 1) ++
        List.replicate choices (.advance 0)
    else []

/-- The batch with each call taken as one step. -/
def stepwise (c : Comparison) (env : Environment) : Parallel :=
  { c.scheduler with executor := fun t version => (c.scheduler.executor t version).atomic }.process
    env {} c.world c.transfers

/-- The third transfer finds one account as the second transfer left it, which had not seen the
first one, and the other as the first one left it. In sequence the source cannot cover it. -/
theorem brimming_overflows :
    brimming.accounts.toNat * brimming.initialBalance.toNat < 2 ^ 64 ∧
      (∀ t ∈ brimming.transfers, t.source < brimming.accounts ∧ t.target < brimming.accounts) ∧
      brimming.config.maxIncarnations = none ∧
      (∃ rs, brimming.sequential.result = .ok rs) ∧
      (∃ job, .ended job (.crashed brimming.overflow) ∈
        (brimming.parallel (reordered 5)).batch.log.flatten) ∧
      (brimming.parallel (reordered 5)).result =
        .error (.failed (.workerCrashed brimming.overflow)) ∧
      (brimming.stepwise (reordered 2)).result =
        .error (.failed (.workerCrashed brimming.overflow)) := by
  have hfits : brimming.accounts.toNat * brimming.initialBalance.toNat < 2 ^ 64 := by decide
  have hknown : ∀ t ∈ brimming.transfers,
      t.source < brimming.accounts ∧ t.target < brimming.accounts := by decide
  have hcrashed : .ended ⟨2, ⟨2, 0⟩, ⟨0, 1, 0x8000000000000000⟩⟩
      (.crashed brimming.overflow) ∈
      (brimming.parallel (reordered 5)).batch.log.flatten := List.mem_of_getElem? (i := 0) rfl
  exact ⟨hfits, hknown, rfl, (brimming.sequential_solvent rfl hfits hknown).1, ⟨_, hcrashed⟩,
    brimming.parallel_crashes hknown hcrashed, rfl⟩

end Comparison

end TxBatch
