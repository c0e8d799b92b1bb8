import Mathlib.Algebra.GroupWithZero.Nat
import Mathlib.Data.List.Perm.Basic
import TxBatch.Histogram

/-!
# What a histogram has counted

Slots are chosen by comparing doubles, while the sum and the largest value are kept of whole parts;
nothing is assumed of either here, so the bounds may be out of order, repeated or no numbers at all.
`Tallied` says what each number of a histogram is of the observations so far. One observation keeps
it (`Tallied.observe`), so it holds behind any sequence of them, and since a tally does not ask for
their order and leaves nothing open (`Tallied.unique`), neither does the histogram
(`after_perm`).
-/

namespace TxBatch.Histogram

/-- The histogram behind these observations, oldest first. A duration is observed as the number of
its microseconds. -/
def after (bounds obs : List Float) : Histogram := obs.foldl observe (ofBounds bounds)

/-! ## Slots -/

theorem slotOf_le (bounds : List Float) (x : Float) : slotOf bounds x ≤ bounds.length :=
  List.findIdx_le_length

/-- The slot of a bound takes what that bound is the first to hold. -/
theorem slotOf_eq_iff {bounds : List Float} {i : Nat} (hi : i < bounds.length) (x : Float) :
    slotOf bounds x = i ↔ x ≤ bounds[i] ∧ ∀ b ∈ bounds.take i, ¬x ≤ b := by
  rw [slotOf, List.findIdx_eq hi]
  simp only [decide_eq_true_eq, decide_eq_false_iff_not, List.mem_take_iff_getElem]
  refine and_congr_right fun _ => ⟨?_, fun h j hj => h _ ⟨j, by omega, rfl⟩⟩
  rintro h b ⟨j, hj, rfl⟩
  exact h j (by omega)

/-- The last slot takes what no bound holds, be it above them or not to be compared. -/
theorem slotOf_eq_length_iff (bounds : List Float) (x : Float) :
    slotOf bounds x = bounds.length ↔ ∀ b ∈ bounds, ¬x ≤ b := by
  simp [slotOf, List.findIdx_eq_length]

theorem sum_modify {slots : List UInt64} {i : Nat} (hi : i < slots.length) :
    ((slots.modify i (· + 1)).map UInt64.toNat).sum % 2 ^ 64 =
      ((slots.map UInt64.toNat).sum + 1) % 2 ^ 64 := by
  induction slots generalizing i with
  | nil => cases hi
  | cons w rest ih =>
      cases i with
      | zero =>
          simp only [List.modify_zero_cons, List.map_cons, List.sum_cons, UInt64.toNat_add,
            UInt64.toNat_one]
          omega
      | succ i =>
          have hrest := ih (Nat.lt_of_succ_lt_succ hi)
          simp only [List.modify_succ_cons, List.map_cons, List.sum_cons]
          omega

theorem both_le_max (v w : UInt64) : v ≤ Max.max v w ∧ w ≤ Max.max v w := by
  have hmax : Max.max v w = if v ≤ w then w else v := rfl
  rw [hmax]
  split
  · rename_i hle
    exact ⟨hle, UInt64.le_refl w⟩
  · rename_i hnot
    exact ⟨UInt64.le_refl v, (UInt64.le_total v w).resolve_left hnot⟩

theorem max_eq_either (v w : UInt64) : Max.max v w = v ∨ Max.max v w = w :=
  ite_eq_or_eq (v ≤ w) w v |>.symm

/-! ## Tallies -/

/-- What a histogram with these bounds is once it has counted `obs`, in whatever order. -/
structure Tallied (bounds obs : List Float) (h : Histogram) : Prop where
  bounds_eq : h.bounds = bounds
  length_slots : h.slots.length = bounds.length + 1
  slot : ∀ i ≤ bounds.length, h.slots[i]? = some (.ofNat (obs.countP (slotOf bounds · = i)))
  slots_sum : (h.slots.map UInt64.toNat).sum % 2 ^ 64 = h.count.toNat
  count : h.count = .ofNat obs.length
  sum : h.sum = .ofNat (obs.map fun x => x.toUInt64.toNat).sum
  le_max : ∀ x ∈ obs, x.toUInt64 ≤ h.max
  /-- Before the first observation the largest value is zero. -/
  max_mem : h.max = 0 ∨ ∃ x ∈ obs, x.toUInt64 = h.max

namespace Tallied

variable {bounds obs obs' : List Float} {h h' : Histogram}

theorem start (bounds : List Float) : Tallied bounds [] (ofBounds bounds) where
  bounds_eq := rfl
  length_slots := List.length_replicate
  slot i hi := by
    rw [ofBounds, List.getElem?_replicate, if_pos (by omega)]
    rfl
  slots_sum := by simp [ofBounds]
  count := rfl
  sum := rfl
  le_max := by simp
  max_mem := .inl rfl

theorem slotOf_lt (t : Tallied bounds obs h) (x : Float) : slotOf h.bounds x < h.slots.length := by
  rw [t.length_slots, t.bounds_eq]
  exact Nat.lt_succ_of_le (slotOf_le bounds x)

theorem observe (t : Tallied bounds obs h) (x : Float) : Tallied bounds (x :: obs) (h.observe x) where
  bounds_eq := t.bounds_eq
  length_slots := by rw [Histogram.observe, List.length_modify, t.length_slots]
  slot i hi := by
    rw [Histogram.observe, List.getElem?_modify, t.slot i hi, t.bounds_eq, List.countP_cons]
    by_cases hslot : slotOf bounds x = i <;> simp [hslot, UInt64.ofNat_add]
  slots_sum := by
    have hcount := sum_modify (t.slotOf_lt x)
    have hbefore := t.slots_sum
    simp only [Histogram.observe, UInt64.toNat_add, UInt64.toNat_one]
    omega
  count := by simp only [Histogram.observe, t.count, List.length_cons, UInt64.ofNat_add]; rfl
  sum := by
    simp only [Histogram.observe, t.sum, List.map_cons, List.sum_cons, UInt64.ofNat_add,
      UInt64.ofNat_toNat]
    exact UInt64.add_comm _ _
  le_max := by
    obtain ⟨hbefore, hnew⟩ := both_le_max h.max x.toUInt64
    rintro y (_ | ⟨_, hy⟩)
    · exact hnew
    · exact UInt64.le_trans (t.le_max y hy) hbefore
  max_mem := by
    obtain hsame | hnew := max_eq_either h.max x.toUInt64
    · rw [Histogram.observe, hsame]
      exact t.max_mem.imp_right fun ⟨y, hy, hmax⟩ => ⟨y, List.mem_cons_of_mem _ hy, hmax⟩
    · exact .inr ⟨x, List.mem_cons_self, hnew.symm⟩

theorem perm (t : Tallied bounds obs h) (hperm : obs.Perm obs') : Tallied bounds obs' h where
  __ := t
  slot i hi := by rw [t.slot i hi, hperm.countP_eq]
  count := by rw [t.count, hperm.length_eq]
  sum := by rw [t.sum, (hperm.map _).sum_nat]
  le_max x hx := t.le_max x (hperm.mem_iff.mpr hx)
  max_mem := by simpa only [hperm.mem_iff] using t.max_mem

theorem max_le (t : Tallied bounds obs h) (t' : Tallied bounds obs h') : h.max ≤ h'.max := by
  obtain hzero | ⟨x, hx, hmax⟩ := t.max_mem
  · rw [hzero]
    exact UInt64.zero_le
  · rw [← hmax]
    exact t'.le_max x hx

theorem unique (t : Tallied bounds obs h) (t' : Tallied bounds obs h') : h = h' := by
  have hslots : h.slots = h'.slots := by
    refine List.ext_getElem? fun i => ?_
    by_cases hi : i ≤ bounds.length
    · rw [t.slot i hi, t'.slot i hi]
    · have hlength := t.length_slots
      have hlength' := t'.length_slots
      rw [List.getElem?_eq_none (by omega), List.getElem?_eq_none (by omega)]
  have hbounds := t.bounds_eq.trans t'.bounds_eq.symm
  have hsum := t.sum.trans t'.sum.symm
  have hcount := t.count.trans t'.count.symm
  have hmax := UInt64.le_antisymm (t.max_le t') (t'.max_le t)
  cases h
  cases h'
  exact (mk.injEq ..).mpr ⟨hbounds, hslots, hsum, hcount, hmax⟩

theorem foldl (t : Tallied bounds obs h) (later : List Float) :
    Tallied bounds (later.reverse ++ obs) (later.foldl Histogram.observe h) := by
  induction later generalizing obs h with
  | nil => exact t
  | cons x later ih => simpa using ih (t.observe x)

end Tallied

theorem tallied_after (bounds obs : List Float) : Tallied bounds obs (after bounds obs) := by
  have hfold := (Tallied.start bounds).foldl obs
  rw [List.append_nil] at hfold
  exact hfold.perm obs.reverse_perm

theorem after_perm {obs obs' : List Float} (bounds : List Float) (h : obs.Perm obs') :
    after bounds obs' = after bounds obs :=
  (tallied_after bounds obs').unique ((tallied_after bounds obs).perm h)

/-- A histogram is the tally of what it has counted, whatever its bounds and the numbers are. There
is a slot more than there are bounds, and no number asks for a slot that is not there. All slots
together have counted as much as was observed, up to the size of a word: each the numbers that its
bound is the first to hold, and the last one those that no bound holds. The largest whole part is
kept, and the sum of all of them up to the size of a word. What is exported are the slots, the
largest, how many there were and the mean of their whole parts. The order of the numbers has no part
in it. -/
theorem after_counts (bounds obs : List Float) :
    ((after bounds obs).slots.length = bounds.length + 1 ∧ (after bounds obs).bounds = bounds ∧
      ∀ x, slotOf (after bounds obs).bounds x < (after bounds obs).slots.length) ∧
    (((after bounds obs).slots.map UInt64.toNat).sum % 2 ^ 64 = (after bounds obs).count.toNat ∧
      (after bounds obs).count.toNat = obs.length % 2 ^ 64) ∧
    ((∀ i (hi : i < bounds.length), (after bounds obs).slots[i]? = some
        (.ofNat (obs.countP fun x => x ≤ bounds[i] ∧ ∀ b ∈ bounds.take i, ¬x ≤ b))) ∧
      (after bounds obs).slots[bounds.length]? = some
        (.ofNat (obs.countP fun x => ∀ b ∈ bounds, ¬x ≤ b))) ∧
    ((∀ x ∈ obs, x.toUInt64 ≤ (after bounds obs).max) ∧
      (obs ≠ [] → ∃ x ∈ obs, x.toUInt64 = (after bounds obs).max) ∧
      (obs = [] → (after bounds obs).max = 0)) ∧
    (after bounds obs).sum.toNat = (obs.map fun x => x.toUInt64.toNat).sum % 2 ^ 64 ∧
    ((after bounds obs).summary.buckets = (after bounds obs).slots ∧
      (after bounds obs).summary.max = (after bounds obs).max ∧
      (after bounds obs).summary.count = .ofNat obs.length ∧
      (after bounds obs).summary.mean = if UInt64.ofNat obs.length = 0 then 0 else
        (UInt64.ofNat (obs.map fun x => x.toUInt64.toNat).sum).toFloat /
          (UInt64.ofNat obs.length).toFloat) ∧
    ∀ obs', obs.Perm obs' → after bounds obs' = after bounds obs := by
  have t := tallied_after bounds obs
  refine ⟨⟨t.length_slots, t.bounds_eq, t.slotOf_lt⟩, ⟨t.slots_sum, ?_⟩, ⟨?_, ?_⟩,
    ⟨t.le_max, ?_, ?_⟩, ?_, ⟨rfl, rfl, t.count, ?_⟩, fun _ => after_perm bounds⟩
  · rw [t.count, UInt64.toNat_ofNat']
  · intro i hi
    simp only [t.slot i (Nat.le_of_lt hi), slotOf_eq_iff hi]
  · simp only [t.slot _ (Nat.le_refl _), slotOf_eq_length_iff]
  · intro hne
    obtain hzero | hmem := t.max_mem
    · obtain ⟨x, hx⟩ := List.exists_mem_of_ne_nil obs hne
      exact ⟨x, hx, UInt64.le_antisymm (t.le_max x hx) (hzero ▸ UInt64.zero_le)⟩
    · exact hmem
  · rintro rfl
    exact t.max_mem.resolve_right (by simp)
  · rw [t.sum, UInt64.toNat_ofNat']
  · simp only [summary, mean, t.count, t.sum]

/-- Bounds out of order, with one that is no number: two numbers fall into the slot of ten although
a smaller bound would hold one of them, and what is no number falls into the last slot. -/
theorem jumbled_bounds_count :
    let h := after [10, 0 / 0, 5] [2.5, 0 / 0, -1, 1e30]
    (h.slots[0]? = some 2 ∧ h.slots[2]? = some 0 ∧ h.slots[3]? = some 2) ∧
    (Float.toUInt64 1e30 ≤ h.max ∧ ∃ x ∈ ([2.5, 0 / 0, -1, 1e30] : List Float), x.toUInt64 = h.max) ∧
    (after [10] []).max = 0 ∧ (h.summary.count = 4 ∧ (after [10] []).summary.mean = 0) ∧
    after [10, 0 / 0, 5] [1e30, -1, 0 / 0, 2.5] = h := by
  obtain ⟨-, -, ⟨hslot, hlast⟩, ⟨hle, hmax, -⟩, -, ⟨-, -, hcount, -⟩, hperm⟩ :=
    after_counts [10, 0 / 0, 5] [2.5, 0 / 0, -1, 1e30]
  obtain ⟨-, -, -, ⟨-, -, hempty⟩, -, ⟨-, -, -, hmean⟩, -⟩ := after_counts [10] []
  refine ⟨⟨?_, ?_, ?_⟩, ⟨hle _ (by simp), hmax (by simp)⟩, hempty rfl,
    ⟨hcount, hmean⟩, hperm _ ?_⟩
  · rw [hslot 0 (by simp)]
    decide +kernel
  · rw [hslot 2 (by simp)]
    decide +kernel
  · exact hlast.trans (by decide +kernel)
  · exact (List.reverse_perm [2.5, 0 / 0, -1, 1e30]).symm

end TxBatch.Histogram
