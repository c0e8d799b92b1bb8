import TxBatch.Proofs.Updates

/-!
# What lower readers cannot see

Every transaction writes and clears at its own position, while others read. Nothing that is done at
a position, or behind it, reaches a reader there or in front of it: two sequences of updates that
agree on what is done in front of it leave stores that it cannot tell apart
(`lower_readers_isolated`).

The argument goes along the two runs at once, with the stores in agreement below a bound
(`AgreeBelow`): an update behind the bound keeps all that stands below it (`agreeBelow_update`), the
same update does the same on both sides (`AgreeBelow.update`), and a reader up to the bound looks at
nothing else (`AgreeBelow.read`).
-/

namespace TxBatch

namespace Store

variable {V : Type}

def below (bound : Nat) (updates : List (Update V)) : List (Update V) :=
  updates.filter fun u => u.position < bound

theorem below_append_singleton (bound : Nat) (updates : List (Update V)) (u : Update V) :
    below bound (updates ++ [u]) =
      if u.position < bound then below bound updates ++ [u] else below bound updates := by
  rw [below, List.filter_append]
  by_cases hu : u.position < bound <;> simp [hu, below]

/-! ## Stores that agree below a bound -/

/-- Two stores over one base with the same cells below `bound`. -/
structure AgreeBelow (bound : Nat) (s s' : Store V) : Prop where
  base : s.base = s'.base
  cells : ∀ key, ∀ index < bound, s.cell? key index = s'.cell? key index

variable {bound : Nat} {s s' s'' : Store V}

theorem AgreeBelow.refl (bound : Nat) (s : Store V) : AgreeBelow bound s s :=
  ⟨rfl, fun _ _ _ => rfl⟩

theorem AgreeBelow.trans (h : AgreeBelow bound s s') (h' : AgreeBelow bound s' s'') :
    AgreeBelow bound s s'' where
  base := h.base.trans h'.base
  cells key index hlt := (h.cells key index hlt).trans (h'.cells key index hlt)

theorem AgreeBelow.update (h : AgreeBelow bound s s') (u : Update V) :
    AgreeBelow bound (s.update u) (s'.update u) where
  base := by rw [base_update, base_update, h.base]
  cells key index hlt := cell?_update_congr u (h.cells key index hlt)

/-- An update at the bound or behind it leaves everything below. -/
theorem agreeBelow_update (s : Store V) {u : Update V} (hu : bound ≤ u.position) :
    AgreeBelow bound (s.update u) s where
  base := base_update s u
  cells key index hlt := cell?_update_of_ne s (by omega) key

theorem AgreeBelow.read (h : AgreeBelow bound s s') {reader : Nat} (hreader : reader ≤ bound)
    (key : Key) : s.read key reader = s'.read key reader :=
  read_congr h.base fun index hlt => h.cells key index (Nat.lt_of_lt_of_le hlt hreader)

/-- The updates behind the bound can be left out. -/
theorem agreeBelow_after_below (bound : Nat) (s : Store V) (updates : List (Update V)) :
    AgreeBelow bound (s.after updates) (s.after (below bound updates)) := by
  induction updates using List.reverseRecOn with
  | nil => exact .refl bound s
  | append_singleton updates u ih =>
      rw [below_append_singleton, after_append_singleton]
      split
      · rw [after_append_singleton]
        exact ih.update u
      · rename_i hbehind
        exact (agreeBelow_update _ (Nat.not_lt.mp hbehind)).trans ih

/-- **Isolation of lower readers.** From any store over any base: if two sequences of writes and
clearings, of any keys, versions and values, are the same in what they do at the positions below
`bound`, then every reader up to `bound` finds the same of every key after both. What happens at
`bound` or behind it, wherever in between, is invisible there. -/
theorem lower_readers_isolated (s : Store V) {bound reader : Nat} {updates updates' : List (Update V)}
    (hsame : below bound updates = below bound updates') (hreader : reader ≤ bound) (key : Key) :
    (s.after updates).read key reader = (s.after updates').read key reader := by
  calc (s.after updates).read key reader
      = (s.after (below bound updates)).read key reader :=
        (agreeBelow_after_below bound s updates).read hreader key
    _ = (s.after (below bound updates')).read key reader := by rw [hsame]
    _ = (s.after updates').read key reader :=
        ((agreeBelow_after_below bound s updates').read hreader key).symm

/-- Position 2 overwrites, withdraws and outlives what positions 0 and 1 do; reader 2 finds the
write of position 0 either way. -/
theorem busy_neighbour_isolated :
    let a : Key := ⟨[97]⟩
    let s : Store Nat := ofBase (.ofList [(a, 100)])
    let alone : List (Update Nat) := [.write a ⟨1, 0⟩ 10, .write a ⟨0, 1⟩ 5, .clear 1]
    let beside : List (Update Nat) := [.write a ⟨2, 7⟩ 70, .write a ⟨1, 0⟩ 10, .clear 2,
      .write a ⟨0, 1⟩ 5, .write a ⟨2, 0⟩ 20, .clear 1, .clear 3]
    below 2 alone = below 2 beside ∧ 2 ≤ 2 ∧
      (s.after alone).read a 2 = (s.after beside).read a 2 ∧
      (s.after beside).read a 2 = .versioned ⟨0, 1⟩ 5 := by
  intro a s alone beside
  have hsame : below 2 alone = below 2 beside := by decide
  exact ⟨hsame, Nat.le_refl 2, lower_readers_isolated s hsame (Nat.le_refl 2) a, by decide +kernel⟩

end Store

end TxBatch
