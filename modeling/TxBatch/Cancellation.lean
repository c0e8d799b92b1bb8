/-! # Cancellation scopes

A scope can be cancelled, and scopes can be opened inside others: cancelling one cancels all inside
it and leaves those around it alone. A scope is known by its number and by the numbers of those
around it, so all that has to be kept is which numbers were cancelled.

A phase works in a scope of its own inside that of its batch, so that an error of one call stops the
others and leaves the batch open.
-/

namespace TxBatch

/-- A scope: its own number, then the numbers of the scopes around it, innermost first. -/
structure Scope where
  lineage : List Nat
deriving Repr, DecidableEq

/-- The numbers given out and the numbers cancelled. -/
structure Scopes where
  next : Nat := 0
  cancelled : List Nat := []
deriving Repr, DecidableEq

namespace Scopes

def openRoot (s : Scopes) : Scope × Scopes := (⟨[s.next]⟩, { s with next := s.next + 1 })

/-- Open a scope inside `outer`. -/
def openInside (s : Scopes) (outer : Scope) : Scope × Scopes :=
  (⟨s.next :: outer.lineage⟩, { s with next := s.next + 1 })

/-- Cancel a scope and all inside it. -/
def cancel (s : Scopes) (scope : Scope) : Scopes :=
  { s with cancelled := scope.lineage.take 1 ++ s.cancelled }

/-- A scope is cancelled if it or one around it was. -/
def isCancelled (s : Scopes) (scope : Scope) : Bool :=
  scope.lineage.any s.cancelled.contains

/-- Cancelling reaches what has the scope's number in its lineage, and nothing else. -/
theorem isCancelled_cancel (s : Scopes) (number : Nat) (around : List Nat) (scope : Scope) :
    (s.cancel ⟨number :: around⟩).isCancelled scope =
      (scope.lineage.contains number || s.isCancelled scope) := by
  rw [Bool.eq_iff_iff]
  simp only [isCancelled, cancel, List.take_one, List.head?_cons, Option.toList_some,
    List.singleton_append, List.any_eq_true, List.contains_iff_mem, List.mem_cons, Bool.or_eq_true]
  constructor
  · rintro ⟨n, hmem, rfl | hn⟩
    · exact .inl hmem
    · exact .inr ⟨n, hmem, hn⟩
  · rintro (hmem | ⟨n, hmem, hn⟩)
    · exact ⟨number, hmem, .inl rfl⟩
    · exact ⟨n, hmem, .inr hn⟩

/-- A scope begins as cancelled as the one that it is opened in. -/
theorem isCancelled_openInside {s : Scopes} (hfresh : s.next ∉ s.cancelled) (outer : Scope) :
    (s.openInside outer).2.isCancelled (s.openInside outer).1 = s.isCancelled outer := by
  simp [isCancelled, openInside, hfresh]

/-- To cancel a scope leaves the one that it was opened in as it was. -/
theorem isCancelled_outer {s : Scopes} {outer : Scope} (hgiven : s.next ∉ outer.lineage) :
    ((s.openInside outer).2.cancel (s.openInside outer).1).isCancelled outer =
      s.isCancelled outer := by
  have hother : outer.lineage.contains s.next = false := by simpa using hgiven
  exact (isCancelled_cancel _ s.next outer.lineage outer).trans (by rw [hother, Bool.false_or]; rfl)

def cancelIf (s : Scopes) (cancels : Bool) (scope : Scope) : Scopes :=
  if cancels then s.cancel scope else s

theorem isCancelled_inside {s : Scopes} (hfresh : s.next ∉ s.cancelled) (outer : Scope)
    (cancels : Bool) :
    ((s.openInside outer).2.cancelIf cancels (s.openInside outer).1).isCancelled
      (s.openInside outer).1 = (s.isCancelled outer || cancels) := by
  cases cancels with
  | false => exact (isCancelled_openInside hfresh outer).trans (Bool.or_false _).symm
  | true =>
      have hself : (s.openInside outer).1.lineage.contains s.next = true := by simp [openInside]
      rw [Bool.or_true]
      exact (isCancelled_cancel _ s.next outer.lineage _).trans (by rw [hself, Bool.true_or])

/-- Whether those in a scope are told to give up, by whether the scope around it was cancelled and
whether it was itself. -/
def innerCancelled (outer inner : Bool) : Bool :=
  let (around, s) := openRoot {}
  let (scope, s) := (s.cancelIf outer around).openInside around
  (s.cancelIf inner scope).isCancelled scope

@[simp] theorem innerCancelled_eq (outer inner : Bool) :
    innerCancelled outer inner = (outer || inner) := by
  cases outer with
  | false => exact isCancelled_inside (s := (openRoot {}).2) (by decide) (openRoot {}).1 inner
  | true =>
      exact isCancelled_inside (s := (openRoot {}).2.cancel (openRoot {}).1) (by decide)
        (openRoot {}).1 inner

end Scopes

end TxBatch
