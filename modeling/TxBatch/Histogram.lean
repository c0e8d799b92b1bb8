/-! # Histograms

A histogram counts observations by the first bound that they do not exceed, with one slot more for
those above every bound. Slots are chosen by the observed number itself; the sum and the largest
value are kept of its whole part, cut off at zero and at the largest 64-bit word. Counts and the
sum are words and wrap.
-/

namespace TxBatch

structure Histogram where
  /-- Upper bounds of the slots, in the order in which they are tried. -/
  bounds : List Float
  /-- Observations a slot; the last slot is for those that no bound holds. -/
  slots : List UInt64
  sum : UInt64 := 0
  count : UInt64 := 0
  max : UInt64 := 0

namespace Histogram

def ofBounds (bounds : List Float) : Histogram :=
  { bounds, slots := List.replicate (bounds.length + 1) 0 }

def latencyBounds : List Float := [10, 50, 100, 250, 500, 1000, 2500, 5000, 10000, 100000]

instance : Inhabited Histogram := ⟨ofBounds latencyBounds⟩

/-- The slot of a number: that of the first bound it does not exceed, or the last one. A number
that compares with no bound goes to the last. -/
def slotOf (bounds : List Float) (value : Float) : Nat :=
  bounds.findIdx fun bound => value ≤ bound

def observe (h : Histogram) (value : Float) : Histogram :=
  let whole := value.toUInt64
  { h with
    slots := h.slots.modify (slotOf h.bounds value) (· + 1)
    sum := h.sum + whole
    count := h.count + 1
    max := Max.max h.max whole }

def observeMicros (h : Histogram) (micros : Nat) : Histogram := h.observe (Float.ofNat micros)

/-- The mean of the whole parts; zero before the first observation. -/
def mean (h : Histogram) : Float :=
  if h.count = 0 then 0 else h.sum.toFloat / h.count.toFloat

structure Summary where
  mean : Float
  count : UInt64
  max : UInt64
  buckets : List UInt64

def summary (h : Histogram) : Summary :=
  { mean := h.mean, count := h.count, max := h.max, buckets := h.slots }

end Histogram

end TxBatch
