import EndpointRules.Value

/-!
# Pools

A pool gives each distinct thing put into it an index, counted from 0 in the order of first
appearance.  Indices never change, since a pool only grows at its end.
-/

namespace EndpointRules

/-- Distinct things in the order of their first appearance. -/
structure Pool (α : Type) where
  items : Array α := #[]

namespace Pool

variable {α : Type} [DecidableEq α]

/-- The number of things in the pool. -/
def size (p : Pool α) : Nat := p.items.size

/-- The index of a thing, which is added at the end if it is new. -/
def intern (p : Pool α) (x : α) : Nat × Pool α :=
  match p.items.findIdx? (· == x) with
  | some i => (i, p)
  | none => (p.size, { items := p.items.push x })

end Pool

end EndpointRules
