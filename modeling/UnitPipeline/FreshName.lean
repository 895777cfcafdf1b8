import UnitPipeline.KeyedTable

namespace UnitPipeline

structure TermName where
  text : String
  deriving DecidableEq, Repr

structure TypeName where
  text : String
  deriving DecidableEq, Repr

-- One counter for every stem. Term and type names draw from the same counters.
structure FreshNames where
  counters : KeyedTable String UInt64 := {}
  deriving DecidableEq, Repr

namespace FreshNames

def count (fresh : FreshNames) (stem : String) : UInt64 := (fresh.counters.get? stem).getD 0

def nextName (fresh : FreshNames) (stem : String) : String :=
  stem ++ toString (fresh.count stem + 1).toNat

def advance (fresh : FreshNames) (stem : String) : FreshNames :=
  ⟨fresh.counters.put stem (fresh.count stem + 1)⟩

def mint (fresh : FreshNames) (stem : String) : String × FreshNames :=
  (fresh.nextName stem, fresh.advance stem)

theorem count_advance (fresh : FreshNames) (stem other : String) :
    (fresh.advance stem).count other =
      if stem = other then fresh.count stem + 1 else fresh.count other := by
  simp only [count, advance, KeyedTable.get?_put]
  split <;> simp

end FreshNames

end UnitPipeline
