namespace UnitPipeline

-- A half-open range of byte offsets. The ends may stand in either order; a
-- range whose end is not above its start selects nothing.
structure Span where
  start : UInt64
  stop : UInt64
  deriving DecidableEq, Repr

namespace Span

def empty : Span := ⟨0, 0⟩

def isEmpty (s : Span) : Bool := s.stop ≤ s.start

def length (s : Span) : UInt64 := if s.start ≤ s.stop then s.stop - s.start else 0

def contains (s other : Span) : Bool := s.start ≤ other.start && other.stop ≤ s.stop

def merge (s other : Span) : Span :=
  ⟨if s.start ≤ other.start then s.start else other.start,
    if s.stop ≤ other.stop then other.stop else s.stop⟩

theorem contains_exact {s other : Span} :
    s.contains other = true ↔
      s.start.toNat ≤ other.start.toNat ∧ other.stop.toNat ≤ s.stop.toNat := by
  simp [contains, UInt64.le_iff_toNat_le]

theorem merge_start (s other : Span) :
    (s.merge other).start.toNat = min s.start.toNat other.start.toNat := by
  simp only [merge, UInt64.le_iff_toNat_le]
  split <;> omega

theorem merge_stop (s other : Span) :
    (s.merge other).stop.toNat = max s.stop.toNat other.stop.toNat := by
  simp only [merge, UInt64.le_iff_toNat_le]
  split <;> omega

theorem length_exact (s : Span) : s.length.toNat = s.stop.toNat - s.start.toNat := by
  simp only [length, UInt64.le_iff_toNat_le]
  split
  · rename_i ordered
    rw [UInt64.toNat_sub_of_le _ _ (UInt64.le_iff_toNat_le.mpr ordered)]
  · rename_i inverted
    simp only [UInt64.toNat_zero]
    omega

end Span

-- A place in a source: the byte offset with line and column counted from one.
-- Line zero is kept for what has no source.
structure Position where
  offset : UInt64
  line : UInt32
  column : UInt32
  deriving DecidableEq, Repr

namespace Position

def none : Position := ⟨0, 0, 0⟩

def isDefined (p : Position) : Bool := p.line ≠ 0

def display (p : Position) : String :=
  if p.isDefined then toString p.line.toNat ++ ":" ++ toString p.column.toNat
  else "<no position>"

end Position

end UnitPipeline
