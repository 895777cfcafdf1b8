namespace UnitPipeline

-- A set that remembers the order in which its members first came. A member
-- that comes again changes nothing.
structure OrderedSet (α : Type) where
  toList : List α := []
  deriving DecidableEq, Repr

namespace OrderedSet
variable {α : Type} [DecidableEq α]

def contains (s : OrderedSet α) (x : α) : Bool := decide (x ∈ s.toList)

def insert (s : OrderedSet α) (x : α) : OrderedSet α :=
  if x ∈ s.toList then s else ⟨s.toList ++ [x]⟩

def erase (s : OrderedSet α) (x : α) : OrderedSet α := ⟨s.toList.filter (· ≠ x)⟩

def insertAll (s : OrderedSet α) (xs : List α) : OrderedSet α := xs.foldl insert s

def length (s : OrderedSet α) : Nat := s.toList.length

def isEmpty (s : OrderedSet α) : Bool := s.toList.isEmpty

theorem contains_iff {s : OrderedSet α} : s.contains x = true ↔ x ∈ s.toList := by
  simp [contains]

theorem insert_known {s : OrderedSet α} (known : x ∈ s.toList) : s.insert x = s := by
  simp [insert, known]

theorem insert_new {s : OrderedSet α} (new : x ∉ s.toList) :
    (s.insert x).toList = s.toList ++ [x] := by
  simp [insert, new]

theorem mem_insert {s : OrderedSet α} : y ∈ (s.insert x).toList ↔ y ∈ s.toList ∨ y = x := by
  by_cases known : x ∈ s.toList
  · rw [insert_known known]
    constructor
    · exact Or.inl
    · rintro (old | rfl)
      · exact old
      · exact known
  · simp [insert_new known]

theorem insert_nodup {s : OrderedSet α} (distinct : s.toList.Nodup) :
    (s.insert x).toList.Nodup := by
  by_cases known : x ∈ s.toList
  · rwa [insert_known known]
  · rw [insert_new known, List.nodup_append]
    refine ⟨distinct, by simp, ?_⟩
    intro a old b single
    simp at single
    subst single
    intro equal
    exact known (equal ▸ old)

theorem insert_longer {s : OrderedSet α} : s.length < (s.insert x).length ↔ x ∉ s.toList := by
  by_cases known : x ∈ s.toList
  · simp [insert_known known, known]
  · simp [length, insert_new known, known]

theorem insertAll_cons (s : OrderedSet α) (x : α) (xs : List α) :
    s.insertAll (x :: xs) = (s.insert x).insertAll xs := rfl

theorem insertAll_append (s : OrderedSet α) (xs ys : List α) :
    s.insertAll (xs ++ ys) = (s.insertAll xs).insertAll ys := List.foldl_append

theorem insertAll_known {s : OrderedSet α} {xs : List α} (known : ∀ x ∈ xs, x ∈ s.toList) :
    s.insertAll xs = s := by
  induction xs with
  | nil => rfl
  | cons x rest ih =>
    obtain ⟨first, others⟩ := List.forall_mem_cons.mp known
    rw [insertAll_cons, insert_known first, ih others]

theorem mem_insertAll {s : OrderedSet α} {xs : List α} {y : α} :
    y ∈ (s.insertAll xs).toList ↔ y ∈ s.toList ∨ y ∈ xs := by
  induction xs generalizing s with
  | nil => simp [insertAll]
  | cons x rest ih => rw [insertAll_cons, ih, mem_insert, List.mem_cons, or_assoc]

theorem insertAll_nodup {s : OrderedSet α} (distinct : s.toList.Nodup) (xs : List α) :
    (s.insertAll xs).toList.Nodup := by
  induction xs generalizing s with
  | nil => exact distinct
  | cons x rest ih => exact ih (insert_nodup distinct)

theorem insertAll_toList (s : OrderedSet α) (xs : List α) :
    (s.insertAll xs).toList = s.toList ++ (xs.removeAll s.toList).eraseDups := by
  induction xs generalizing s with
  | nil => simp [insertAll, List.removeAll]
  | cons x rest ih =>
    rw [insertAll_cons, ih]
    by_cases known : x ∈ s.toList
    · rw [insert_known known]
      simp [List.removeAll, known]
    · have first : (x :: rest).removeAll s.toList = x :: rest.removeAll s.toList := by
        simp [List.removeAll, known]
      have others : rest.removeAll (s.toList ++ [x]) =
          (rest.removeAll s.toList).filter fun y => !y == x := by
        simp only [List.removeAll, List.filter_filter, List.elem_eq_mem, List.mem_append,
          List.mem_singleton, Bool.decide_or, Bool.not_or, Bool.and_comm]
        rfl
      rw [insert_new known, first, List.eraseDups_cons, others, List.append_assoc]
      rfl

end OrderedSet

end UnitPipeline
