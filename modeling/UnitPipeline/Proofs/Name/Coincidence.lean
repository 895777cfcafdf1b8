import UnitPipeline.Proofs.Name.Collision

namespace UnitPipeline

-- The stem of a mint, and which of the mints for this stem it is, counted from one.
def Mint (stems : List String) (i : Nat) (stem : String) (number : Nat) : Prop :=
  stems[i]? = some stem ∧ number = (stems.take (i + 1)).count stem

section
variable {stems : List String} {i j k m number : Nat} {stem p q : String}

theorem Mint.ticket (seen : List String) (mint : Mint stems i stem number) :
    (tickets seen stems)[i]? = some (stem, seen.count stem + number) := by
  induction stems generalizing seen i number with
  | nil => cases mint.1
  | cons first rest ih =>
    obtain ⟨here, rfl⟩ := mint
    cases i with
    | zero =>
      cases here
      simp [tickets]
    | succ i =>
      rw [tickets, List.getElem?_cons_succ, ih _ ⟨here, rfl⟩, List.take_succ_cons, List.count_cons,
        List.count_cons]
      exact congrArg some (congrArg (stem, ·) (by omega))

theorem Mint.before (first : Mint stems i p k) (second : Mint stems j p m) (before : i < j) :
    k < m := by
  obtain ⟨_, rfl⟩ := first
  obtain ⟨here, rfl⟩ := second
  have earlier : (stems.take (i + 1)).Sublist (stems.take j) :=
    (List.take_prefix_take_left before).sublist
  have last : stems.take (j + 1) = stems.take j ++ [p] := by
    rw [List.take_add_one, here, Option.toList_some]
  rw [last, List.count_append, List.count_singleton_self]
  exact Nat.lt_succ_of_le (earlier.count_le p)

theorem Mint.apart (first : Mint stems i p k) (second : Mint stems j q m) (other : i ≠ j) :
    ¬(p = q ∧ k = m) := by
  rintro ⟨rfl, rfl⟩
  rcases Nat.lt_or_gt_of_ne other with before | behind
  · exact Nat.lt_irrefl _ (first.before second before)
  · exact Nat.lt_irrefl _ (second.before first behind)

end

def CompilationUnit.changed (u : CompilationUnit) (changes : List (Session × UnitOp)) :
    CompilationUnit := changes.foldl (fun u change => change.2.apply change.1 u) u

theorem changed_fresh (u : CompilationUnit) (changes : List (Session × UnitOp)) :
    (u.changed changes).fresh = u.fresh.after (stemsOf changes) := by
  induction changes generalizing u with
  | nil => rfl
  | cons change rest ih =>
    obtain ⟨s, op⟩ := change
    refine (ih (op.apply s u)).trans ?_
    rw [op.apply_fresh, stemsOf, stemsOf, List.filterMap_cons]
    cases op.stem? <;> rfl

theorem minted_tickets (source : SourceFile) (earlier : List String)
    (changes : List (Session × UnitOp))
    (bounded : ∀ stem, (earlier ++ stemsOf changes).count stem < UInt64.size) :
    ({} : FreshNames).handOut earlier ++
        mintedOn (.withFreshNames source (({} : FreshNames).after earlier)) changes =
      (tickets [] (earlier ++ stemsOf changes)).map fun t => numbered t.1 t.2 := by
  rw [mintedOn_handOut, CompilationUnit.withFreshNames, ← handOut_append]
  exact handOut_tickets (fun _ => rfl) (by simpa using bounded)

theorem tickets_length (seen stems : List String) : (tickets seen stems).length = stems.length := by
  induction stems generalizing seen with
  | nil => rfl
  | cons stem rest ih => rw [tickets, List.length_cons, List.length_cons, ih]

def EndsInDigit (stem : String) : Prop := ∃ c ∈ stem.toList.getLast?, c.isDigit = true

theorem Overlaps.ends {p q : String} {k m : Nat} (overlaps : Overlaps p k q m) : EndsInDigit q := by
  obtain ⟨digits, some, all, longer, _⟩ := overlaps
  refine ⟨digits.getLast some, ?_, all _ (List.getLast_mem some)⟩
  rw [longer, List.getLast?_append, List.getLast?_eq_getLast_of_ne_nil some]
  rfl

def namesFor (stems : List String) : List String :=
  (tickets [] stems).map fun t => numbered t.1 t.2

section
variable {stems : List String} {i j k m : Nat} {p q : String}

theorem Mint.name (mint : Mint stems i p k) : (namesFor stems)[i]? = some (numbered p k) := by
  rw [namesFor, List.getElem?_map, mint.ticket [], List.count_nil, Nat.zero_add]
  rfl

theorem Mint.same_iff (first : Mint stems i p k) (second : Mint stems j q m) (other : i ≠ j) :
    (namesFor stems)[i]? = (namesFor stems)[j]? ↔
      p ≠ q ∧ (Overlaps p k q m ∨ Overlaps q m p k) := by
  rw [first.name, second.name, Option.some.injEq, numbered_eq_iff]
  constructor
  · intro cases
    rcases cases with one | overlaps | overlaps
    · exact absurd one (first.apart second other)
    · exact ⟨overlaps.longer, Or.inl overlaps⟩
    · exact ⟨overlaps.longer.symm, Or.inr overlaps⟩
  · exact fun both => Or.inr both.2

theorem namesFor_length (stems : List String) : (namesFor stems).length = stems.length := by
  rw [namesFor, List.length_map, tickets_length]

theorem namesFor_nodup (plain : ∀ stem ∈ stems, ¬EndsInDigit stem) : (namesFor stems).Nodup := by
  refine List.nodup_iff_getElem?_ne_getElem?.mpr ?_
  intro i j before inside same
  rw [namesFor_length] at inside
  have here := List.getElem?_eq_getElem (Nat.lt_trans before inside)
  have there := List.getElem?_eq_getElem inside
  have first : Mint stems i _ _ := ⟨here, rfl⟩
  have second : Mint stems j _ _ := ⟨there, rfl⟩
  rcases ((first.same_iff second (Nat.ne_of_lt before)).mp same).2 with overlaps | overlaps
  · exact plain _ (List.getElem_mem inside) overlaps.ends
  · exact plain _ (List.getElem_mem (Nat.lt_trans before inside)) overlaps.ends

end

theorem changed_count (source : SourceFile) (earlier : List String)
    (before : List (Session × UnitOp)) (stem : String)
    (bounded : (earlier ++ stemsOf before).count stem < UInt64.size) :
    let unit := CompilationUnit.withFreshNames source (({} : FreshNames).after earlier)
    ((unit.changed before).fresh.count stem).toNat = (earlier ++ stemsOf before).count stem := by
  intro unit
  have begun : (({} : FreshNames).count stem).toNat = 0 := rfl
  have all : (unit.changed before).fresh = ({} : FreshNames).after (earlier ++ stemsOf before) :=
    (changed_fresh unit before).trans List.foldl_append.symm
  rw [all, count_after, begun, Nat.zero_add]
  exact Nat.mod_eq_of_lt bounded

-- When two names that one creator handed out are equal, for all mints on the way: those
-- before the creator came to a unit, and those of the unit, over any other change to it.
theorem names_coincide (source : SourceFile) (earlier : List String)
    (changes : List (Session × UnitOp))
    (bounded : ∀ stem, (earlier ++ stemsOf changes).count stem < UInt64.size) :
    let stems := earlier ++ stemsOf changes
    let unit := CompilationUnit.withFreshNames source (({} : FreshNames).after earlier)
    let names := ({} : FreshNames).handOut earlier ++ mintedOn unit changes
    names.length = stems.length ∧
      (∀ (i : Nat) (p : String) (k : Nat), Mint stems i p k → names[i]? = some (numbered p k)) ∧
      (∀ before after, changes = before ++ after → ∀ stem,
        ((unit.changed before).fresh.count stem).toNat = (earlier ++ stemsOf before).count stem) ∧
      (∀ (i j : Nat) (p q : String) (k m : Nat), i ≠ j → Mint stems i p k → Mint stems j q m →
        (names[i]? = names[j]? ↔ p ≠ q ∧ (Overlaps p k q m ∨ Overlaps q m p k))) ∧
      (∀ (i j : Nat) (p : String), i ≠ j → stems[i]? = some p → stems[j]? = some p →
        names[i]? ≠ names[j]?) ∧
      ((∀ stem ∈ stems, ¬EndsInDigit stem) → names.Nodup) := by
  intro stems unit names
  have minted : names = namesFor stems := minted_tickets source earlier changes bounded
  rw [minted]
  refine ⟨namesFor_length stems, fun _ _ _ => Mint.name, ?_,
    fun _ _ _ _ _ _ other first second => first.same_iff second other, ?_, namesFor_nodup⟩
  · intro before after split stem
    have part : (earlier ++ stemsOf before).count stem ≤ (earlier ++ stemsOf changes).count stem := by
      rw [split, stemsOf, stemsOf, List.filterMap_append, ← List.append_assoc]
      exact (List.sublist_append_left _ _).count_le stem
    exact changed_count source earlier before stem (Nat.lt_of_le_of_lt part (bounded stem))
  · intro i j p other here there same
    have first : Mint stems i p _ := ⟨here, rfl⟩
    have second : Mint stems j p _ := ⟨there, rfl⟩
    exact ((first.same_iff second other).mp same).1 rfl

def elevenNames : List (Session × UnitOp) :=
  List.replicate 4 (typing, .freshTerm "x") ++ List.replicate 4 (.global, .freshType "x") ++
    (.global, .clear) :: List.replicate 3 (typing, .rawName "x")

theorem elevenNames_coincide :
    (∀ stem, (["x1"] ++ stemsOf elevenNames).count stem < UInt64.size) ∧
      Mint (["x1"] ++ stemsOf elevenNames) 0 "x1" 1 ∧
      Mint (["x1"] ++ stemsOf elevenNames) 11 "x" 11 ∧ Overlaps "x" 11 "x1" 1 := by
  have bounded : ∀ stem, (["x1"] ++ stemsOf elevenNames).count stem < UInt64.size :=
    fun stem => Nat.lt_of_le_of_lt List.count_le_length (by decide)
  have first : Mint (["x1"] ++ stemsOf elevenNames) 0 "x1" 1 := ⟨by decide, by decide⟩
  have last : Mint (["x1"] ++ stemsOf elevenNames) 11 "x" 11 := ⟨by decide, by decide⟩
  obtain ⟨_, _, _, law, _, _⟩ := names_coincide .absent ["x1"] elevenNames bounded
  have same := (law 0 11 _ _ _ _ (by decide) first last).mp (by decide +kernel)
  refine ⟨bounded, first, last, ?_⟩
  rcases same.2 with overlaps | overlaps
  · obtain ⟨digits, filled, _, longer, _⟩ := overlaps
    cases digits with
    | nil => exact absurd rfl filled
    | cons c rest => simp at longer
  · exact overlaps

end UnitPipeline
