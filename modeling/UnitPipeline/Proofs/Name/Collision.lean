import UnitPipeline.Proofs.Name.Numbered
import UnitPipeline.Unit.Operation

namespace UnitPipeline

def FreshNames.handOut (fresh : FreshNames) : List String → List String
  | [] => []
  | stem :: rest => fresh.nextName stem :: (fresh.advance stem).handOut rest

def FreshNames.after (fresh : FreshNames) (stems : List String) : FreshNames :=
  stems.foldl FreshNames.advance fresh

theorem handOut_append (fresh : FreshNames) (a b : List String) :
    fresh.handOut (a ++ b) = fresh.handOut a ++ (fresh.after a).handOut b := by
  induction a generalizing fresh with
  | nil => rfl
  | cons stem rest ih =>
    have later := ih (fresh.advance stem)
    exact congrArg (fresh.nextName stem :: ·) later

theorem count_after (fresh : FreshNames) (stems : List String) (stem : String) :
    ((fresh.after stems).count stem).toNat =
      ((fresh.count stem).toNat + stems.count stem) % UInt64.size := by
  induction stems generalizing fresh with
  | nil => exact (Nat.mod_eq_of_lt (fresh.count stem).toNat_lt).symm
  | cons other rest ih =>
    refine (ih (fresh.advance other)).trans ?_
    rw [FreshNames.count_advance]
    by_cases same : other = stem
    · subst same
      rw [if_pos rfl, List.count_cons_self, UInt64.toNat_add]
      simp [UInt64.size]
      omega
    · rw [if_neg same, List.count_cons_of_ne same]

def tickets (seen : List String) : List String → List (String × Nat)
  | [] => []
  | stem :: rest => (stem, seen.count stem + 1) :: tickets (stem :: seen) rest

theorem handOut_tickets {fresh : FreshNames}
    (counted : ∀ stem, (fresh.count stem).toNat = seen.count stem)
    (bounded : ∀ stem, seen.count stem + stems.count stem < UInt64.size) :
    fresh.handOut stems = (tickets seen stems).map fun t => numbered t.1 t.2 := by
  induction stems generalizing fresh seen with
  | nil => rfl
  | cons stem rest ih =>
    have room := bounded stem
    rw [List.count_cons_self] at room
    have fits : seen.count stem + 1 < UInt64.size := by omega
    have next : (fresh.count stem + 1).toNat = seen.count stem + 1 := by
      rw [UInt64.toNat_add, counted]
      exact Nat.mod_eq_of_lt fits
    have name : fresh.nextName stem = numbered stem (seen.count stem + 1) := by
      rw [FreshNames.nextName, next, numbered]
    rw [FreshNames.handOut, tickets, List.map_cons, name]
    congr 1
    apply ih
    · intro other
      rw [FreshNames.count_advance]
      by_cases same : stem = other
      · subst same
        rw [if_pos rfl, next, List.count_cons_self]
      · rw [if_neg same, counted, List.count_cons_of_ne same]
    · intro other
      have fits := bounded other
      simp only [List.count_cons] at fits ⊢
      omega

theorem mem_tickets : (stem, number) ∈ tickets seen stems ↔
    seen.count stem < number ∧ number ≤ seen.count stem + stems.count stem := by
  induction stems generalizing seen with
  | nil => simp [tickets]
  | cons first rest ih =>
    rw [tickets, List.mem_cons, ih]
    by_cases same : first = stem
    · subst same
      simp
      omega
    · simp [same, Ne.symm same]

theorem tickets_nodup (seen stems : List String) : (tickets seen stems).Nodup := by
  induction stems generalizing seen with
  | nil => exact .nil
  | cons stem rest ih =>
    refine List.nodup_cons.mpr ⟨?_, ih _⟩
    intro again
    have above := (mem_tickets.mp again).1
    rw [List.count_cons_self] at above
    exact Nat.lt_irrefl _ above

-- When a creator repeats itself. A stem that has another stem and a number as its
-- text shares the names of the shorter one from ten times that number on.
theorem handOut_nodup (stems : List String) (bounded : ∀ stem, stems.count stem < UInt64.size) :
    (({} : FreshNames).handOut stems).Nodup ↔ ∀ stem number, 0 < number →
      numbered stem number ∈ stems → stems.count stem ≤ 10 * number := by
  have fresh : ∀ stem, (({} : FreshNames).count stem).toNat = List.count stem [] := fun _ => rfl
  rw [handOut_tickets fresh (by simpa using bounded)]
  rw [List.nodup_map_iff_inj_on (tickets_nodup [] stems)]
  simp only [Prod.forall, mem_tickets, List.count_nil, Nat.zero_add]
  constructor
  · intro distinct stem number positive inside
    apply Nat.le_of_not_lt
    intro past
    -- The first name of the longer stem is this name of the shorter.
    have ticket : 0 < 10 * number + 1 ∧ 10 * number + 1 ≤ stems.count stem := by omega
    have other : 0 < 1 ∧ 1 ≤ stems.count (numbered stem number) :=
      ⟨Nat.one_pos, List.count_pos_iff.mpr inside⟩
    have same := numbered_numbered stem positive (by decide : 1 < 10)
    have one := distinct _ _ ticket _ _ other same.symm
    obtain ⟨_, numbers⟩ := Prod.mk.inj one
    omega
  · rintro apart p k ⟨left, within⟩ q m ⟨right, among⟩ same
    have mints : 0 < stems.count p ∧ 0 < stems.count q := by omega
    obtain ⟨rfl, rfl⟩ | ⟨n, positive, longer, past⟩ | ⟨n, positive, longer, past⟩ :=
      numbered_eq_cases same left right
    · rfl
    · subst longer
      have bound := apart p n positive (List.count_pos_iff.mp mints.2)
      omega
    · subst longer
      have bound := apart q n positive (List.count_pos_iff.mp mints.1)
      omega

namespace UnitOp

def stem? : UnitOp → Option String
  | freshTerm stem | freshType stem | rawName stem => some stem
  | _ => none

def minted? (s : Session) (u : CompilationUnit) : UnitOp → Option String
  | freshTerm stem => some (answer s u (freshTerm stem) : TermName).text
  | freshType stem => some (answer s u (freshType stem) : TypeName).text
  | rawName stem => some (answer s u (rawName stem) : String)
  | _ => none

theorem minted_eq (s : Session) (u : CompilationUnit) (op : UnitOp) :
    op.minted? s u = op.stem?.map u.fresh.nextName := by
  cases op <;> rfl

theorem apply_fresh (s : Session) (u : CompilationUnit) (op : UnitOp) :
    (op.apply s u).fresh = u.fresh.after op.stem?.toList := by
  cases op with
  | memoizeOnce node result =>
    simp only [apply]
    split <;> rfl
  | _ => rfl

end UnitOp

def stemsOf (changes : List (Session × UnitOp)) : List String :=
  changes.filterMap (·.2.stem?)

def mintedOn (u : CompilationUnit) : List (Session × UnitOp) → List String
  | [] => []
  | (s, op) :: rest => (op.minted? s u).toList ++ mintedOn (op.apply s u) rest

theorem mintedOn_handOut (u : CompilationUnit) (changes : List (Session × UnitOp)) :
    mintedOn u changes = u.fresh.handOut (stemsOf changes) := by
  induction changes generalizing u with
  | nil => rfl
  | cons change rest ih =>
    obtain ⟨s, op⟩ := change
    have later := ih (op.apply s u)
    rw [op.apply_fresh] at later
    simp only [mintedOn, later, op.minted_eq, stemsOf, List.filterMap_cons]
    cases op.stem? <;> rfl

-- All names of one creator, those that it handed out before it came to a unit and
-- those that the unit handed out, however that was done.
theorem minted_nodup (source : SourceFile) (earlier : List String)
    (changes : List (Session × UnitOp))
    (bounded : ∀ stem, (earlier ++ stemsOf changes).count stem < UInt64.size) :
    (({} : FreshNames).handOut earlier ++
        mintedOn (.withFreshNames source (({} : FreshNames).after earlier)) changes).Nodup ↔
      ∀ stem number, 0 < number → numbered stem number ∈ earlier ++ stemsOf changes →
        (earlier ++ stemsOf changes).count stem ≤ 10 * number := by
  rw [← handOut_nodup _ bounded, mintedOn_handOut, handOut_append]
  rfl

def typing : Session := { phase := .typer }

def fewNames : List (Session × UnitOp) :=
  [(typing, .freshTerm "x"), (.global, .rawName "y2"), (.global, .clear), (typing, .freshType "x")]

theorem fewNames_apart :
    (∀ stem, (["x"] ++ stemsOf fewNames).count stem < UInt64.size) ∧
      ∀ stem number, 0 < number → numbered stem number ∈ ["x"] ++ stemsOf fewNames →
        (["x"] ++ stemsOf fewNames).count stem ≤ 10 * number := by
  have bounded : ∀ stem, (["x"] ++ stemsOf fewNames).count stem < UInt64.size :=
    fun stem => Nat.lt_of_le_of_lt List.count_le_length (by decide)
  exact ⟨bounded, (minted_nodup .absent ["x"] fewNames bounded).mp (by decide +kernel)⟩

def twice : List (Session × UnitOp) :=
  List.replicate 11 (.global, .rawName "x") ++ [(.global, .rawName "x1")]

theorem twice_collides :
    mintedOn (.new .absent) twice = ["x1", "x2", "x3", "x4", "x5", "x6", "x7", "x8", "x9", "x10",
      "x11", "x11"] ∧ ¬ (mintedOn (.new .absent) twice).Nodup := by
  decide +kernel

end UnitPipeline
