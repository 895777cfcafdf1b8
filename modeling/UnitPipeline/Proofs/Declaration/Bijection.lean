import Mathlib.Data.List.Induction
import UnitPipeline.KeyedTable
import UnitPipeline.Proofs.Declaration.Listing

namespace UnitPipeline

def Declaration.introduction (d : Declaration) : Introduction := ⟨d.source, d.name, d.kind⟩

namespace DeclTable
variable {table : DeclTable} {made calls : List Introduction} {i : Introduction}
  {d : Declaration} {id : DeclId} {name : String}

def call (table : DeclTable) (i : Introduction) : Except DeclError DeclId × DeclTable :=
  match table.declare i.name i.kind i.source with
  | .ok (id, next) => (.ok id, next)
  | .error refusal => (.error refusal, table)

def after (table : DeclTable) (calls : List Introduction) : DeclTable :=
  calls.foldl (fun table i => (table.call i).2) table

def grown (table : DeclTable) (i : Introduction) : DeclTable :=
  ⟨table.decls.push (i.declared table.size)⟩

theorem declare_free (free : table.named? i.name = none) :
    table.declare i.name i.kind i.source = .ok (.ofIndex table.size, table.grown i) := by
  simp only [declare, free]
  rfl

theorem call_free (free : table.named? i.name = none) :
    table.call i = (.ok (.ofIndex table.size), table.grown i) := by
  simp only [call, declare_free free]

theorem call_taken (taken : table.named? i.name = some d) :
    table.call i = (.error (.duplicate i.name), table) := by
  simp only [call, declare, taken]

theorem after_snoc (table : DeclTable) (calls : List Introduction) (i : Introduction) :
    table.after (calls ++ [i]) = ((table.after calls).call i).2 := by
  rw [after, List.foldl_append]
  rfl

structure Extends (table next : DeclTable) (d : Declaration) : Prop where
  dense : d.id.index = table.size
  order : next.toList = table.toList ++ [d]
  get : ∀ id, next.get? id = if id = d.id then some d else table.get? id
  named : ∀ name, next.named? name = if name = d.name then some d else table.named? name

theorem grown_named (free : table.named? i.name = none) (name : String) :
    (table.grown i).named? name =
      if name = i.name then some (i.declared table.size) else table.named? name := by
  have order : (table.grown i).toList = table.toList ++ [i.declared table.size] :=
    Array.toList_push
  rw [named?, order, List.find?_append]
  by_cases new : name = i.name
  · subst new
    have before : table.toList.find? (fun d => d.name = i.name) = none := free
    rw [before, if_pos rfl]
    simp [Introduction.declared]
  · have other : i.name ≠ name := Ne.symm new
    rw [if_neg new]
    simp [Introduction.declared, other, named?]

theorem grown_extends (few : table.size < UInt32.size) (free : table.named? i.name = none) :
    table.Extends (table.grown i) (i.declared table.size) := by
  have dense : (DeclId.ofIndex table.size).index = table.size := DeclId.index_ofIndex few
  refine ⟨dense, Array.toList_push, fun id => ?_, grown_named free⟩
  rw [get?, grown, Array.getElem?_push]
  by_cases last : id = (i.declared table.size).id
  · have here : id.index = table.decls.size := (congrArg DeclId.index last).trans dense
    rw [if_pos here, if_pos last]
  · have before : id.index ≠ table.decls.size := by
      intro same
      exact last (id.ofIndex_index.symm.trans (congrArg DeclId.ofIndex same))
    rw [if_neg before, if_neg last]
    rfl

theorem Lists.named_find (lists : table.Lists made) (name : String) :
    (table.named? name).map Declaration.introduction = made.find? fun i => i.name = name := by
  have alone : made.find? (fun i => i.name = name) =
      (made.zipIdx.find? fun e => e.1.name = name).map (·.1) := by
    rw [← List.zipIdx_map_fst 0 made, List.find?_map, List.zipIdx_map_fst]
    rfl
  rw [named?, lists.entries, List.find?_map, Option.map_map, alone]
  rfl

theorem after_lists (calls : List Introduction) :
    ∃ made, (({} : DeclTable).after calls).Lists made ∧
      ∀ name, made.find? (fun i => i.name = name) = calls.find? fun i => i.name = name := by
  induction calls using List.reverseRecOn with
  | nil => exact ⟨[], ⟨rfl, List.nodup_nil⟩, fun _ => rfl⟩
  | append_singleton calls i ih =>
    obtain ⟨made, lists, firsts⟩ := ih
    rw [after_snoc]
    cases found : (({} : DeclTable).after calls).named? i.name with
    | none =>
      rw [call_free found]
      refine ⟨made ++ [i], lists.declare (declare_free found), fun name => ?_⟩
      rw [List.find?_append, List.find?_append, firsts]
    | some d =>
      rw [call_taken found]
      refine ⟨made, lists, fun name => ?_⟩
      rw [List.find?_append, firsts]
      by_cases same : i.name = name
      · have known := lists.named_find i.name
        rw [found, firsts, same] at known
        rw [← known]
        rfl
      · simp [same]

theorem after_first (calls : List Introduction) (name : String) :
    ((({} : DeclTable).after calls).named? name).map Declaration.introduction =
      calls.find? fun i => i.name = name := by
  obtain ⟨made, lists, firsts⟩ := after_lists calls
  rw [lists.named_find, firsts]

def Declared (calls : List Introduction) (name : String) : Prop :=
  ∃ before i after id, calls = before ++ i :: after ∧ i.name = name ∧
    ((({} : DeclTable).after before).call i).1 = .ok id

theorem declared_iff (calls : List Introduction) (name : String) :
    (∃ d, (({} : DeclTable).after calls).named? name = some d) ↔ Declared calls name := by
  have first := after_first calls name
  constructor
  · intro ⟨d, found⟩
    rw [found] at first
    obtain ⟨named, before, after, split, others⟩ := List.find?_eq_some_iff_append.mp first.symm
    have same : d.introduction.name = name := by simpa using named
    have free : (({} : DeclTable).after before).named? d.introduction.name = none := by
      have none := after_first before d.introduction.name
      rw [List.find?_eq_none.mpr ?_, Option.map_eq_none_iff] at none
      · exact none
      · intro i inside
        simpa [same] using others i inside
    exact ⟨before, d.introduction, after, _, split, same, congrArg Prod.fst (call_free free)⟩
  · intro ⟨before, i, after, id, split, named, _⟩
    cases found : (({} : DeclTable).after calls).named? name with
    | some d => exact ⟨d, rfl⟩
    | none =>
      rw [found] at first
      have other := List.find?_eq_none.mp first.symm i (by simp [split])
      exact absurd named (by simpa using other)

-- Names and ids lead to the same declarations: to one for each name that is declared and
-- to one for each id below the size. The first call for a name tells its declaration.
structure Bijects (table : DeclTable) (calls : List Introduction) : Prop where
  known : ∀ name, (∃ d, table.named? name = some d) ↔ Declared calls name
  first : ∀ name d, table.named? name = some d →
    d.name = name ∧ calls.find? (fun i => i.name = name) = some d.introduction
  held : ∀ name d, table.named? name = some d → table.get? d.id = some d
  back : ∀ id d, table.get? id = some d → d.id = id ∧ table.named? d.name = some d
  apart : ∀ left right name, table.nameOf? left = some name → table.nameOf? right = some name →
    left = right
  dense : table.toList.map (·.id.index) = List.range table.size

theorem Lists.held (lists : table.Lists made) (few : table.size ≤ UInt32.size)
    (found : table.named? name = some d) : table.get? d.id = some d := by
  obtain ⟨inside, _⟩ := lists.named_iff.mp found
  obtain ⟨place, i, here, rfl⟩ := lists.mem.mp inside
  exact lists.get few here

theorem Lists.back (lists : table.Lists made) (found : table.get? id = some d) :
    d.id = id ∧ table.named? d.name = some d := by
  obtain ⟨i, here, rfl⟩ := lists.get_iff.mp found
  exact ⟨id.ofIndex_index, lists.named here⟩

theorem Lists.dense (lists : table.Lists made) (few : table.size ≤ UInt32.size) :
    table.toList.map (·.id.index) = List.range table.size := by
  rw [lists.size] at few ⊢
  have places : made.zipIdx.map (·.2) = List.range made.length := by
    rw [List.zipIdx_map_snd, List.range_eq_range']
  rw [lists.entries, List.map_map, ← places]
  refine List.map_congr_left fun e inside => DeclId.index_ofIndex ?_
  have bound := List.snd_lt_of_mem_zipIdx inside
  omega

theorem after_bijects (few : (({} : DeclTable).after calls).size ≤ UInt32.size) :
    (({} : DeclTable).after calls).Bijects calls := by
  obtain ⟨made, lists, _⟩ := after_lists calls
  have first (name : String) (d : Declaration)
      (found : (({} : DeclTable).after calls).named? name = some d) :
      d.name = name ∧ calls.find? (fun i => i.name = name) = some d.introduction := by
    refine ⟨(lists.named_iff.mp found).2, ?_⟩
    rw [← after_first, found]
    rfl
  refine ⟨declared_iff calls, first, fun _ _ => lists.held few, fun _ _ => lists.back, ?_,
    lists.dense few⟩
  intro left right name here there
  obtain ⟨d, found, rfl⟩ := Option.map_eq_some_iff.mp here
  obtain ⟨e, other, same⟩ := Option.map_eq_some_iff.mp there
  obtain ⟨rfl, one⟩ := lists.back found
  obtain ⟨rfl, two⟩ := lists.back other
  rw [same, one, Option.some.injEq] at two
  rw [two]

end DeclTable

structure IndexedTable where
  decls : Array Declaration := #[]
  byName : KeyedTable String DeclId := {}

namespace IndexedTable
variable {held : IndexedTable} {table : DeclTable} {made : List Introduction} {i : Introduction}
  {d : Declaration}

def get? (held : IndexedTable) (id : DeclId) : Option Declaration := held.decls[id.index]?

def named? (held : IndexedTable) (name : String) : Option Declaration :=
  (held.byName.get? name).bind held.get?

def call (held : IndexedTable) (i : Introduction) : Except DeclError DeclId × IndexedTable :=
  if held.byName.contains i.name then (.error (.duplicate i.name), held)
  else
    let id := DeclId.ofIndex held.decls.size
    (.ok id, ⟨held.decls.push ⟨id, i.name, i.kind, i.source⟩, held.byName.put i.name id⟩)

def after (held : IndexedTable) (calls : List Introduction) : IndexedTable :=
  calls.foldl (fun held i => (held.call i).2) held

-- A table with the same declarations, in which the index has what a search by name finds.
structure Mirrors (held : IndexedTable) (table : DeclTable) : Prop where
  decls : held.decls = table.decls
  byName : ∀ name, held.byName.get? name = (table.named? name).map (·.id)

theorem Mirrors.get (mirrors : held.Mirrors table) : held.get? = table.get? := by
  funext id
  rw [get?, mirrors.decls]
  rfl

theorem Mirrors.named (mirrors : held.Mirrors table) (lists : table.Lists made)
    (few : table.size ≤ UInt32.size) : held.named? = table.named? := by
  funext name
  rw [named?, mirrors.byName, mirrors.get]
  cases found : table.named? name with
  | none => rfl
  | some d => exact lists.held few found

theorem Mirrors.call_taken (mirrors : held.Mirrors table) (taken : table.named? i.name = some d) :
    held.call i = (.error (.duplicate i.name), held) := by
  have index := mirrors.byName i.name
  rw [taken] at index
  rw [IndexedTable.call, KeyedTable.contains, index]
  rfl

theorem Mirrors.call (mirrors : held.Mirrors table) (i : Introduction) :
    (held.call i).1 = (table.call i).1 ∧ (held.call i).2.Mirrors (table.call i).2 := by
  cases found : table.named? i.name with
  | some d =>
    rw [DeclTable.call_taken found, mirrors.call_taken found]
    exact ⟨rfl, mirrors⟩
  | none =>
    have index := mirrors.byName i.name
    rw [found] at index
    rw [DeclTable.call_free found, IndexedTable.call, KeyedTable.contains, index, mirrors.decls]
    refine ⟨rfl, rfl, fun name => ?_⟩
    rw [DeclTable.grown_named found]
    refine (KeyedTable.get?_put held.byName i.name name _).trans ?_
    by_cases new : name = i.name
    · rw [if_pos new, if_pos new.symm]
      rfl
    · rw [if_neg new, if_neg (Ne.symm new)]
      exact mirrors.byName name

theorem after_mirrors (calls : List Introduction) :
    (({} : IndexedTable).after calls).Mirrors (({} : DeclTable).after calls) := by
  induction calls using List.reverseRecOn with
  | nil => exact ⟨rfl, fun _ => rfl⟩
  | append_singleton calls i ih =>
    rw [DeclTable.after_snoc, after, List.foldl_append]
    exact (ih.call i).2

end IndexedTable

-- What a table answers after any calls, and what one more call does to it. A table that
-- keeps an index for the names cannot be told from it.
theorem declarations_biject (calls : List Introduction)
    (few : (({} : DeclTable).after calls).size < UInt32.size) :
    let table := ({} : DeclTable).after calls
    let held := ({} : IndexedTable).after calls
    table.Bijects calls ∧
      (∀ i, (table.call i).1 = .error (.duplicate i.name) ↔ DeclTable.Declared calls i.name) ∧
      (∀ i, DeclTable.Declared calls i.name → (table.call i).2 = table ∧ (held.call i).2 = held) ∧
      (∀ i, ¬DeclTable.Declared calls i.name → ∃ id, (table.call i).1 = .ok id ∧
        table.Extends (table.call i).2 ⟨id, i.name, i.kind, i.source⟩) ∧
      held.decls = table.decls ∧ held.get? = table.get? ∧ held.named? = table.named? ∧
      ∀ i, (held.call i).1 = (table.call i).1 := by
  intro table held
  obtain ⟨made, lists, _⟩ := DeclTable.after_lists calls
  have mirrors : held.Mirrors table := IndexedTable.after_mirrors calls
  have known (i : Introduction) := DeclTable.declared_iff calls i.name
  refine ⟨DeclTable.after_bijects (Nat.le_of_lt few), ?_, ?_, ?_, mirrors.decls, mirrors.get,
    mirrors.named lists (Nat.le_of_lt few), fun i => (mirrors.call i).1⟩
  · intro i
    rw [← known i]
    constructor
    · intro refused
      cases found : table.named? i.name with
      | some d => exact ⟨d, rfl⟩
      | none =>
        rw [DeclTable.call_free found] at refused
        cases refused
    · intro ⟨d, found⟩
      rw [DeclTable.call_taken found]
  · intro i declared
    obtain ⟨d, found⟩ := (known i).mpr declared
    rw [DeclTable.call_taken found, mirrors.call_taken found]
    exact ⟨rfl, rfl⟩
  · intro i new
    have free : table.named? i.name = none :=
      Option.eq_none_iff_forall_ne_some.mpr fun d found => new ((known i).mp ⟨d, found⟩)
    rw [DeclTable.call_free free]
    exact ⟨_, rfl, DeclTable.grown_extends few free⟩

def threeCalls : List Introduction :=
  [⟨.absent, "A", .object⟩, ⟨.absent, "B", .classType⟩, ⟨.absent, "A", .method⟩]

theorem threeCalls_biject :
    let table := ({} : DeclTable).after threeCalls
    table.size = 2 ∧ DeclTable.Declared threeCalls "A" ∧
      table.nameOf? ⟨0⟩ = some "A" ∧ table.named? "A" = some ⟨⟨0⟩, "A", .object, .absent⟩ ∧
      table.Extends (table.call ⟨.absent, "C", .value⟩).2 ⟨⟨2⟩, "C", .value, .absent⟩ := by
  intro table
  have few : table.size < UInt32.size := by decide
  obtain ⟨bijects, refused, _, took, _⟩ := declarations_biject threeCalls few
  have found : table.named? "A" = some ⟨⟨0⟩, "A", .object, .absent⟩ := by decide
  have new : ¬DeclTable.Declared threeCalls "C" := by
    rw [← refused ⟨.absent, "C", .value⟩]
    decide
  obtain ⟨id, took, extended⟩ := took ⟨.absent, "C", .value⟩ new
  cases took
  exact ⟨rfl, (bijects.known "A").mp ⟨_, found⟩,
    congrArg (Option.map Declaration.name) (bijects.held "A" _ found), found, extended⟩

end UnitPipeline
