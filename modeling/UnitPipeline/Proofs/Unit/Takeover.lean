import UnitPipeline.Check.Standard
import UnitPipeline.Proofs.Unit.Steps

namespace UnitPipeline

-- A step that names a node names one that is allocated at that moment. It is no write
-- to ask for a result that is there already.
def Step.placed (desk : Desk) : Step → Bool
  | change (.setBody root) => root.index < desk.unit.trees.size
  | change (.memoize node _) => node.index < desk.unit.trees.size
  | change (.memoizeOnce node _) =>
    desk.unit.cache.contains node || node.index < desk.unit.trees.size
  | _ => true

def allPlaced : Desk → List Step → Bool
  | _, [] => true
  | desk, step :: rest => step.placed desk && allPlaced (step.apply desk) rest

-- What happened when to the nodes of a unit, the steps being counted: when the node at
-- each place of the arena was allocated, when each result was last written, when the
-- body was set and to what node, with its rewrites since, and when the arena was last
-- cleared on its own. A clear of the whole unit leaves nothing to tell.
structure Ledger where
  births : List Nat := []
  written : KeyedTable NodeId Nat := {}
  named : Option (Nat × Node) := none
  emptied : Option Nat := none

namespace Ledger

def note (l : Ledger) (time : Nat) (desk : Desk) : Step → Ledger
  | .change (.alloc _) => { l with births := l.births ++ [time] }
  | .change (.editNode id change) =>
    if desk.unit.body = some id then
      { l with named := l.named.map fun entry => (entry.1, change entry.2) }
    else l
  | .change .clearTrees => { l with births := [], emptied := some time }
  | .change (.setBody root) => { l with named := (desk.unit.trees.get? root).map (time, ·) }
  | .change (.memoize node _) => { l with written := l.written.put node time }
  | .change (.memoizeOnce node _) =>
    if desk.unit.cache.contains node then l else { l with written := l.written.put node time }
  | .change .clear => {}
  | _ => l

def after (l : Ledger) (time : Nat) (desk : Desk) : List Step → Ledger
  | [] => l
  | step :: rest => (l.note time desk step).after (time + 1) (step.apply desk) rest

def EmptiedSince (l : Ledger) (time : Nat) : Prop :=
  ∃ cleared, l.emptied = some cleared ∧ time < cleared

-- A mark that was made for a node: the node is still there, and older than the mark,
-- unless the arena was cleared on its own since.
def Marks (l : Ledger) (now : Nat) (id : NodeId) (time : Nat) : Prop :=
  time < now ∧
    (¬l.EmptiedSince time → ∃ birth, l.births[id.index]? = some birth ∧ birth < time)

structure Tells (l : Ledger) (now : Nat) (desk : Desk) : Prop where
  places : l.births.length = desk.unit.trees.size
  births : ∀ birth ∈ l.births, birth < now ∧ ∀ cleared, l.emptied = some cleared → cleared < birth
  emptied : ∀ cleared, l.emptied = some cleared → cleared < now
  keys : ∀ id, (desk.unit.cache.get? id).isSome = (l.written.get? id).isSome
  written : ∀ id time, l.written.get? id = some time → l.Marks now id time
  named : ∀ root, desk.unit.body = some root → ∃ time node, l.named = some (time, node) ∧
    l.Marks now root time ∧ (¬l.EmptiedSince time → desk.unit.trees.get? root = some node)

variable {l : Ledger} {desk : Desk} {id : NodeId}

theorem Marks.next (marks : l.Marks now id time) : l.Marks (now + 1) id time :=
  ⟨Nat.lt_succ_of_lt marks.1, marks.2⟩

theorem Marks.alloc (marks : l.Marks now id time) :
    { l with births := l.births ++ [now] }.Marks (now + 1) id time := by
  refine ⟨Nat.lt_succ_of_lt marks.1, fun kept => ?_⟩
  obtain ⟨birth, there, older⟩ := marks.2 kept
  obtain ⟨inside, _⟩ := List.getElem?_eq_some_iff.mp there
  exact ⟨birth, (List.getElem?_append_left inside).trans there, older⟩

theorem Marks.clearTrees (marks : l.Marks now id time) :
    { l with births := [], emptied := some now }.Marks (now + 1) id time :=
  ⟨Nat.lt_succ_of_lt marks.1, fun kept => absurd ⟨now, rfl, marks.1⟩ kept⟩

theorem Tells.mark (tells : l.Tells now desk) (placed : id.index < desk.unit.trees.size) :
    l.Marks (now + 1) id now := by
  refine ⟨Nat.lt_succ_self now, fun _ => ?_⟩
  rw [← tells.places] at placed
  have older := (tells.births _ (List.getElem_mem placed)).1
  exact ⟨l.births[id.index], List.getElem?_eq_getElem placed, older⟩

theorem Tells.aside (tells : l.Tells now desk) {next : Desk}
    (trees : next.unit.trees = desk.unit.trees) (cache : next.unit.cache = desk.unit.cache)
    (body : next.unit.body = desk.unit.body) : l.Tells (now + 1) next := by
  obtain ⟨places, births, emptied, keys, written, named⟩ := tells
  refine ⟨?_, ?_, ?_, ?_, ?_, ?_⟩
  · rw [trees, places]
  · exact fun birth born => ⟨Nat.lt_succ_of_lt (births birth born).1, (births birth born).2⟩
  · exact fun cleared last => Nat.lt_succ_of_lt (emptied cleared last)
  · rw [cache]
    exact keys
  · exact fun id time wrote => (written id time wrote).next
  · rw [trees, body]
    intro root set
    obtain ⟨time, node, there, marks, same⟩ := named root set
    exact ⟨time, node, there, marks.next, same⟩

theorem Tells.next (tells : l.Tells now desk) : l.Tells (now + 1) desk := tells.aside rfl rfl rfl

theorem Tells.alloc (tells : l.Tells now desk) (node : Node) :
    (l.note now desk (.change (.alloc node))).Tells (now + 1)
      (Step.apply desk (.change (.alloc node))) := by
  obtain ⟨places, births, emptied, keys, written, named⟩ := tells
  refine ⟨?_, ?_, ?_, keys, ?_, ?_⟩
  · simp [note, Step.apply, UnitOp.apply, TreeArena.alloc, TreeArena.size, places]
  · intro birth born
    rcases List.mem_append.mp born with before | here
    · exact ⟨Nat.lt_succ_of_lt (births birth before).1, (births birth before).2⟩
    · rw [List.mem_singleton.mp here]
      exact ⟨Nat.lt_succ_self now, emptied⟩
  · exact fun cleared last => Nat.lt_succ_of_lt (emptied cleared last)
  · exact fun id time wrote => (written id time wrote).alloc
  · intro root set
    obtain ⟨time, node, there, marks, same⟩ := named root set
    refine ⟨time, node, there, marks.alloc, fun kept => ?_⟩
    have found := same kept
    have inside := (TreeArena.get?_isSome _ root).mp (Option.isSome_of_eq_some found)
    exact (TreeArena.get?_alloc_old inside).trans found

theorem Tells.editNode (tells : l.Tells now desk) (id : NodeId) (change : Node → Node) :
    (l.note now desk (.change (.editNode id change))).Tells (now + 1)
      (Step.apply desk (.change (.editNode id change))) := by
  have later := tells.next
  have places : l.births.length = (desk.unit.trees.edit id change).size := by
    rw [TreeArena.size_edit, later.places]
  by_cases here : desk.unit.body = some id
  · simp only [note, if_pos here]
    refine ⟨places, later.births, later.emptied, later.keys, later.written, ?_⟩
    intro root set
    cases here.symm.trans set
    obtain ⟨time, node, there, marks, same⟩ := later.named id here
    refine ⟨time, change node, by rw [there]; rfl, marks, fun kept => ?_⟩
    simp only [Step.apply, UnitOp.apply, TreeArena.get?_edit, if_pos, same kept, Option.map_some]
  · simp only [note, if_neg here]
    refine ⟨places, later.births, later.emptied, later.keys, later.written, ?_⟩
    intro root set
    have other : root ≠ id := fun same => here (same ▸ set)
    obtain ⟨time, node, there, marks, same⟩ := later.named root set
    refine ⟨time, node, there, marks, fun kept => ?_⟩
    simp only [Step.apply, UnitOp.apply, TreeArena.get?_edit, if_neg other, same kept]

theorem Tells.clearTrees (tells : l.Tells now desk) :
    (l.note now desk (.change .clearTrees)).Tells (now + 1)
      (Step.apply desk (.change .clearTrees)) := by
  obtain ⟨_, _, _, keys, written, named⟩ := tells
  refine ⟨rfl, nofun, ?_, keys, ?_, ?_⟩
  · intro cleared last
    cases last
    exact Nat.lt_succ_self now
  · exact fun id time wrote => (written id time wrote).clearTrees
  · intro root set
    obtain ⟨time, node, there, marks, _⟩ := named root set
    exact ⟨time, node, there, marks.clearTrees, fun kept => absurd ⟨now, rfl, marks.1⟩ kept⟩

theorem Tells.setBody (tells : l.Tells now desk) (placed : id.index < desk.unit.trees.size) :
    (l.note now desk (.change (.setBody id))).Tells (now + 1)
      (Step.apply desk (.change (.setBody id))) := by
  have later := tells.next
  obtain ⟨node, found⟩ := Option.isSome_iff_exists.mp ((TreeArena.get?_isSome _ id).mpr placed)
  refine ⟨later.places, later.births, later.emptied, later.keys, later.written, ?_⟩
  intro root set
  cases set
  exact ⟨now, node, congrArg (Option.map (now, ·)) found, tells.mark placed, fun _ => found⟩

theorem Tells.write (tells : l.Tells now desk) (placed : id.index < desk.unit.trees.size)
    (result : NodeId) : { l with written := l.written.put id now }.Tells (now + 1)
      { desk with unit := { desk.unit with cache := desk.unit.cache.put id result } } := by
  have later := tells.next
  refine ⟨later.places, later.births, later.emptied, ?_, ?_, later.named⟩
  · intro other
    simp only [KeyedTable.get?_put]
    split
    · rfl
    · exact later.keys other
  · intro other time wrote
    rw [KeyedTable.get?_put] at wrote
    split at wrote
    · rename_i same
      cases wrote
      rw [← same]
      exact tells.mark placed
    · exact later.written other time wrote

theorem Tells.clear (now : Nat) (desk : Desk) :
    Tells {} now { desk with unit := desk.unit.cleared } :=
  ⟨rfl, nofun, nofun, fun _ => rfl, nofun, nofun⟩

theorem Tells.step (tells : l.Tells now desk) (step : Step) (placed : step.placed desk = true) :
    (l.note now desk step).Tells (now + 1) (step.apply desk) := by
  cases step with
  | change op =>
    cases op with
    | alloc node => exact tells.alloc node
    | editNode id change => exact tells.editNode id change
    | clearTrees => exact tells.clearTrees
    | setBody root => exact tells.setBody (of_decide_eq_true placed)
    | memoize node result => exact tells.write (of_decide_eq_true placed) result
    | memoizeOnce node result =>
      by_cases known : desk.unit.cache.contains node = true
      · simp only [note, Step.apply, UnitOp.apply, if_pos known]
        exact tells.aside rfl rfl rfl
      · simp only [note, Step.apply, UnitOp.apply, if_neg known]
        rw [Step.placed, Bool.eq_false_iff.mpr known, Bool.false_or] at placed
        exact tells.write (of_decide_eq_true placed) result
    | clear => exact .clear (now + 1) desk
    | _ => exact tells.aside rfl rfl rfl
  | enterPhase phase => exact tells.aside rfl rfl rfl
  | setTracking on => exact tells.aside rfl rfl rfl

theorem Tells.after (tells : l.Tells now desk) (placed : allPlaced desk steps = true) :
    (l.after now desk steps).Tells (now + steps.length) (desk.after steps) := by
  induction steps generalizing l now desk with
  | nil => exact tells
  | cons step rest ih =>
    obtain ⟨first, others⟩ := Bool.and_eq_true_iff.mp placed
    have onwards := ih (tells.step step first) others
    rwa [Nat.succ_add_eq_add_succ] at onwards

-- What is found at a place belongs to the node there. The node is known by when it was
-- allocated: what was made for it is younger than the node, and what was made for a node
-- that stood there before is older. The second happens exactly when the arena was cleared
-- on its own in between.
structure Rightful (l : Ledger) (desk : Desk) : Prop where
  nodes : ∀ id, (desk.unit.trees.get? id).isSome = (l.births[id.index]?).isSome
  results : ∀ id result, desk.unit.cache.get? id = some result →
    ∃ time, l.written.get? id = some time ∧
      ∀ birth, l.births[id.index]? = some birth → (birth < time ↔ ¬l.EmptiedSince time)
  body : ∀ root node, desk.unit.body = some root → desk.unit.bodyNode? = some node →
    ∃ time set birth, l.named = some (time, set) ∧ l.births[root.index]? = some birth ∧
      (birth < time ↔ ¬l.EmptiedSince time) ∧ (birth < time → node = set)

theorem Tells.older_iff (tells : l.Tells now desk) (marks : l.Marks now id time)
    (born : l.births[id.index]? = some birth) : birth < time ↔ ¬l.EmptiedSince time := by
  constructor
  · rintro older ⟨cleared, last, before⟩
    have after := (tells.births birth (List.mem_of_getElem? born)).2 cleared last
    exact Nat.lt_asymm older (Nat.lt_trans before after)
  · intro kept
    obtain ⟨first, there, older⟩ := marks.2 kept
    cases born.symm.trans there
    exact older

theorem Tells.nodes (tells : l.Tells now desk) (id : NodeId) :
    (desk.unit.trees.get? id).isSome = (l.births[id.index]?).isSome := by
  rw [Bool.eq_iff_iff, TreeArena.get?_isSome, ← tells.places]
  simp

theorem Tells.rightful (tells : l.Tells now desk) : l.Rightful desk := by
  refine ⟨tells.nodes, ?_, ?_⟩
  · intro id result known
    have wrote := (tells.keys id).symm.trans (Option.isSome_of_eq_some known)
    obtain ⟨time, there⟩ := Option.isSome_iff_exists.mp wrote
    exact ⟨time, there, fun birth born => tells.older_iff (tells.written id time there) born⟩
  · intro root node set found
    obtain ⟨time, named, there, marks, same⟩ := tells.named root set
    have here : desk.unit.trees.get? root = some node := by
      rwa [CompilationUnit.bodyNode?, set] at found
    have born := (tells.nodes root).symm.trans (Option.isSome_of_eq_some here)
    obtain ⟨birth, born⟩ := Option.isSome_iff_exists.mp born
    have older := tells.older_iff marks born
    refine ⟨time, named, birth, there, born, older, fun before => ?_⟩
    exact Option.some.inj (here.symm.trans (same (older.mp before)))

theorem Tells.unborn (tells : l.Tells now desk) (small : desk.unit.trees.size < UInt32.size) :
    desk.unit.cache.get? desk.unit.trees.nextId = none ↔
      ¬∃ time, l.written.get? desk.unit.trees.nextId = some time ∧ l.EmptiedSince time := by
  rw [← Option.not_isSome_iff_eq_none, tells.keys, Option.isSome_iff_exists]
  refine not_congr ⟨?_, fun ⟨time, wrote, _⟩ => ⟨time, wrote⟩⟩
  rintro ⟨time, wrote⟩
  refine ⟨time, wrote, Classical.byContradiction fun kept => ?_⟩
  obtain ⟨birth, there, _⟩ := (tells.written _ time wrote).2 kept
  obtain ⟨inside, _⟩ := List.getElem?_eq_some_iff.mp there
  rw [TreeArena.nextId, NodeId.index_ofIndex small, tells.places] at inside
  exact Nat.lt_irrefl _ inside

theorem after_unemptied (kept : ∀ step ∈ steps, step ≠ .change .clearTrees)
    (whole : l.emptied = none) : (l.after time desk steps).emptied = none := by
  induction steps generalizing l time desk with
  | nil => exact whole
  | cons step rest ih =>
    obtain ⟨here, others⟩ := List.forall_mem_cons.mp kept
    refine ih others ?_
    cases step with
    | change op =>
      cases op with
      | clearTrees => exact absurd rfl here
      | clear => rfl
      | editNode | memoizeOnce =>
        simp only [note]
        split <;> exact whole
      | _ => exact whole
    | _ => exact whole

end Ledger

theorem computed_missing_iff {inner : Drain (OrderedSet Feature)} (enabled : OrderedSet Feature)
    (id : NodeId) (desk : Desk) :
    ((StandardChecks.runner enabled (.computed id)).run inner desk).map (·.value.1) =
      some (.error (.missingComputation id)) ↔ desk.unit.cache.get? id = none := by
  simp only [StandardChecks.runner, StandardChecks.handle, Action.bind, Action.run]
  cases known : desk.unit.cache.get? id with
  | none => simp [KeyedTable.contains, known, Action.bind, Action.run]
  | some result => simp [KeyedTable.contains, known, Action.bind, Action.run]

-- For every history of a new unit in which what is named is there at that moment. The
-- node that is allocated next has a result, so that its check passes, exactly when one
-- was written for its place before the arena was last cleared on its own. A history
-- without such a clear leaves every result and the body with their nodes.
theorem takeover_exact (session : Session) (source : SourceFile) (fresh : FreshNames)
    (steps : List Step)
    (placed : allPlaced ⟨session, .withFreshNames source fresh⟩ steps = true) :
    let start : Desk := ⟨session, .withFreshNames source fresh⟩
    let desk := start.after steps
    let ledger := Ledger.after {} 0 start steps
    ledger.Rightful desk ∧
      ((∀ step ∈ steps, step ≠ .change .clearTrees) → ∀ time, ¬ledger.EmptiedSince time) ∧
      ∀ node, desk.unit.trees.size < UInt32.size →
        let id := desk.unit.trees.nextId
        let next := Step.apply desk (.change (.alloc node))
        next.unit.trees.get? id = some node ∧
          (next.unit.cache.get? id = none ↔
            ¬∃ time, ledger.written.get? id = some time ∧ ledger.EmptiedSince time) ∧
          ∀ (inner : Drain (OrderedSet Feature)) enabled,
            ((StandardChecks.runner enabled (.computed id)).run inner next).map (·.value.1) =
              some (.error (.missingComputation id)) ↔ next.unit.cache.get? id = none := by
  intro start desk ledger
  have begun : Ledger.Tells {} 0 start := .clear 0 start
  have tells : ledger.Tells (0 + steps.length) desk := begun.after placed
  refine ⟨tells.rightful, ?_, ?_⟩
  · rintro kept time ⟨cleared, last, _⟩
    have whole : ledger.emptied = none := Ledger.after_unemptied kept rfl
    rw [whole] at last
    cases last
  · intro node small
    refine ⟨TreeArena.get?_alloc_new small, tells.unborn small, fun inner enabled => ?_⟩
    exact computed_missing_iff enabled _ _

def blankDesk : Desk := ⟨{}, .new (.persistent "A.scala" "x")⟩

def rewriting : List Step :=
  [.change (.alloc ⟨.block, ⟨0, 1⟩, []⟩), .change (.memoize ⟨0⟩ ⟨0⟩), .change .clear,
    .change (.alloc ⟨.block, ⟨0, 1⟩, []⟩), .change (.alloc ⟨.ident "x", ⟨0, 1⟩, []⟩),
    .change (.setBody ⟨1⟩), .change (.memoizeOnce ⟨0⟩ ⟨1⟩),
    .change (.editNode ⟨1⟩ fun node => { node with children := [⟨0⟩] })]

def recycling : List Step :=
  [.change (.alloc ⟨.block, ⟨0, 1⟩, []⟩), .change (.memoize ⟨0⟩ ⟨0⟩),
    .change (.setBody ⟨0⟩), .change .clearTrees, .change (.alloc ⟨.ident "x", ⟨0, 1⟩, []⟩)]

theorem rewriting_takeover :
    ((Ledger.after {} 0 blankDesk rewriting).Rightful (blankDesk.after rewriting) ∧
      (blankDesk.after rewriting).unit.bodyNode? = some ⟨.ident "x", ⟨0, 1⟩, [⟨0⟩]⟩ ∧
      ∀ node, (Step.apply (blankDesk.after rewriting) (.change (.alloc node))).unit.cache.get? ⟨2⟩ =
        none) ∧
    (Ledger.after {} 0 blankDesk recycling).Rightful (blankDesk.after recycling) := by
  have kept := takeover_exact {} (.persistent "A.scala" "x") {} rewriting rfl
  have recycled := takeover_exact {} (.persistent "A.scala" "x") {} recycling rfl
  refine ⟨⟨kept.1, by decide, fun node => (kept.2.2 node (by decide)).2.1.mpr ?_⟩, recycled.1⟩
  rintro ⟨time, _, cleared, last, _⟩
  cases last

theorem recycling_takes_over :
    allPlaced blankDesk recycling = true ∧
      (blankDesk.after recycling).unit.cache.get? ⟨0⟩ = some ⟨0⟩ ∧
      (Ledger.after {} 0 blankDesk recycling).written.get? ⟨0⟩ = some 1 ∧
      (Ledger.after {} 0 blankDesk recycling).births = [4] ∧
      (∀ inner enabled, ((StandardChecks.runner enabled (.computed ⟨0⟩)).run inner
        (blankDesk.after recycling)).map (·.value.1) = some (.ok ())) ∧
      (blankDesk.after recycling).unit.bodyNode? = some ⟨.ident "x", ⟨0, 1⟩, []⟩ ∧
      (Ledger.after {} 0 blankDesk recycling).named = some (2, ⟨.block, ⟨0, 1⟩, []⟩) :=
  ⟨by decide, by decide, by decide, by decide, fun _ _ => rfl, by decide, by decide⟩

end UnitPipeline
