import UnitPipeline.Unit.Action

namespace UnitPipeline

abbrev Runner (σ : Type) := σ → DeferredCheck → Action σ (Except CheckFailure Unit × σ)

variable {σ : Type}

-- The checks of one batch in order. The first failure ends the batch: the check
-- that failed is used up, and those behind it go back to the head of the queue.
def runBatch (runner : Runner σ) (inner : Drain σ) (point : CheckPoint) :
    List DeferredCheck → σ → Desk → Option (Outcome (Except UnitError Nat × σ))
  | [], state, desk => some ⟨(.ok 0, state), desk, []⟩
  | check :: rest, state, desk =>
    ((runner state check).run inner desk).bind fun first =>
      let begun := UnitEvent.started point check desk.session.phase :: first.events
      match first.value with
      | (.error failure, next) =>
        let unit := first.desk.unit
        some ⟨(.error (.checkFailed unit.display failure), next),
          { first.desk with unit := { unit with checks := unit.checks.requeue point rest } },
          begun⟩
      | (.ok (), next) =>
        (runBatch runner inner point rest next first.desk).map fun out =>
          ⟨(out.value.1.map (· + 1), out.value.2), out.desk, begun ++ out.events⟩

-- Batch after batch until none is left. Checks that come for the same
-- checkpoint while a batch runs make up the next one. `limit` bounds the
-- batches of a drain and, the same way, of the drains inside it; `ran` counts
-- the checks of the batches before.
def drainFrom (runner : Runner σ) : Nat → Nat → Drain σ
  | 0, _, _, _, _ => none
  | limit + 1, ran, point, state, desk =>
    match desk.unit.checks.waiting point with
    | [] => some ⟨(.ok ran, state), desk, [.drained desk.unit.display point ran]⟩
    | batch =>
      let unit := desk.unit
      let taken := { desk with unit := { unit with checks := unit.checks.without point } }
      (runBatch runner (drainFrom runner limit 0) point batch state taken).bind fun out =>
        match out.value with
        | (.error failure, next) => some ⟨(.error failure, next), out.desk, out.events⟩
        | (.ok more, next) =>
          (drainFrom runner limit (ran + more) point next out.desk).map fun last =>
            { last with events := out.events ++ last.events }

def drain (runner : Runner σ) (limit : Nat) : Drain σ := drainFrom runner limit 0

def batchLimit : Nat := 1000000

end UnitPipeline
