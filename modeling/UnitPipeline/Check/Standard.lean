import UnitPipeline.Check.Drain

namespace UnitPipeline

namespace StandardChecks
variable {σ : Type}

-- The built-in checks, for the features that are enabled. A feature is warned
-- about once in a unit; a validation only passes its message on.
def handle (enabled : OrderedSet Feature) : DeferredCheck → Action σ (Except CheckFailure Unit)
  | .featureEnabled feature position =>
    .look fun _ u =>
      if enabled.contains feature || u.features.contains feature then .done (.ok ())
      else
        .change (.rememberFeature feature) fun _ =>
          .change (.report .warning position
            (feature.name ++ " is a language feature that should be enabled explicitly"))
            fun _ => .done (.ok ())
  | .syntheticsDrained =>
    .look fun _ u =>
      if u.synthetics.isEmpty then .done (.ok ())
      else .done (.error (.syntheticsNotDrained u.synthetics.length))
  | .computed node =>
    .look fun _ u =>
      if u.cache.contains node then .done (.ok ()) else .done (.error (.missingComputation node))
  | .validate code node message =>
    .look fun _ u =>
      let position := match node with
        | some n => u.nodePosition n
        | none => Position.none
      .change (.report .error position ("[" ++ code ++ "] " ++ message)) fun _ => .done (.ok ())

def runner : Runner (OrderedSet Feature) := fun enabled check =>
  (handle enabled check).bind fun result => .done (result, enabled)

end StandardChecks

end UnitPipeline
