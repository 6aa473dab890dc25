import OpenRath.Library.Values

/-!
# Execution plans

The nodes of a workflow and the plan made of them (`src/rath/definition/model.py`). A plan
carries what `WorkflowCompiler._validate` checks of its nodes, but for the reachability of every
node, which the execution does not rely on. Of a plan, the fields that the runtime reads are kept;
of the retry policy of a node, the number of attempts, as the delay between two attempts has no
effect on the stores.

## Main definitions

* `NodeKind`, `NodeSpec`, `ExecutionPlan`.
-/

namespace OpenRath

/-- The kind of a node. -/
inductive NodeKind
  | step
  | router
  | opaqueCall
deriving DecidableEq

/-- A node of a workflow. -/
structure NodeSpec where
  id : String
  kind : NodeKind
  isAsync : Bool
  maxAttempts : ℕ
  timeoutSeconds : Option Seconds
  checkpoint : Bool
  successors : List String
  id_not_blank : isBlank id = false
  maxAttempts_pos : 1 ≤ maxAttempts

/-- A workflow compiled for execution. -/
structure ExecutionPlan where
  id : UUID
  definitionHash : String
  entrypoint : String
  nodes : List NodeSpec
  stateSchema : JsonObject
  definitionHash_length : definitionHash.length = 64
  nodup_ids : (nodes.map NodeSpec.id).Nodup
  entrypoint_mem : entrypoint ∈ nodes.map NodeSpec.id
  successors_mem : ∀ node ∈ nodes, ∀ s ∈ node.successors, s ∈ nodes.map NodeSpec.id
  router_successors : ∀ node ∈ nodes, node.kind = .router → node.successors ≠ []

/-- The node of a plan under an id (`by_id`). -/
def ExecutionPlan.node? (plan : ExecutionPlan) (id : String) : Option NodeSpec :=
  plan.nodes.find? fun node => node.id = id

end OpenRath
